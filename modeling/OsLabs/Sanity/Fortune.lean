import OsLabs.Spec.Fortune

/-! The pot between two calls: a NUL is its last byte, and neither index is past the end.
What either call then does is said once for both. -/

namespace OsLabs.Fortune

variable {P : Page} {d d' : Device P}

structure Sane (d : Device P) : Prop where
  writeInd_le : d.writeInd ≤ P.size
  readInd_le : d.readInd ≤ d.writeInd
  nul : 0 < d.writeInd → d.cookiePot.bytes[d.writeInd - 1]? = some 0

theorem sane_init : Sane (mdInit P) where
  writeInd_le := Nat.zero_le _
  readInd_le := le_rfl
  nul h := absurd h (lt_irrefl 0)

theorem storePot_eq_ok {pot pot' : Region P.size} {i : ℤ} {bs : List UInt8} :
    storePot pot i bs = .ok pot' ↔ pot.store i bs = some pot' := by
  unfold storePot
  cases pot.store i bs <;> simp

theorem cursor_lt (hw : d.writeInd ≠ 0) : d.cursor < d.writeInd := by
  unfold Device.cursor
  split_ifs <;> omega

/-- Every read finds its string, which ends before `writeInd`. -/
theorem Sane.str (h : Sane d) (hw : d.writeInd ≠ 0) :
    d.cookiePot.str d.cursor = some d.cookie ∧ d.cursor + d.cookie.length + 1 ≤ d.writeInd := by
  have hlt := cursor_lt hw
  obtain ⟨s, hstr, rfl, hle⟩ := Region.str_of_nul (h.nul (by omega)) (i := d.cursor) (by omega)
  refine ⟨hstr, ?_⟩
  show d.cursor + ((d.cookiePot.bytes.drop d.cursor).takeWhile (· ≠ 0)).length + 1 ≤ _
  omega

/-! ### What a read does -/

theorem fortuneRead_idle (len left : ℕ) {fPos : ℕ} (h : fPos > 0 ∨ d.writeInd = 0) :
    fortuneRead d len fPos left = .ok (d, ⟨0, [], fPos⟩) := by
  simp [fortuneRead, h, pure, Except.pure]

/-- The read copies the next string with a newline behind it, as far as `copy_to_user`
gets. -/
theorem Sane.fortuneRead_eq (h : Sane d) (len left : ℕ) {fPos : ℕ} (hf : fPos = 0)
    (hw : d.writeInd ≠ 0) :
    ∃ tmpBuf, fortuneRead d len fPos left = .ok (if left ≠ 0 then
        ({ d with tmpBuf, readInd := d.cursor },
          ⟨-EFAULT, d.printed.take (d.cookie.length + 1 - left), fPos⟩)
      else
        ({ d with tmpBuf, readInd := d.cursor + (d.cookie.length + 1) },
          ⟨(d.cookie.length + 1 : ℕ), d.printed.take (d.cookie.length + 1),
            fPos + (d.cookie.length + 1)⟩)) := by
  obtain ⟨hstr, hle⟩ := h.str hw
  have hsize := h.writeInd_le
  have hload := Region.load_snprintf d.tmpBuf (s := d.cookie ++ [newline])
    (k := d.cookie.length + 1) (by simp) (by omega)
  refine ⟨(d.tmpBuf.snprintf (d.cookie ++ [newline])).1, ?_⟩
  have hidle : ¬ (fPos > 0 ∨ d.writeInd = 0) := by omega
  have hlen : (d.tmpBuf.snprintf (d.cookie ++ [newline])).2 = d.cookie.length + 1 := by
    simp [Region.snprintf]
  have hcursor : (if d.readInd ≥ d.writeInd then 0 else d.readInd) = d.cursor := rfl
  simp only [fortuneRead, if_neg hidle, hcursor, hstr, hlen, hload]
  split_ifs with hleft
  · simp [pure, Except.pure, List.take_take, Device.printed]
  · rfl

/-! ### What a write does -/

/-- The size test lets through what is at most one byte more than the room left. -/
theorem size_test (hw : d.writeInd ≤ P.size) (len : ℕ) :
    len > (P.size + 2 ^ 64 - d.writeInd + 1) % 2 ^ 64 ↔ P.size + 1 < d.writeInd + len := by
  have := P.small
  omega

theorem fortuneWrite_nospace {buf : List UInt8} (fPos : ℕ) (fault : Option (List UInt8))
    (hw : d.writeInd ≤ P.size) (h : P.size + 1 < d.writeInd + buf.length) :
    fortuneWrite d buf fPos fault = .ok (d, ⟨-ENOSPC, [], fPos⟩) := by
  simp only [fortuneWrite, if_pos ((size_test hw _).2 h), pure, Except.pure]

theorem fortuneWrite_fault {buf got : List UInt8} {fPos : ℕ}
    (hw : d.writeInd ≤ P.size) (h : d.writeInd + buf.length ≤ P.size + 1) :
    fortuneWrite d buf fPos (some got) =
      (storePot d.cookiePot d.writeInd (got.take buf.length)).map fun pot =>
        ({ d with cookiePot := pot }, ⟨-EFAULT, [], fPos⟩) := by
  have hlen := mt (size_test hw buf.length).1 (by omega)
  simp only [fortuneWrite, if_neg hlen, bind, Except.bind, pure, Except.pure]
  cases storePot d.cookiePot d.writeInd (got.take buf.length) <;> rfl

theorem fortuneWrite_copied {buf : List UInt8} {fPos : ℕ}
    (hw : d.writeInd ≤ P.size) (h : d.writeInd + buf.length ≤ P.size + 1) :
    fortuneWrite d buf fPos none =
      ((storePot d.cookiePot d.writeInd buf).bind fun pot =>
        storePot pot ((d.writeInd + buf.length : ℕ) - 1) [0]).map fun pot =>
          ({ d with cookiePot := pot, writeInd := d.writeInd + buf.length },
            ⟨buf.length, [], fPos⟩) := by
  have hlen := mt (size_test hw buf.length).1 (by omega)
  simp only [fortuneWrite, if_neg hlen, bind, Except.bind, pure, Except.pure]
  rcases storePot d.cookiePot d.writeInd buf with e | pot
  · rfl
  · dsimp only
    cases storePot pot ((d.writeInd + buf.length : ℕ) - 1) [0] <;> rfl

theorem storePot_isOk (pot : Region P.size) (i : ℤ) (bs : List UInt8) :
    (∃ pot', storePot pot i bs = .ok pot') ↔ 0 ≤ i ∧ i + bs.length ≤ P.size := by
  simp only [storePot_eq_ok, Region.store_isSome]

/-- The two stores of a write that goes through, together: its data with a NUL for the last
of them. -/
theorem storePot_nul {pot pot' : Region P.size} {w : ℕ} {buf : List UInt8} :
    ((storePot pot w buf).bind fun pot => storePot pot ((w + buf.length : ℕ) - 1) [0]) = .ok pot' ↔
      (0 < w + buf.length ∧ w + buf.length ≤ P.size) ∧
        pot'.bytes = (pot.bytes.take w ++ buf).dropLast ++ [0] ++
          pot.bytes.drop (w + buf.length) := by
  have hsize := pot.length_eq
  cases hst : storePot pot w buf with
  | error e =>
    have hfit := mt (storePot_isOk pot w buf).2 (by simp [hst])
    constructor
    · intro h
      cases h
    · rintro ⟨⟨-, hle⟩, -⟩
      omega
  | ok pot₁ =>
    obtain ⟨⟨-, hfit⟩, hb₁⟩ := Region.store_eq_some.1 (storePot_eq_ok.1 hst)
    have hlen : (pot.bytes.take w ++ buf).length = w + buf.length := by
      simp
      omega
    show storePot pot₁ _ _ = _ ↔ _
    rw [storePot_eq_ok, Region.store_eq_some, hb₁, Int.toNat_natCast, List.dropLast_eq_take, hlen]
    by_cases hpos : 0 < w + buf.length
    · have hi : ((w + buf.length : ℕ) - 1 : ℤ).toNat = w + buf.length - 1 := by omega
      have hrest : List.drop (w + buf.length) (pot.bytes.take w ++ buf ++
          pot.bytes.drop (w + buf.length)) = pot.bytes.drop (w + buf.length) := by
        nth_rewrite 1 [← hlen]
        rw [List.drop_left]
      rw [hi, List.take_append_of_le_length (by omega), List.length_singleton,
        Nat.sub_add_cancel hpos, hrest]
      refine and_congr_left fun _ => ?_
      omega
    · constructor
      · rintro ⟨⟨h0, -⟩, -⟩
        omega
      · rintro ⟨⟨h0, -⟩, -⟩
        exact absurd h0 hpos

theorem fortuneWrite_done (buf : List UInt8) (fPos : ℕ) (hpos : 0 < d.writeInd + buf.length)
    (hle : d.writeInd + buf.length ≤ P.size) :
    ∃ pot : Region P.size, pot.bytes = (d.cookiePot.bytes.take d.writeInd ++ buf).dropLast ++ [0] ++
        d.cookiePot.bytes.drop (d.writeInd + buf.length) ∧
      fortuneWrite d buf fPos none =
        .ok ({ d with cookiePot := pot, writeInd := d.writeInd + buf.length },
          ⟨buf.length, [], fPos⟩) := by
  have hlen : ((d.cookiePot.bytes.take d.writeInd ++ buf).dropLast ++ [0] ++
      d.cookiePot.bytes.drop (d.writeInd + buf.length)).length = P.size := by
    have := d.cookiePot.length_eq
    simp
    omega
  obtain ⟨pot, hb⟩ := Region.exists_bytes hlen
  refine ⟨pot, hb, ?_⟩
  rw [fortuneWrite_copied (by omega) (by omega), storePot_nul.2 ⟨⟨hpos, hle⟩, hb⟩]
  rfl

theorem fortuneWrite_cases {buf : List UInt8} {fPos : ℕ} {fault : Option (List UInt8)} {r : Reply}
    (hw : d.writeInd ≤ P.size) (h : fortuneWrite d buf fPos fault = .ok (d', r)) :
    (d' = d ∧ r = ⟨-ENOSPC, [], fPos⟩) ∨
    (∃ got pot, fault = some got ∧ storePot d.cookiePot d.writeInd (got.take buf.length) = .ok pot ∧
      d' = { d with cookiePot := pot } ∧ r = ⟨-EFAULT, [], fPos⟩) ∨
    (∃ pot, fault = none ∧ (0 < d.writeInd + buf.length ∧ d.writeInd + buf.length ≤ P.size) ∧
      pot.bytes = (d.cookiePot.bytes.take d.writeInd ++ buf).dropLast ++ [0] ++
        d.cookiePot.bytes.drop (d.writeInd + buf.length) ∧
      d' = { d with cookiePot := pot, writeInd := d.writeInd + buf.length } ∧
      r = ⟨buf.length, [], fPos⟩) := by
  by_cases hlen : P.size + 1 < d.writeInd + buf.length
  · rw [fortuneWrite_nospace fPos fault hw hlen] at h
    obtain ⟨rfl, rfl⟩ : d = d' ∧ (⟨-ENOSPC, [], fPos⟩ : Reply) = r := by simpa using h
    exact .inl ⟨rfl, rfl⟩
  · have hle : d.writeInd + buf.length ≤ P.size + 1 := by omega
    cases fault with
    | some got =>
      rw [fortuneWrite_fault hw hle] at h
      obtain ⟨pot, hst, heq⟩ := map_eq_ok.1 h
      obtain ⟨rfl, rfl⟩ := Prod.mk.inj heq
      exact .inr (.inl ⟨got, pot, rfl, hst, rfl, rfl⟩)
    | none =>
      rw [fortuneWrite_copied hw hle] at h
      obtain ⟨pot, hst, heq⟩ := map_eq_ok.1 h
      obtain ⟨rfl, rfl⟩ := Prod.mk.inj heq
      obtain ⟨hfit, hb⟩ := storePot_nul.1 hst
      exact .inr (.inr ⟨pot, rfl, hfit, hb, rfl, rfl⟩)

theorem Sane.write {buf : List UInt8} {fPos : ℕ} {fault : Option (List UInt8)} {r : Reply}
    (hd : Sane d) (h : fortuneWrite d buf fPos fault = .ok (d', r)) : Sane d' := by
  obtain ⟨rfl, -⟩ | ⟨got, pot, -, hst, rfl, -⟩ | ⟨pot, -, ⟨hpos, hle⟩, hb, rfl, -⟩ :=
    fortuneWrite_cases hd.writeInd_le h
  · exact hd
  · -- what is left behind is not before `writeInd`
    obtain ⟨-, hb⟩ := Region.store_eq_some.1 (storePot_eq_ok.1 hst)
    refine ⟨hd.writeInd_le, hd.readInd_le, ?_⟩
    intro (hpos : 0 < d.writeInd)
    show pot.bytes[d.writeInd - 1]? = some 0
    rw [hb, Int.toNat_natCast, List.append_assoc, List.getElem?_append_left,
      List.getElem?_take_of_lt (by omega)]
    · exact hd.nul hpos
    · have hsize := d.cookiePot.length_eq
      have hw := hd.writeInd_le
      simp only [List.length_take]
      omega
  · have hlen : ((d.cookiePot.bytes.take d.writeInd ++ buf).dropLast).length =
        d.writeInd + buf.length - 1 := by
      have := d.cookiePot.length_eq
      have := hd.writeInd_le
      simp
      omega
    refine ⟨hle, hd.readInd_le.trans (Nat.le_add_right _ _), ?_⟩
    intro _
    show pot.bytes[d.writeInd + buf.length - 1]? = some 0
    rw [hb, ← hlen, List.append_assoc, List.getElem?_append_right le_rfl, Nat.sub_self]
    rfl

theorem Sane.read {len fPos left : ℕ} {r : Reply} (hd : Sane d)
    (h : call d (.read len fPos left) = .ok (d', r)) : Sane d' := by
  simp only [call] at h
  by_cases hidle : fPos > 0 ∨ d.writeInd = 0
  · rw [fortuneRead_idle len left hidle] at h
    obtain ⟨rfl, -⟩ := Prod.mk.inj (Except.ok.inj h)
    exact hd
  · have hw : d.writeInd ≠ 0 := fun h0 => hidle (.inr h0)
    obtain ⟨tmpBuf, heq⟩ := hd.fortuneRead_eq len left (show fPos = 0 by omega) hw
    have hstr := hd.str hw
    rw [heq] at h
    split_ifs at h
    · obtain ⟨rfl, -⟩ := Prod.mk.inj (Except.ok.inj h)
      exact ⟨hd.writeInd_le, (cursor_lt hw).le, hd.nul⟩
    · obtain ⟨rfl, -⟩ := Prod.mk.inj (Except.ok.inj h)
      exact ⟨hd.writeInd_le, hstr.2, hd.nul⟩

theorem sane_call (d : Device P) (c : Call) (d' : Device P) (r : Reply) (hd : Sane d)
    (h : call d c = .ok (d', r)) : Sane d' := by
  cases c with
  | write buf fPos fault => exact hd.write h
  | read len fPos left => exact hd.read h

theorem Reachable.sane (h : Reachable d) : Sane d := by
  obtain ⟨cs, rs, hs⟩ := h
  exact serve_invariant sane_call sane_init hs

theorem Reachable.call {c : Call} {r : Reply} (h : Reachable d) (hc : call d c = .ok (d', r)) :
    Reachable d' := by
  obtain ⟨cs, rs, hs⟩ := h
  exact ⟨_, _, serve_snoc hs hc⟩

/-- A call comes back exactly when its stores fit. -/
theorem call_ok_iff (d : Device P) (c : Call) (hd : Sane d) :
    (∃ d' r, call d c = .ok (d', r)) ↔ Fits d c := by
  cases c with
  | read len fPos left =>
    refine ⟨fun _ => trivial, fun _ => ?_⟩
    by_cases hidle : fPos > 0 ∨ d.writeInd = 0
    · exact ⟨d, _, fortuneRead_idle len left hidle⟩
    · obtain ⟨tmpBuf, heq⟩ := hd.fortuneRead_eq len left (show fPos = 0 by omega)
        (fun h0 => hidle (.inr h0))
      exact ⟨_, _, heq⟩
  | write buf fPos fault =>
    show (∃ d' r, fortuneWrite d buf fPos fault = .ok (d', r)) ↔ _
    by_cases hlen : P.size + 1 < d.writeInd + buf.length
    · have hok := fortuneWrite_nospace fPos fault hd.writeInd_le hlen
      cases fault <;> simp [Fits, hok] <;> omega
    · have hle : d.writeInd + buf.length ≤ P.size + 1 := by omega
      cases fault with
      | some got =>
        rw [fortuneWrite_fault hd.writeInd_le hle, map_isOk, storePot_isOk, List.length_take]
        simp only [Fits]
        omega
      | none =>
        simp only [Fits]
        constructor
        · rintro ⟨d', r, hok⟩
          rw [fortuneWrite_copied hd.writeInd_le hle] at hok
          obtain ⟨pot, hst, -⟩ := map_eq_ok.1 hok
          have hfit := (storePot_nul.1 hst).1
          omega
        · rintro ⟨hroom, hpos⟩
          obtain ⟨pot, -, hok⟩ := fortuneWrite_done buf fPos hpos (by omega)
          exact ⟨_, _, hok⟩

end OsLabs.Fortune
