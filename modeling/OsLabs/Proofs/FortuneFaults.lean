import OsLabs.Proofs.FortuneBounds

/-! What later calls can tell of one that failed. A write that fails leaves its bytes behind
`writeInd`, where the next write overwrites them; a read that fails has put the cursor back
to the first byte when it stood at the end. -/

namespace OsLabs.Fortune

variable {P : Page} {d t d' : Device P}

/-- What has been written so far. -/
def Device.text (d : Device P) : List UInt8 := d.cookiePot.bytes.take d.writeInd

theorem Sane.length_text (h : Sane d) : d.text.length = d.writeInd := by
  have hsize := d.cookiePot.length_eq
  have hw := h.writeInd_le
  rw [Device.text, List.length_take]
  omega

theorem takeWhile_nul {l : List UInt8} (h : 0 ∈ l) (l' : List UInt8) :
    (l ++ l').takeWhile (· ≠ 0) = l.takeWhile (· ≠ 0) := by
  rw [List.takeWhile_append, if_neg]
  intro hall
  have hself := List.takeWhile_eq_self_iff.1 ((List.takeWhile_prefix _).eq_of_length hall) 0 h
  simp at hself

theorem Sane.cookie_eq (h : Sane d) (hw : d.writeInd ≠ 0) :
    d.cookie = (d.text.drop d.cursor).takeWhile (· ≠ 0) := by
  have hlt := cursor_lt hw
  have hlen := h.length_text
  have hsplit : d.cookiePot.bytes = d.text ++ d.cookiePot.bytes.drop d.writeInd :=
    (List.take_append_drop _ _).symm
  have hnul : (0 : UInt8) ∈ d.text.drop d.cursor := by
    apply List.mem_of_getElem? (i := d.writeInd - 1 - d.cursor)
    rw [List.getElem?_drop, show d.cursor + (d.writeInd - 1 - d.cursor) = d.writeInd - 1 by omega,
      Device.text, List.getElem?_take_of_lt (by omega)]
    exact h.nul (by omega)
  rw [Device.cookie, hsplit, List.drop_append_of_le_length (by omega), takeWhile_nul hnul]

/-! ### Writes on two devices -/

theorem storePot_error (pot : Region P.size) (i : ℤ) (bs : List UInt8)
    (h : ¬ (0 ≤ i ∧ i + bs.length ≤ P.size)) : storePot pot i bs = .error (.cookiePot i) := by
  unfold storePot Region.store
  rw [dif_neg h]

theorem Sane.fortuneWrite_error (h : Sane d) {buf : List UInt8} {fPos : ℕ}
    {fault : Option (List UInt8)} (hf : ¬ Fits d (.write buf fPos fault)) :
    fortuneWrite d buf fPos fault =
      .error (.cookiePot (if d.writeInd + buf.length = 0 then -1 else d.writeInd)) := by
  have hw := h.writeInd_le
  cases fault with
  | some got =>
    simp only [Fits, not_not] at hf
    have hst := storePot_error d.cookiePot d.writeInd (got.take buf.length)
      (by rw [List.length_take]; omega)
    rw [fortuneWrite_fault hw (by omega), hst, if_neg (by have := P.pos; omega)]
    rfl
  | none =>
    simp only [Fits] at hf
    by_cases h0 : d.writeInd + buf.length = 0
    · obtain ⟨pot, hst⟩ := (storePot_isOk d.cookiePot d.writeInd buf).2 (by omega)
      have hnul := storePot_error pot ((0 : ℕ) - 1) [0] (by omega)
      rw [fortuneWrite_copied hw (by omega), if_pos h0, hst, h0]
      simp only [Except.bind, hnul, Except.map]
      rfl
    · have hst := storePot_error d.cookiePot d.writeInd buf (by omega)
      rw [fortuneWrite_copied hw (by omega), if_neg h0, hst]
      rfl

theorem text_left {pot : Region P.size} {bs : List UInt8} (hd : Sane d)
    (hst : storePot d.cookiePot d.writeInd bs = .ok pot) :
    ({ d with cookiePot := pot } : Device P).text = d.text := by
  obtain ⟨-, hb⟩ := Region.store_eq_some.1 (storePot_eq_ok.1 hst)
  have hlen := hd.length_text
  show pot.bytes.take d.writeInd = _
  rw [hb, Int.toNat_natCast, List.append_assoc, ← Device.text, ← hlen, List.take_left]

theorem text_done {pot : Region P.size} {buf : List UInt8} (hd : Sane d)
    (hpos : 0 < d.writeInd + buf.length)
    (hb : pot.bytes = (d.cookiePot.bytes.take d.writeInd ++ buf).dropLast ++ [0] ++
      d.cookiePot.bytes.drop (d.writeInd + buf.length)) :
    ({ d with cookiePot := pot, writeInd := d.writeInd + buf.length } : Device P).text =
      (d.text ++ buf).dropLast ++ [0] := by
  have hlen : ((d.text ++ buf).dropLast ++ [0]).length = d.writeInd + buf.length := by
    simp [hd.length_text]
    omega
  show pot.bytes.take (d.writeInd + buf.length) = _
  rw [hb, ← Device.text, ← hlen, List.take_left]

/-- Where the stores of a write fit, it does the same to both texts. -/
theorem write_pair (hd : Sane d) (ht : Sane t) (hw : d.writeInd = t.writeInd) {buf : List UInt8}
    {fPos : ℕ} {fault : Option (List UInt8)} (hf : Fits d (.write buf fPos fault)) :
    ∃ d' t' r, fortuneWrite d buf fPos fault = .ok (d', r) ∧
      fortuneWrite t buf fPos fault = .ok (t', r) ∧ d'.writeInd = t'.writeInd ∧
      d'.readInd = d.readInd ∧ t'.readInd = t.readInd ∧
      (d'.writeInd = d.writeInd ∧ d'.text = d.text ∧ t'.text = t.text ∨
        d'.writeInd = d.writeInd + buf.length ∧ d'.text = (d.text ++ buf).dropLast ++ [0] ∧
          t'.text = (t.text ++ buf).dropLast ++ [0]) := by
  have hdle := hd.writeInd_le
  have htle := ht.writeInd_le
  by_cases hlen : P.size + 1 < d.writeInd + buf.length
  · exact ⟨d, t, _, fortuneWrite_nospace fPos fault hdle hlen,
      fortuneWrite_nospace fPos fault htle (hw ▸ hlen), hw, rfl,
      rfl, .inl ⟨rfl, rfl, rfl⟩⟩
  · have hle : d.writeInd + buf.length ≤ P.size + 1 := by omega
    cases fault with
    | some got =>
      have hroom : (0 : ℤ) ≤ d.writeInd ∧
          (d.writeInd : ℤ) + (got.take buf.length).length ≤ P.size := by
        simp only [Fits] at hf
        rw [List.length_take]
        omega
      obtain ⟨pot, hst⟩ := (storePot_isOk d.cookiePot _ _).2 hroom
      obtain ⟨pot', hst'⟩ := (storePot_isOk t.cookiePot _ _).2 hroom
      refine ⟨{ d with cookiePot := pot }, { t with cookiePot := pot' }, ⟨-EFAULT, [], fPos⟩,
        ?_, ?_, hw, rfl, rfl, .inl ⟨rfl, text_left hd hst, text_left ht (hw ▸ hst')⟩⟩
      · rw [fortuneWrite_fault hdle hle, hst]
        rfl
      · rw [fortuneWrite_fault htle (hw ▸ hle), ← hw, hst']
        rfl
    | none =>
      obtain ⟨hroom, hpos⟩ :
        d.writeInd + buf.length ≠ P.size + 1 ∧ 0 < d.writeInd + buf.length := hf
      obtain ⟨pot, hb, hok⟩ := fortuneWrite_done buf fPos hpos (by omega)
      obtain ⟨pot', hb', hok'⟩ := fortuneWrite_done (d := t) buf fPos (by omega) (by omega)
      exact ⟨_, _, _, hok, hok', congrArg (· + buf.length) hw, rfl, rfl,
        .inr ⟨rfl, text_done hd hpos hb, text_done ht (by omega) hb'⟩⟩

theorem read_pair (hd : Sane d) (ht : Sane t) (hw : d.writeInd = t.writeInd)
    (hc : d.writeInd ≠ 0 → d.cookie = t.cookie) (len fPos left : ℕ) :
    ∃ d' t' r, fortuneRead d len fPos left = .ok (d', r) ∧
      fortuneRead t len fPos left = .ok (t', r) ∧
      (d'.writeInd = d.writeInd ∧ d'.text = d.text) ∧
      (t'.writeInd = t.writeInd ∧ t'.text = t.text) ∧
      (d'.readInd = d.readInd ∧ t'.readInd = t.readInd ∨
        ∃ k, d'.readInd = d.cursor + k ∧ t'.readInd = t.cursor + k) := by
  by_cases hidle : fPos > 0 ∨ d.writeInd = 0
  · exact ⟨d, t, _, fortuneRead_idle len left hidle, fortuneRead_idle len left (hw ▸ hidle),
      ⟨rfl, rfl⟩, ⟨rfl, rfl⟩, .inl ⟨rfl, rfl⟩⟩
  · have hf : fPos = 0 := by omega
    have hdw : d.writeInd ≠ 0 := fun h0 => hidle (.inr h0)
    have hprinted : d.printed = t.printed := by rw [Device.printed, Device.printed, hc hdw]
    obtain ⟨tmpBuf, hok⟩ := hd.fortuneRead_eq len left hf hdw
    obtain ⟨tmpBuf', hok'⟩ := ht.fortuneRead_eq len left hf (hw ▸ hdw)
    rw [hok, hok', ← hc hdw, ← hprinted]
    by_cases hleft : left = 0
    · simp only [hleft, ne_eq, not_true_eq_false, if_false]
      exact ⟨_, _, _, rfl, rfl, ⟨rfl, rfl⟩, ⟨rfl, rfl⟩, .inr ⟨_, rfl, rfl⟩⟩
    · simp only [hleft, ne_eq, not_false_eq_true, if_true]
      exact ⟨_, _, _, rfl, rfl, ⟨rfl, rfl⟩, ⟨rfl, rfl⟩, .inr ⟨0, rfl, rfl⟩⟩

/-- What a call does to two devices that have as much text and the same string next: they
answer alike, or fail alike; their cursors stay or move on by the same amount; their texts
stay or get the same addition. -/
theorem call_pair (hd : Sane d) (ht : Sane t) (hw : d.writeInd = t.writeInd)
    (hc : d.writeInd ≠ 0 → d.cookie = t.cookie) (c : Call) :
    (∃ e, call d c = .error e ∧ call t c = .error e) ∨
    ∃ d' t' r, call d c = .ok (d', r) ∧ call t c = .ok (t', r) ∧ d'.writeInd = t'.writeInd ∧
      (d'.readInd = d.readInd ∧ t'.readInd = t.readInd ∨
        ∃ k, d'.readInd = d.cursor + k ∧ t'.readInd = t.cursor + k) ∧
      (d'.writeInd = d.writeInd ∧ d'.text = d.text ∧ t'.text = t.text ∨
        ∃ buf : List UInt8, d'.writeInd = d.writeInd + buf.length ∧
          d'.text = (d.text ++ buf).dropLast ++ [0] ∧
          t'.text = (t.text ++ buf).dropLast ++ [0]) := by
  cases c with
  | write buf fPos fault =>
    by_cases hf : Fits d (.write buf fPos fault)
    · obtain ⟨d', t', r, hok, hok', hw', hr, hr', htext⟩ := write_pair hd ht hw hf
      exact .inr ⟨d', t', r, hok, hok', hw', .inl ⟨hr, hr'⟩, htext.imp_right fun h => ⟨buf, h⟩⟩
    · have hf' : ¬ Fits t (.write buf fPos fault) := by
        cases fault <;> simpa only [Fits, hw] using hf
      refine .inl ⟨_, hd.fortuneWrite_error hf, ?_⟩
      rw [hw]
      exact ht.fortuneWrite_error hf'
  | read len fPos left =>
    obtain ⟨d', t', r, hok, hok', ⟨hw', htext⟩, ⟨hw'', htext'⟩, hr⟩ :=
      read_pair hd ht hw hc len fPos left
    exact .inr ⟨d', t', r, hok, hok', hw'.trans (hw.trans hw''.symm), hr,
      .inl ⟨hw', htext, htext'⟩⟩

/-! ### Devices that cannot be told apart -/

/-- The same text, read from the same place. -/
structure Agree (d t : Device P) : Prop where
  fst : Sane d
  snd : Sane t
  writeInd : d.writeInd = t.writeInd
  readInd : d.readInd = t.readInd
  text : d.text = t.text

/-- Nothing but NULs, read from anywhere, and room for one more at most. -/
structure Blank (d t : Device P) : Prop where
  fst : Sane d
  snd : Sane t
  writeInd : d.writeInd = t.writeInd
  full : P.size ≤ d.writeInd + 1
  text : ∀ b ∈ d.text, b = 0
  text' : ∀ b ∈ t.text, b = 0

theorem Agree.cursor (h : Agree d t) : d.cursor = t.cursor := by
  rw [Device.cursor, Device.cursor, h.readInd, h.writeInd]

theorem agree_step (d t : Device P) (c : Call) (h : Agree d t) :
    (∃ e, call d c = .error e ∧ call t c = .error e) ∨
      ∃ d' t' r, call d c = .ok (d', r) ∧ call t c = .ok (t', r) ∧ Agree d' t' := by
  have hc : d.writeInd ≠ 0 → d.cookie = t.cookie := by
    intro hw
    rw [h.fst.cookie_eq hw, h.snd.cookie_eq (h.writeInd ▸ hw), h.text, h.cursor]
  refine (call_pair h.fst h.snd h.writeInd hc c).imp_right ?_
  rintro ⟨d', t', r, hok, hok', hw, hread, htext⟩
  refine ⟨d', t', r, hok, hok', sane_call _ _ _ _ h.fst hok, sane_call _ _ _ _ h.snd hok', hw,
    ?_, ?_⟩
  · obtain ⟨hr, hr'⟩ | ⟨k, hr, hr'⟩ := hread
    · rw [hr, hr', h.readInd]
    · rw [hr, hr', h.cursor]
  · obtain ⟨-, ht, ht'⟩ | ⟨buf, -, ht, ht'⟩ := htext
    · rw [ht, ht', h.text]
    · rw [ht, ht', h.text]

theorem Sane.cookie_blank (h : Sane d) (hw : d.writeInd ≠ 0) (h0 : ∀ b ∈ d.text, b = 0) :
    d.cookie = [] := by
  rw [h.cookie_eq hw, List.takeWhile_eq_nil_iff]
  intro hpos
  simp [h0 _ (List.mem_of_mem_drop (List.getElem_mem hpos))]

theorem blank_add {text buf : List UInt8} (h0 : ∀ b ∈ text, b = 0) (hone : buf.length ≤ 1) :
    ∀ b ∈ (text ++ buf).dropLast ++ [0], b = 0 := by
  intro b hb
  rcases List.mem_append.1 hb with hb | hb
  · match buf, hone with
    | [], _ =>
      rw [List.append_nil] at hb
      exact h0 b ((List.dropLast_sublist _).subset hb)
    | [x], _ =>
      rw [List.dropLast_concat] at hb
      exact h0 b hb
  · exact List.mem_singleton.1 hb

theorem blank_step (d t : Device P) (c : Call) (h : Blank d t) :
    (∃ e, call d c = .error e ∧ call t c = .error e) ∨
      ∃ d' t' r, call d c = .ok (d', r) ∧ call t c = .ok (t', r) ∧ Blank d' t' := by
  have hc : d.writeInd ≠ 0 → d.cookie = t.cookie := by
    intro hw
    rw [h.fst.cookie_blank hw h.text, h.snd.cookie_blank (h.writeInd ▸ hw) h.text']
  refine (call_pair h.fst h.snd h.writeInd hc c).imp_right ?_
  rintro ⟨d', t', r, hok, hok', hw, -, htext⟩
  have hd' := sane_call _ _ _ _ h.fst hok
  have ht' := sane_call _ _ _ _ h.snd hok'
  have hfull := h.full
  obtain ⟨hlen, ht, ht''⟩ | ⟨buf, hlen, ht, ht''⟩ := htext
  · exact ⟨d', t', r, hok, hok', hd', ht', hw, by omega, ht ▸ h.text, ht'' ▸ h.text'⟩
  · have hone : buf.length ≤ 1 := by
      have := hd'.writeInd_le
      omega
    refine ⟨d', t', r, hok, hok', hd', ht', hw, by omega, ?_, ?_⟩
    · rw [ht]
      exact blank_add h.text hone
    · rw [ht'']
      exact blank_add h.text' hone

/-! ### Devices that can -/

theorem Sane.read_next (h : Sane d) (hw : d.writeInd ≠ 0) :
    ∃ d', call d (.read 0 0 0) = .ok (d', ⟨(d.cookie.length + 1 : ℕ),
        d.printed.take (d.cookie.length + 1), 0 + (d.cookie.length + 1)⟩) ∧ Sane d' ∧
      d'.writeInd = d.writeInd ∧ d'.text = d.text ∧
      d'.readInd = d.cursor + (d.cookie.length + 1) := by
  obtain ⟨tmpBuf, hok⟩ := h.fortuneRead_eq 0 0 rfl hw
  exact ⟨_, hok, sane_call d (.read 0 0 0) _ _ h hok, rfl, rfl, rfl⟩

theorem Sane.cookie_eq_nil (h : Sane d) (hw : d.writeInd ≠ 0) :
    d.cookie = [] ↔ d.text[d.cursor]? = some 0 := by
  have hlt := cursor_lt hw
  have hlen := h.length_text
  rw [h.cookie_eq hw, List.takeWhile_eq_nil_iff]
  have hget : d.text[d.cursor]? = some d.text[d.cursor] := List.getElem?_eq_getElem (by omega)
  rw [hget, Option.some.injEq]
  constructor
  · intro hall
    simpa using hall (by rw [List.length_drop]; omega)
  · intro h0 hpos
    simpa using h0

/-- The same text is read, by `d` one step behind `t`: `d` stands at a NUL, and the next
place it comes to is where `t` stands. -/
structure Behind (d t : Device P) : Prop where
  fst : Sane d
  snd : Sane t
  writeInd : d.writeInd = t.writeInd
  text : d.text = t.text
  nul : d.text[d.cursor]? = some 0
  next : (if d.cursor + 1 ≥ d.writeInd then 0 else d.cursor + 1) = t.cursor

theorem Behind.writeInd_ne (h : Behind d t) : d.writeInd ≠ 0 := by
  have hlt := (List.getElem?_eq_some_iff.1 h.nul).1
  rw [h.fst.length_text] at hlt
  omega

/-- A byte under the cursor of `t` that is not NUL shows at once. -/
theorem Behind.seen_now (h : Behind d t) (hz : t.text[t.cursor]? ≠ some 0) :
    replies call t [.read 0 0 0] ≠ replies call d [.read 0 0 0] := by
  have hdw := h.writeInd_ne
  have htw : t.writeInd ≠ 0 := h.writeInd ▸ hdw
  have hd0 := (h.fst.cookie_eq_nil hdw).2 h.nul
  have ht0 := mt (h.snd.cookie_eq_nil htw).1 hz
  obtain ⟨d', hd, -⟩ := h.fst.read_next hdw
  obtain ⟨t', ht, -⟩ := h.snd.read_next htw
  refine replies_ne ht hd ?_
  intro heq
  have hlen := List.length_pos_iff.2 ht0
  have hret : ((t.cookie.length + 1 : ℕ) : ℤ) = (d.cookie.length + 1 : ℕ) := congrArg Reply.ret heq
  rw [hd0] at hret
  simp only [List.length_nil] at hret
  omega

theorem Behind.read (h : Behind d t) (hz : t.text[t.cursor]? = some 0) :
    ∃ d' t' r, call d (.read 0 0 0) = .ok (d', r) ∧ call t (.read 0 0 0) = .ok (t', r) ∧
      Behind d' t' ∧ t'.text = t.text ∧ t'.writeInd = t.writeInd ∧ t'.readInd = t.cursor + 1 := by
  have hdw := h.writeInd_ne
  have htw : t.writeInd ≠ 0 := h.writeInd ▸ hdw
  have hd0 := (h.fst.cookie_eq_nil hdw).2 h.nul
  have ht0 := (h.snd.cookie_eq_nil htw).2 hz
  have hprinted : t.printed = d.printed := by rw [Device.printed, Device.printed, hd0, ht0]
  obtain ⟨d', hd, hds, hdw', hdtext, hdr⟩ := h.fst.read_next hdw
  obtain ⟨t', ht, hts, htw', httext, htr⟩ := h.snd.read_next htw
  rw [hd0] at hd hdr
  rw [ht0, hprinted] at ht
  rw [ht0] at htr
  have hdc : d'.cursor = t.cursor := by
    rw [Device.cursor, hdr, hdw']
    exact h.next
  refine ⟨d', t', _, hd, ht, ⟨hds, hts, ?_, ?_, ?_, ?_⟩, httext, htw', htr⟩
  · rw [hdw', htw', h.writeInd]
  · rw [hdtext, httext, h.text]
  · rw [hdc, hdtext, h.text]
    exact hz
  · have htc : t'.cursor = if t'.readInd ≥ t'.writeInd then 0 else t'.readInd := rfl
    rw [hdc, hdw', h.writeInd, htc, htr, htw']
    rfl

/-- Read on, `t` comes to a byte that is not NUL while `d` is still at a NUL. -/
theorem Behind.seen {n : ℕ} {b : UInt8} (h : Behind d t) (hb : b ≠ 0)
    (hn : t.text[t.cursor + n]? = some b) : ∃ cs, replies call t cs ≠ replies call d cs := by
  induction n generalizing d t with
  | zero =>
    refine ⟨_, h.seen_now ?_⟩
    rw [← Nat.add_zero t.cursor, hn, ne_eq, Option.some.injEq]
    exact hb
  | succ n ih =>
    by_cases hz : t.text[t.cursor]? = some 0
    · obtain ⟨d', t', r, hd, ht, h', htext, hw, hr⟩ := h.read hz
      have hlt := (List.getElem?_eq_some_iff.1 hn).1
      rw [h.snd.length_text] at hlt
      have hcursor : t'.cursor = t.cursor + 1 := by
        rw [Device.cursor, hr, hw, if_neg (by omega)]
      have hn' : t'.text[t'.cursor + n]? = some b := by
        rw [htext, hcursor, ← hn]
        congr 1
        omega
      obtain ⟨cs, hcs⟩ := ih h' hn'
      exact ⟨_, replies_ne_cons ht hd hcs⟩
    · exact ⟨_, h.seen_now hz⟩

/-- A read that fails puts the cursor back where another one would still find it at the end. -/
structure PutBack (d t : Device P) : Prop where
  fst : Sane d
  snd : Sane t
  writeInd : d.writeInd = t.writeInd
  text : d.text = t.text
  pos : 0 < d.writeInd
  readInd : d.readInd = d.writeInd
  readInd' : t.readInd = 0

/-- After a write that fits, the one reads what it has written, the other the first string. -/
theorem PutBack.write (h : PutBack d t) (buf : List UInt8) (hpos : 0 < buf.length)
    (hfit : d.writeInd + buf.length ≤ P.size) :
    ∃ d' t' r, call d (.write buf 0 none) = .ok (d', r) ∧ call t (.write buf 0 none) = .ok (t', r) ∧
      Sane d' ∧ Sane t' ∧ d'.writeInd = d.writeInd + buf.length ∧ d'.writeInd = t'.writeInd ∧
      d'.text = d.text ++ (buf.dropLast ++ [0]) ∧ d'.text = t'.text ∧
      d'.cursor = d.writeInd ∧ t'.cursor = 0 := by
  have hne : buf ≠ [] := List.length_pos_iff.1 hpos
  have hw := h.writeInd
  have hwpos := h.pos
  obtain ⟨pot, hb, hd⟩ := fortuneWrite_done (d := d) buf 0 (by omega) hfit
  obtain ⟨pot', hb', ht⟩ := fortuneWrite_done (d := t) buf 0 (by omega) (by omega)
  have htext := text_done h.fst (by omega) hb
  have htext' := text_done h.snd (by omega) hb'
  have happ : (d.text ++ buf).dropLast ++ [0] = d.text ++ (buf.dropLast ++ [0]) := by
    rw [List.dropLast_append_of_ne_nil hne, List.append_assoc]
  refine ⟨_, _, _, hd, ht, sane_call d (.write buf 0 none) _ _ h.fst hd,
    sane_call t (.write buf 0 none) _ _ h.snd ht, rfl, congrArg (· + buf.length) hw,
    htext.trans happ, ?_, ?_, ?_⟩
  · rw [htext, htext', h.text]
  · show (if d.readInd ≥ d.writeInd + buf.length then 0 else d.readInd) = _
    rw [h.readInd, if_neg (by omega)]
  · show (if t.readInd ≥ t.writeInd + buf.length then 0 else t.readInd) = _
    rw [h.readInd', if_neg (by omega)]

theorem printed_take (h : d.cookie.length + 1 < P.size) :
    d.printed.take (d.cookie.length + 1) = d.cookie ++ [newline] := by
  have hlen : (d.cookie ++ [newline]).length = d.cookie.length + 1 := by simp
  rw [Device.printed, List.take_of_length_le (i := P.size - 1) (by omega), ← hlen, List.take_left]

/-- With room for two bytes, a new string that is not the first one shows. -/
theorem PutBack.seen_of_room (h : PutBack d t) (hroom : d.writeInd + 2 ≤ P.size) :
    ∃ cs, replies call t cs ≠ replies call d cs := by
  -- the letter of the new string
  obtain ⟨b, hb, hnew⟩ : ∃ b : UInt8, b ≠ 0 ∧ t.text.takeWhile (· ≠ 0) ≠ [b] := by
    by_cases h1 : t.text.takeWhile (· ≠ 0) = [1]
    · exact ⟨2, by decide, by rw [h1]; decide⟩
    · exact ⟨1, by decide, h1⟩
  have hw := h.writeInd
  have hpos := h.pos
  obtain ⟨d', t', r, hd, ht, hds, hts, hdw, hdtw, hdtext, htext, hdc, htc⟩ :=
    h.write [b, 0] (by simp) hroom
  have hnul : (0 : UInt8) ∈ t.text := by
    apply List.mem_of_getElem? (i := t.writeInd - 1)
    rw [Device.text, List.getElem?_take_of_lt (by omega)]
    exact h.snd.nul (by omega)
  have hlen := h.fst.length_text
  have hdcookie : d'.cookie = [b] := by
    rw [hds.cookie_eq (by omega), hdtext, hdc, ← hlen, List.drop_left]
    simp [hb]
  have htcookie : t'.cookie = t.text.takeWhile (· ≠ 0) := by
    rw [hts.cookie_eq (by omega), htc, List.drop_zero, ← htext, hdtext, h.text, takeWhile_nul hnul]
  obtain ⟨d'', hdr, -⟩ := hds.read_next (by omega)
  obtain ⟨t'', htr, -⟩ := hts.read_next (by omega)
  refine ⟨_, replies_ne_cons ht hd (replies_ne htr hdr ?_)⟩
  intro heq
  have hret : ((t'.cookie.length + 1 : ℕ) : ℤ) = (d'.cookie.length + 1 : ℕ) :=
    congrArg Reply.ret heq
  have huser : t'.printed.take (t'.cookie.length + 1) = d'.printed.take (d'.cookie.length + 1) :=
    congrArg Reply.toUser heq
  have hsame : t'.cookie.length = d'.cookie.length := by omega
  have hone : d'.cookie.length = 1 := by rw [hdcookie]; rfl
  rw [printed_take (by omega), printed_take (by omega), List.append_cancel_right_eq, htcookie,
    hdcookie] at huser
  exact hnew huser

/-- With room for one byte and a byte that is not NUL, reading on shows it. -/
theorem PutBack.seen_of_byte (h : PutBack d t) (hroom : d.writeInd + 1 ≤ P.size) {b : UInt8}
    (hb : b ≠ 0) (hmem : b ∈ d.text) : ∃ cs, replies call t cs ≠ replies call d cs := by
  have hpos := h.pos
  have hlen := h.fst.length_text
  obtain ⟨d', t', r, hd, ht, hds, hts, hdw, hdtw, hdtext, htext, hdc, htc⟩ :=
    h.write [0] (by simp) hroom
  obtain ⟨n, hn⟩ := List.mem_iff_getElem?.1 hmem
  have hlt := (List.getElem?_eq_some_iff.1 hn).1
  have hbehind : Behind d' t' := by
    refine ⟨hds, hts, hdtw, htext, ?_, ?_⟩
    · rw [hdc, hdtext, ← hlen, List.getElem?_append_right le_rfl, Nat.sub_self]
      rfl
    · rw [hdc, hdw, htc]
      exact if_pos le_rfl
  have hn' : t'.text[t'.cursor + n]? = some b := by
    rw [htc, Nat.zero_add, ← htext, hdtext, List.getElem?_append_left hlt, hn]
  obtain ⟨cs, hcs⟩ := hbehind.seen hb hn'
  exact ⟨_, replies_ne_cons ht hd hcs⟩

/-! ### The failed calls -/

theorem Agree.unnoticed (h : Agree d' d) : Unnoticed d d' :=
  replies_congr agree_step h

/-- A write that fails leaves its bytes where no call looks before they are overwritten. -/
theorem Sane.write_unnoticed (hd : Sane d) {buf : List UInt8} {fPos : ℕ}
    {fault : Option (List UInt8)} {r : Reply} (hc : fortuneWrite d buf fPos fault = .ok (d', r))
    (hf : r.ret = -ENOSPC ∨ r.ret = -EFAULT) : Unnoticed d d' := by
  have hd' := hd.write hc
  obtain ⟨rfl, -⟩ | ⟨got, pot, -, hst, rfl, -⟩ | ⟨pot, -, -, -, -, rfl⟩ :=
    fortuneWrite_cases hd.writeInd_le hc
  · exact fun _ => rfl
  · exact Agree.unnoticed ⟨hd', hd, rfl, rfl, text_left hd hst⟩
  · have hret : (buf.length : ℤ) = -ENOSPC ∨ (buf.length : ℤ) = -EFAULT := hf
    simp only [ENOSPC, EFAULT] at hret
    omega

/-- All that a read that fails changes is `tmpBuf` and the cursor. -/
theorem Sane.read_failed (hd : Sane d) {len fPos left : ℕ} {r : Reply}
    (hc : call d (.read len fPos left) = .ok (d', r)) (hf : r.ret = -ENOSPC ∨ r.ret = -EFAULT) :
    0 < d.writeInd ∧ ∃ tmpBuf, d' = { d with tmpBuf, readInd := d.cursor } := by
  simp only [ENOSPC, EFAULT] at hf
  simp only [call] at hc
  by_cases hidle : fPos > 0 ∨ d.writeInd = 0
  · rw [fortuneRead_idle len left hidle] at hc
    obtain ⟨-, rfl⟩ := Prod.mk.inj (Except.ok.inj hc)
    simp at hf
  · obtain ⟨tmpBuf, hok⟩ := hd.fortuneRead_eq len left (show fPos = 0 by omega)
      (fun h0 => hidle (.inr h0))
    rw [hok] at hc
    split_ifs at hc
    · obtain ⟨rfl, -⟩ := Prod.mk.inj (Except.ok.inj hc)
      exact ⟨by omega, tmpBuf, rfl⟩
    · obtain ⟨-, rfl⟩ := Prod.mk.inj (Except.ok.inj hc)
      simp only at hf
      omega

/-- A read that fails at the end of the text is noticed, unless the text is all NULs and
leaves room for one byte. -/
theorem Sane.putBack_unnoticed_iff (hd : Sane d) (hpos : 0 < d.writeInd)
    (hroom : d.writeInd < P.size) (hend : d.readInd = d.writeInd) {tmpBuf : Region P.size} :
    Unnoticed d { d with tmpBuf, readInd := 0 } ↔
      d.writeInd + 1 = P.size ∧ ∀ b ∈ d.text, b = 0 := by
  have hd' : Sane ({ d with tmpBuf, readInd := 0 } : Device P) :=
    ⟨hd.writeInd_le, Nat.zero_le _, hd.nul⟩
  have hput : PutBack d { d with tmpBuf, readInd := 0 } := ⟨hd, hd', rfl, rfl, hpos, hend, rfl⟩
  constructor
  · intro hun
    constructor
    · by_contra hne
      obtain ⟨cs, hcs⟩ := hput.seen_of_room (by omega)
      exact hcs (hun cs)
    · intro b hb
      by_contra hne
      obtain ⟨cs, hcs⟩ := hput.seen_of_byte (by omega) hne hb
      exact hcs (hun cs)
  · rintro ⟨hfull, h0⟩
    have hblank : Blank ({ d with tmpBuf, readInd := 0 } : Device P) d :=
      ⟨hd', hd, rfl, by show P.size ≤ d.writeInd + 1; omega, h0, h0⟩
    exact replies_congr blank_step hblank

/-- When exactly a failed call cannot be noticed. -/
theorem unnoticed_iff_leavesCursor (h : Reachable d) (hroom : d.writeInd < P.size) {c : Call}
    {r : Reply} (hc : call d c = .ok (d', r)) (hf : r.ret = -ENOSPC ∨ r.ret = -EFAULT) :
    Unnoticed d d' ↔ LeavesCursor d c := by
  have hd := h.sane
  cases c with
  | write buf fPos fault => exact ⟨fun _ => trivial, fun _ => hd.write_unnoticed hc hf⟩
  | read len fPos left =>
    obtain ⟨hpos, tmpBuf, rfl⟩ := hd.read_failed hc hf
    by_cases hend : d.readInd < d.writeInd
    · have hcursor : d.cursor = d.readInd := if_neg (by omega)
      refine ⟨fun _ => .inl hend, fun _ => ?_⟩
      rw [hcursor]
      exact Agree.unnoticed ⟨⟨hd.writeInd_le, hd.readInd_le, hd.nul⟩, hd, rfl, rfl, rfl⟩
    · have hend' : d.readInd = d.writeInd := by
        have := hd.readInd_le
        omega
      have hcursor : d.cursor = 0 := if_pos (by omega)
      rw [hcursor, hd.putBack_unnoticed_iff hpos hroom hend']
      exact ⟨.inr, fun hl => hl.resolve_left hend⟩

/-- After `echo 12345` and `cat` a read fails: what is written next would have been read
next. -/
theorem failed_read_noticed : ∃ (d d' : Device fourKiB) (r : Reply), Reachable d ∧
    d.writeInd < fourKiB.size ∧ call d (.read 6 0 6) = .ok (d', r) ∧ r.ret = -EFAULT ∧
      ¬ Unnoticed d d' := by
  obtain ⟨d₀, hd₀, hw, hcookie⟩ := echo_reachable
  have hstr := (hd₀.sane.str (by omega)).2
  obtain ⟨d, hread, hd, hdw, -, hdr⟩ := hd₀.sane.read_next (by omega)
  rw [hcookie, hw] at hstr
  rw [hcookie] at hdr
  simp only [List.length_cons, List.length_nil] at hstr hdr
  have hend : d.readInd = d.writeInd := by omega
  have hcursor : d.cursor = 0 := if_pos (by omega)
  have hsize : d.writeInd + 1 < fourKiB.size := by
    rw [hdw, hw]
    decide
  obtain ⟨tmpBuf, hok⟩ := hd.fortuneRead_eq 6 6 rfl (by omega)
  refine ⟨d, _, _, hd₀.call hread, by omega, hok, rfl, ?_⟩
  rw [hcursor]
  show ¬ Unnoticed d { d with tmpBuf, readInd := 0 }
  rw [hd.putBack_unnoticed_iff (by omega) (by omega) hend]
  omega

theorem unnoticed_iff_leavesCursor_echo : ∃ (d d' : Device fourKiB) (r : Reply), Reachable d ∧
    call d (.read 6 0 6) = .ok (d', r) ∧ (Unnoticed d d' ↔ LeavesCursor d (.read 6 0 6)) := by
  obtain ⟨d, hd, hw, hcookie⟩ := echo_reachable
  obtain ⟨tmpBuf, hok⟩ := hd.sane.fortuneRead_eq 6 6 rfl (by omega)
  exact ⟨d, _, _, hd, hok, unnoticed_iff_leavesCursor hd (by rw [hw]; decide) hok (.inr rfl)⟩

end OsLabs.Fortune
