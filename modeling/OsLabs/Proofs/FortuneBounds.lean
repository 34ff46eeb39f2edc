import OsLabs.Proofs.Fortune
import OsLabs.Sanity.Fortune

/-! The bounds of the two copies: when the stores of `fortuneWrite` stay in the pot, and
when `fortuneRead` keeps to the buffer it is given. -/

namespace OsLabs.Fortune

variable {P : Page} {d : Device P}

/-- The pot has no byte in front and none behind: the calls stay in it exactly when no write
is one byte longer than the room left and none of length 0 meets the empty pot. -/
theorem staysInPot_iff (cs : List Call) :
    StaysInPot P cs ↔ EachRequest call Fits (mdInit P) cs := by
  have hok := serve_ok_iff (C := Fits) sane_call call_ok_iff (sane_init (P := P))
  constructor
  · intro h
    obtain ⟨d, rs, hs, -⟩ := h cs List.prefix_rfl
    exact (hok cs).1 ⟨d, rs, hs⟩
  · rintro h before ⟨after, rfl⟩
    obtain ⟨d, rs, hs⟩ := (hok before).2 (eachRequest_left h)
    exact ⟨d, rs, hs, (serve_invariant sane_call sane_init hs).writeInd_le⟩

/-- 4097 bytes pass the size test of the empty pot. -/
theorem staysInPot_fails : ¬ StaysInPot fourKiB [.write (List.replicate 4097 120) 0 none] := by
  intro h
  obtain ⟨d, rs, hs, -⟩ := h _ List.prefix_rfl
  obtain ⟨d', r, -, hcall, -⟩ := serve_cons_ok.1 hs
  have hfit := (call_ok_iff _ _ sane_init).1 ⟨d', r, hcall⟩
  apply hfit.1
  rw [List.length_replicate]
  rfl

theorem Sane.length_printed (h : Sane d) (hw : d.writeInd ≠ 0) {k : ℕ}
    (hk : k ≤ d.cookie.length + 1) : (d.printed.take k).length = k := by
  have hstr := (h.str hw).2
  have hsize := h.writeInd_le
  have hpos := P.pos
  simp only [Device.printed, List.length_take, List.length_append, List.length_singleton]
  omega

/-- `len` is not looked at, so a read keeps to it exactly when it copies nothing, or when the
string at the cursor with its newline is no longer than `len`, not counting what
`copy_to_user` fails to copy. -/
theorem respectsBuffer_iff (h : Reachable d) (len fPos left : ℕ) :
    RespectsBuffer d len fPos left ↔
      fPos > 0 ∨ d.writeInd = 0 ∨ d.cookie.length + 1 ≤ len + left := by
  have hd := h.sane
  by_cases hidle : fPos > 0 ∨ d.writeInd = 0
  · have hread := fortuneRead_idle (d := d) len left hidle
    constructor
    · rintro -
      exact hidle.imp_right .inl
    · rintro -
      exact ⟨d, _, hread, Nat.zero_le _, Int.natCast_nonneg _, List.nil_prefix⟩
  · have hw : d.writeInd ≠ 0 := fun h0 => hidle (.inr h0)
    have hf : fPos = 0 := by omega
    obtain ⟨tmpBuf, hread⟩ := hd.fortuneRead_eq len left hf hw
    have hlen : ∀ {k}, k ≤ d.cookie.length + 1 → (d.printed.take k).length = k :=
      hd.length_printed hw
    have hiff : (fPos > 0 ∨ d.writeInd = 0 ∨ d.cookie.length + 1 ≤ len + left) ↔
        d.cookie.length + 1 ≤ len + left := by omega
    rw [hiff, RespectsBuffer, hread]
    split_ifs with hleft
    · constructor
      · rintro ⟨d', r, hr, hcopied, -⟩
        obtain ⟨-, rfl⟩ := Prod.mk.inj (Except.ok.inj hr)
        rw [hlen (by omega)] at hcopied
        omega
      · intro hle
        refine ⟨_, _, rfl, ?_, ?_, List.take_prefix _ _⟩
        · rw [hlen (by omega)]
          omega
        · show -EFAULT ≤ (len : ℤ)
          simp only [EFAULT]
          omega
    · obtain rfl : left = 0 := by omega
      constructor
      · rintro ⟨d', r, hr, hcopied, -⟩
        obtain ⟨-, rfl⟩ := Prod.mk.inj (Except.ok.inj hr)
        rw [hlen le_rfl] at hcopied
        omega
      · intro hle
        refine ⟨_, _, rfl, ?_, ?_, List.take_prefix _ _⟩
        · rw [hlen le_rfl]
          omega
        · exact Int.ofNat_le.2 hle

theorem echo_reachable : ∃ d : Device fourKiB, Reachable d ∧ d.writeInd = 6 ∧
    d.cookie = [49, 50, 51, 52, 53] := by
  obtain ⟨pot, hb, hcall⟩ := fortuneWrite_done (d := mdInit fourKiB)
    [49, 50, 51, 52, 53, 10] 0 (by decide) (by decide)
  have hserve : serve call (mdInit fourKiB) [.write [49, 50, 51, 52, 53, 10] 0 none] =
      .ok (_, [_]) := serve_cons_ok.2 ⟨_, _, [], hcall, rfl, rfl⟩
  refine ⟨_, ⟨_, _, hserve⟩, rfl, ?_⟩
  simp [Device.cookie, Device.cursor, hb, mdInit]

theorem respectsBuffer_fails :
    ∃ d : Device fourKiB, Reachable d ∧ ¬ RespectsBuffer d 1 0 0 := by
  obtain ⟨d, hd, hw, hcookie⟩ := echo_reachable
  refine ⟨d, hd, ?_⟩
  rintro ⟨d', r, hread, -, hret, -⟩
  obtain ⟨tmpBuf, heq⟩ := hd.sane.fortuneRead_eq 1 0 rfl (by simp [hw])
  rw [heq, hcookie] at hread
  obtain ⟨-, rfl⟩ := Prod.mk.inj (Except.ok.inj hread)
  have hle : (6 : ℤ) ≤ 1 := hret
  omega

theorem respectsBuffer_iff_echo : ∃ d : Device fourKiB, Reachable d ∧
    (RespectsBuffer d 6 0 0 ↔ (0 > 0 ∨ d.writeInd = 0 ∨ d.cookie.length + 1 ≤ 6 + 0)) := by
  obtain ⟨d, hd, -⟩ := echo_reachable
  exact ⟨d, hd, respectsBuffer_iff hd 6 0 0⟩

end OsLabs.Fortune
