import OsLabs.Lib.Section

/-! The semaphore protocol of a bounded buffer: producers and consumers that
bracket their body with one token of `se` (free places) or `sf` (filled places)
and the binary semaphore `sb`. Which items the bodies move is left open. -/

namespace OsLabs

inductive Kind
  | producer
  | consumer
  deriving DecidableEq

namespace Section

variable {ι ρ δ : Type} [DecidableEq ι]

/-- A producer takes from `se` and gives to `sf`, a consumer the other way
round, and both hold `sb` in between. -/
structure Buffers (S : Section ι ρ δ) (kind : ρ → Kind) (se sf sb : ι) : Prop where
  lock_se : ∀ r, net (S.lock r) se = if kind r = .producer then -1 else 0
  lock_sf : ∀ r, net (S.lock r) sf = if kind r = .consumer then -1 else 0
  lock_sb : ∀ r, net (S.lock r) sb = -1
  release_se : ∀ r, net (S.release r) se = if kind r = .consumer then 1 else 0
  release_sf : ∀ r, net (S.release r) sf = if kind r = .producer then 1 else 0
  release_sb : ∀ r, net (S.release r) sb = 1

variable {S : Section ι ρ δ} {kind : ρ → Kind} {se sf sb : ι} {sem₀ : ι → ℕ} {s : State ι ρ δ}

def countKind (kind : ρ → Kind) (k : Kind) (log : List ρ) : ℕ := log.countP fun r => kind r = k

omit [DecidableEq ι] in
theorem countKind_append (kind : ρ → Kind) (k : Kind) (log : List ρ) (r : ρ) :
    countKind kind k (log ++ [r]) = countKind kind k log + if kind r = k then 1 else 0 := by
  simp [countKind, List.countP_append]

theorem Buffers.moved_sf (hb : S.Buffers kind se sf sb) (bodies : List ρ) :
    S.moved bodies sf = countKind kind .producer bodies - countKind kind .consumer bodies := by
  induction bodies with
  | nil => rfl
  | cons r rs ih =>
    simp only [moved, countKind, List.map_cons, List.sum_cons, List.countP_cons] at ih ⊢
    rw [ih, hb.lock_sf, hb.release_sf]
    cases kind r <;> simp <;> ring

theorem Buffers.moved_se (hb : S.Buffers kind se sf sb) (bodies : List ρ) :
    S.moved bodies se = countKind kind .consumer bodies - countKind kind .producer bodies := by
  induction bodies with
  | nil => rfl
  | cons r rs ih =>
    simp only [moved, countKind, List.map_cons, List.sum_cons, List.countP_cons] at ih ⊢
    rw [ih, hb.lock_se, hb.release_se]
    cases kind r <;> simp <;> ring

theorem Buffers.hold_sf_nonneg (hb : S.Buffers kind se sf sb) (p : Proc ρ) : 0 ≤ S.hold p sf := by
  obtain ⟨r, ph⟩ := p
  cases ph <;> cases hr : kind r <;> simp [hold, hb.lock_sf, hb.release_sf, hr]

theorem Buffers.hold_se_nonneg (hb : S.Buffers kind se sf sb) (p : Proc ρ) : 0 ≤ S.hold p se := by
  obtain ⟨r, ph⟩ := p
  cases ph <;> cases hr : kind r <;> simp [hold, hb.lock_se, hb.release_se, hr]

theorem Buffers.exclusive (hb : S.Buffers kind se sf sb) (hl : S.Ledger sem₀ s)
    (h1 : sem₀ sb = 1) : insideCount (fun _ => true) s.procs ≤ 1 :=
  hl.exclusive h1 (fun r => hb.lock_sb r) (fun r => hb.release_sb r)

/-- Productions never run further ahead than the places `se` started with. -/
theorem Buffers.producers_le (hb : S.Buffers kind se sf sb) (hl : S.Ledger sem₀ s) :
    countKind kind .producer s.bodies ≤ countKind kind .consumer s.bodies + sem₀ se := by
  have h := hl se
  have hn := held_nonneg hb.hold_se_nonneg s.procs
  simp only [hb.moved_se] at h
  omega

/-- Consumptions never run ahead of the productions. -/
theorem Buffers.consumers_le (hb : S.Buffers kind se sf sb) (hl : S.Ledger sem₀ s)
    (h0 : sem₀ sf = 0) :
    countKind kind .consumer s.bodies ≤ countKind kind .producer s.bodies := by
  have h := hl sf
  have hn := held_nonneg hb.hold_sf_nonneg s.procs
  simp only [hb.moved_sf, h0] at h
  omega

theorem Buffers.consumer_entered (hb : S.Buffers kind se sf sb) (hl : S.Ledger sem₀ s)
    (h0 : sem₀ sf = 0) {k : ℕ} {r : ρ} (hk : s.procs[k]? = some ⟨r, .entered⟩)
    (hr : kind r = .consumer) :
    countKind kind .consumer s.bodies < countKind kind .producer s.bodies := by
  have h := hl sf
  have hle := hold_le_held hb.hold_sf_nonneg hk
  simp only [hold_entered, hb.lock_sf, hr, if_true] at hle
  simp only [hb.moved_sf, h0] at h
  omega

/-- What is held of `sf` is at least the productions still to be released, and of
`se` the consumptions. -/
theorem Buffers.unreleased_le_sf (hb : S.Buffers kind se sf sb) (ps : List (Proc ρ)) :
    (unreleased (fun r => kind r = .producer) ps : ℤ) ≤ held S.hold ps sf := by
  refine countP_le_held ?_ ps
  rintro ⟨r, ph⟩
  cases ph <;> cases hr : kind r <;> simp [hold, hb.lock_sf, hb.release_sf, hr]

theorem Buffers.unreleased_le_se (hb : S.Buffers kind se sf sb) (ps : List (Proc ρ)) :
    (unreleased (fun r => kind r = .consumer) ps : ℤ) ≤ held S.hold ps se := by
  refine countP_le_held ?_ ps
  rintro ⟨r, ph⟩
  cases ph <;> cases hr : kind r <;> simp [hold, hb.lock_se, hb.release_se, hr]

/-- The completed productions less the completed consumptions lie between none
and the places `se` started with. -/
theorem Buffers.releases_bounds (hb : S.Buffers kind se sf sb) (hl : S.Ledger sem₀ s)
    (h0 : sem₀ sf = 0) (hset : ∀ k, Settled (fun r => kind r = k) s) :
    countKind kind .consumer s.releases ≤ countKind kind .producer s.releases ∧
      countKind kind .producer s.releases ≤ countKind kind .consumer s.releases + sem₀ se := by
  have hsf := hl sf
  have hse := hl se
  have hp := hset .producer
  have hc := hset .consumer
  have hup := hb.unreleased_le_sf s.procs
  have huc := hb.unreleased_le_se s.procs
  simp only [hb.moved_sf, hb.moved_se, h0] at hsf hse
  unfold Settled at hp hc
  unfold countKind at hsf hse ⊢
  omega

end Section

end OsLabs
