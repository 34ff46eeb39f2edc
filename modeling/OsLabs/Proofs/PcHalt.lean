import OsLabs.Lib.Stall
import OsLabs.Proofs.Pc

/-! When `pc.c` comes to a halt. With a producer and a consumer it never does; consumers by
themselves wait for the first letter, producers by themselves fill the 26 places. -/

namespace OsLabs.Pc

open Section

theorem pc_calls : pc.Calls id .SE .SF .SB where
  lock r := by cases r <;> rfl
  release r := by cases r <;> rfl
  se_sf := nofun
  se_sb := nofun
  sf_sb := nofun

theorem filled : Filled semInit .SE .SF .SB := ⟨rfl, rfl, by decide⟩

/-- The processes are all still there, and what they did is on record. -/
structure Going (s : State) : Prop where
  sound : pc.Sound semInit s
  running : AllRunning s
  authored : Authored s

theorem going_init : Going init where
  sound := pc.sound_init fun i => by cases i <;> decide
  running _ hp := absurd hp List.not_mem_nil
  authored _ hr := absurd hr List.not_mem_nil

theorem going_step {s s' : State} {e : Event} (h : Going s) (he : e.Undisturbed)
    (hstep : pc.step s e = some s') : Going s' where
  sound := pc.sound_step h.sound he hstep
  running := pc.allRunning_step rfl h.running he hstep
  authored := pc.authored_step h.authored hstep

theorem InSegment.body_isSome {s : State} (h : InSegment s) :
    ∀ p ∈ s.procs, p.phase = .entered → (pc.body p.role s.data).isSome := by
  intro p hp hph
  have hlt := (h p hp hph).2
  obtain ⟨r, ph⟩ := p
  cases r with
  | producer =>
    simp only [cursor] at hlt
    simp [pc, producer, hlt]
  | consumer =>
    simp only [cursor] at hlt
    simp [pc, consumer, hlt]

/-- Where only one kind of process runs, only its bodies are in the log. -/
theorem Going.countKind_eq_zero {s : State} (h : Going s) {k : Kind}
    (hk : ∀ p ∈ s.procs, p.role ≠ k) : countKind id k s.bodies = 0 := by
  apply List.countP_eq_zero.2
  intro r hr
  obtain ⟨p, hp, rfl⟩ := h.authored r hr
  simpa using hk p hp

theorem Going.inside_or_outside {s : State} (h : Going s)
    (hin : ∀ p ∈ s.procs, p.phase.inside = false) : ∀ p ∈ s.procs, p.phase = .outside := by
  intro p hp
  have hrun := h.running p hp
  have hi := hin p hp
  obtain ⟨r, ph⟩ := p
  cases ph with
  | outside => rfl
  | entered => simp at hi
  | finished => simp at hi
  | gone => simp at hrun
  | goneInside => simp at hrun

/-- Without signals and failures, and inside of the segment, the program stands still in
two cases only: there are no producers yet, or there are no consumers yet and the 26
places are full. -/
theorem halted_iff {tr : List (State × Event)} {s : State} (h : Run pc.step init tr s)
    (hok : EachStep (fun _ e => e.Undisturbed) tr) (hseg : InSegment s) :
    pc.Halted s ↔ (∀ p ∈ s.procs, p.phase = .outside) ∧
      ((∀ p ∈ s.procs, p.role = .consumer) ∨
        (∀ p ∈ s.procs, p.role = .producer) ∧ s.data.produced.length = 26) := by
  have hgo : Going s :=
    (h.always_of_eachStep going_init (fun _ _ _ hg he hs => going_step hg he hs) hok).2
  have hinv : Inv s := h.invariant inv_init fun _ _ _ => inv_step
  have hlen : s.data.produced.length = countKind id .producer s.bodies := by
    simp [hinv.seg.produced]
  refine ⟨?_, ?_⟩
  · intro hstuck
    have hin := hgo.sound.nobody_inside pc_calls filled hstuck hseg.body_isSome
    have hout := hgo.inside_or_outside hin
    have htok := hgo.sound.quiet_tokens pc_calls filled hin
    simp only [semInit] at htok
    have hblocked : ∀ p ∈ s.procs, s.sem (token id .SE .SF p.role) = 0 := by
      intro p hp
      obtain ⟨k, hk⟩ := List.mem_iff_getElem?.1 hp
      obtain ⟨r, ph⟩ := p
      obtain rfl : ph = .outside := hout _ hp
      exact (hgo.sound.blocked_iff pc_calls filled hin hk).1 (hstuck k)
    refine ⟨hout, ?_⟩
    by_cases hp : ∃ p ∈ s.procs, p.role = .producer
    · right
      obtain ⟨p, hp, hrole⟩ := hp
      have hse := hblocked p hp
      rw [hrole, token_producer rfl] at hse
      -- a consumer would be short of a token too, and there are 26 of them
      have hnone : ∀ p ∈ s.procs, p.role ≠ .consumer := by
        intro q hq hqrole
        have hsf := hblocked q hq
        rw [hqrole, token_consumer rfl] at hsf
        omega
      have hzero := hgo.countKind_eq_zero hnone
      refine ⟨?_, by omega⟩
      intro q hq
      cases hr : q.role with
      | producer => rfl
      | consumer => exact absurd hr (hnone q hq)
    · left
      intro q hq
      cases hr : q.role with
      | consumer => rfl
      | producer => exact absurd ⟨q, hq, hr⟩ hp
  · intro hcase
    obtain ⟨hout, hkind⟩ := hcase
    have hin : ∀ p ∈ s.procs, p.phase.inside = false := by
      intro p hp
      rw [hout p hp]
      rfl
    have htok := hgo.sound.quiet_tokens pc_calls filled hin
    simp only [semInit] at htok
    intro k
    cases hk : s.procs[k]? with
    | none => simp [step, hk]
    | some p =>
      have hp := List.mem_of_getElem? hk
      obtain ⟨r, ph⟩ := p
      obtain rfl : ph = .outside := hout _ hp
      apply (hgo.sound.blocked_iff pc_calls filled hin hk).2
      rcases hkind with hcons | ⟨hprod, hfull⟩
      · obtain rfl : r = .consumer := hcons _ hp
        have hzero := hgo.countKind_eq_zero (k := .producer) fun p hp => by simp [hcons p hp]
        rw [token_consumer rfl]
        omega
      · obtain rfl : r = .producer := hprod _ hp
        have hzero := hgo.countKind_eq_zero (k := .consumer) fun p hp => by simp [hprod p hp]
        rw [token_producer rfl]
        omega

def twoConsumers : List Event := [.spawn .consumer, .spawn .consumer]

theorem halted_iff_twoConsumers :
    let s := (exec pc.step init twoConsumers).get (by decide)
    pc.Halted s ↔ (∀ p ∈ s.procs, p.phase = .outside) ∧
      ((∀ p ∈ s.procs, p.role = .consumer) ∨
        (∀ p ∈ s.procs, p.role = .producer) ∧ s.data.produced.length = 26) := by
  apply halted_iff (run_of_isSome init twoConsumers (by decide))
  · apply eachStep_trace
    simp [twoConsumers, Event.Undisturbed]
  · unfold InSegment
    decide

end OsLabs.Pc
