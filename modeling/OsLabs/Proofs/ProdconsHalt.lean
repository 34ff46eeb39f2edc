import OsLabs.Lib.Stall
import OsLabs.Proofs.Prodcons

/-! How many of the workers get through. Every worker runs once, in three steps; when none
of them can go on, the counts of those that ended follow from the counts of those that were
started, whatever the schedule was. -/

namespace OsLabs.Prodcons

open Section

theorem workers_calls : workers.Calls Worker.kind .SE .SF .SB where
  lock w := by obtain ⟨k, idx⟩ := w; cases k <;> rfl
  release w := by obtain ⟨k, idx⟩ := w; cases k <;> rfl
  se_sf := nofun
  se_sb := nofun
  sf_sb := nofun

theorem filled : Filled semInit .SE .SF .SB := ⟨rfl, rfl, by decide⟩

def started (k : Kind) (s : State) : ℕ := s.procs.countP fun p => p.role.kind = k

def ended (k : Kind) (s : State) : ℕ := countKind Worker.kind k s.releases

structure Going (s : State) : Prop where
  sound : workers.Sound semInit s
  once : ∀ k : Kind, Once (fun w : Worker => w.kind = k) s

theorem going_init : Going init where
  sound := workers.sound_init fun i => by cases i <;> decide
  once _ := rfl

theorem going_step {s s' : State} {e : Event} (h : Going s) (he : e.Undisturbed)
    (hstep : workers.step s e = some s') : Going s' where
  sound := workers.sound_step h.sound he hstep
  once k := workers.once_step rfl (h.once k) he hstep

theorem body_isSome (w : Worker) (m : Shared) : (workers.body w m).isSome := by
  obtain ⟨k, idx⟩ := w
  cases k <;> rfl

section
variable {s : State} (hin : ∀ p ∈ s.procs, p.phase.inside = false)
include hin

theorem ended_eq (hs : ∀ k : Kind, Settled (fun w : Worker => w.kind = k) s) (k : Kind) :
    ended k s = countKind Worker.kind k s.bodies := by
  have hzero : unreleased (fun w : Worker => w.kind = k) s.procs = 0 := by
    apply List.countP_eq_zero.2
    rintro ⟨r, ph⟩ hp
    have := hin _ hp
    cases ph with
    | outside => simp
    | entered => simp
    | gone => simp
    | finished => simp at this
    | goneInside => simp at this
  have hset := hs k
  unfold Settled at hset
  unfold ended countKind
  omega

/-- With nobody inside, a worker that did not end is at its lock call, waiting for its token. -/
theorem started_eq (h : Going s) (k : Kind) :
    countKind Worker.kind k s.bodies ≤ started k s ∧
      (countKind Worker.kind k s.bodies < started k s →
        ∃ (i : ℕ) (w : Worker), s.procs[i]? = some ⟨w, .outside⟩ ∧ w.kind = k) := by
  have honce : started k s = countKind Worker.kind k s.bodies +
      s.procs.countP fun p => decide (p.role.kind = k) && p.phase.ahead := h.once k
  refine ⟨by omega, ?_⟩
  intro hlt
  have hpos : 0 < s.procs.countP fun p => decide (p.role.kind = k) && p.phase.ahead := by omega
  obtain ⟨⟨w, ph⟩, hp, hw⟩ := List.countP_pos_iff.1 hpos
  obtain ⟨i, hi⟩ := List.mem_iff_getElem?.1 hp
  simp only [Bool.and_eq_true, decide_eq_true_eq] at hw
  have hinside := hin _ hp
  refine ⟨i, w, ?_, hw.1⟩
  cases ph with
  | outside => exact hi
  | entered => simp at hinside
  | finished => simp at hw
  | gone => simp at hw
  | goneInside => simp at hinside

end

/-- Without failed calls, the workers take three steps each at the most, and when none of
them can take another, all have ended but the producers beyond the 29 tokens and the
consumers that have no producer. -/
theorem ended_of_halted {tr : List (State × Event)} {s : State}
    (h : Run workers.step init tr s) (hok : EachStep (fun _ e => e.Undisturbed) tr) :
    tr.countP (fun p => p.2.isRun) ≤ 3 * s.procs.length ∧
    (workers.Halted s →
      ended .producer s = min (started .producer s) (started .consumer s + BUFFER_SIZE) ∧
      ended .consumer s = min (started .consumer s) (started .producer s)) := by
  have hgo : Going s :=
    (h.always_of_eachStep going_init (fun _ _ _ hg he hs => going_step hg he hs) hok).2
  refine ⟨workers.runs_le rfl h hok, ?_⟩
  intro hstuck
  have hin := hgo.sound.nobody_inside workers_calls filled hstuck fun p _ _ => body_isSome p.role _
  have htok := hgo.sound.quiet_tokens workers_calls filled hin
  have hsettled : ∀ k : Kind, Settled (fun w : Worker => w.kind = k) s := fun k =>
    workers.settled_run _ h
  obtain ⟨hple, hpwait⟩ := started_eq hin hgo .producer
  obtain ⟨hcle, hcwait⟩ := started_eq hin hgo .consumer
  have hfull : countKind Worker.kind .producer s.bodies < started .producer s →
      s.sem .SE = 0 := by
    intro hlt
    obtain ⟨i, w, hi, hw⟩ := hpwait hlt
    have := (hgo.sound.blocked_iff workers_calls filled hin hi).1 (hstuck i)
    rwa [token_producer hw] at this
  have hempty : countKind Worker.kind .consumer s.bodies < started .consumer s →
      s.sem .SF = 0 := by
    intro hlt
    obtain ⟨i, w, hi, hw⟩ := hcwait hlt
    have := (hgo.sound.blocked_iff workers_calls filled hin hi).1 (hstuck i)
    rwa [token_consumer hw] at this
  rw [ended_eq hin hsettled, ended_eq hin hsettled]
  have hsize : BUFFER_SIZE = 29 := rfl
  simp only [semInit] at htok
  omega

/-- A consumer that finds nothing, and a producer that comes and goes. -/
def lateConsumer : List Event :=
  [.spawn ⟨.producer, 0⟩, .run 0, .run 0, .run 0, .spawn ⟨.consumer, 1⟩, .run 1, .run 1, .run 1,
    .spawn ⟨.consumer, 2⟩]

theorem ended_of_halted_lateConsumer :
    let tr := trace workers.step init lateConsumer
    let s := (exec workers.step init lateConsumer).get (by decide)
    tr.countP (fun p => p.2.isRun) ≤ 3 * s.procs.length ∧
    (workers.Halted s →
      ended .producer s = min (started .producer s) (started .consumer s + BUFFER_SIZE) ∧
      ended .consumer s = min (started .consumer s) (started .producer s)) := by
  apply ended_of_halted (run_of_isSome init lateConsumer (by decide))
  apply eachStep_trace
  simp [lateConsumer, Event.Undisturbed]

end OsLabs.Prodcons
