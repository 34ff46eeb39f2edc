import OsLabs.Proofs.Wr

/-! `wr.c` does not get stuck while it has a writer: whoever is inside can go on, a
writer before a reader, and with nobody inside a writer can get in. -/

namespace OsLabs.Wr

open Section

variable {s : State}

theorem waitingReaders_eq (h : wr.Ledger semInit s) : s.sem .WAITING_READERS = 0 := by
  have := h.sem_eq (i := .WAITING_READERS) (f := fun _ => false) (c := 0)
    (fun r => by cases r <;> decide) (fun r => by cases r <;> decide)
  simp only [semInit] at this
  omega

theorem waitingWriters_eq (h : wr.Ledger semInit s) : s.sem .WAITING_WRITERS = 0 := by
  have := h.sem_eq (i := .WAITING_WRITERS) (f := fun _ => false) (c := 0)
    (fun r => by cases r <;> decide) (fun r => by cases r <;> decide)
  simp only [semInit] at this
  omega

theorem startWrite_completes {sem : Sem → ℕ} (hw : sem .ACTIVE_WRITER = 0)
    (hr : sem .ACTIVE_READERS = 0) (hb : sem .BIN_WRITER = 1) (h0 : sem .WAITING_WRITERS = 0) :
    Completes sem startWrite := by
  simp [startWrite, writerLock, P, V, SEMVMX, hw, hr, hb, h0]

theorem stopWrite_completes {sem : Sem → ℕ} (hw : sem .ACTIVE_WRITER = 1)
    (hb : sem .BIN_WRITER = 0) : Completes sem stopWrite := by
  simp [stopWrite, writerRelease, P, V, SEMVMX, hw, hb]

theorem stopRead_completes {sem : Sem → ℕ} (hw : sem .ACTIVE_WRITER = 0)
    (hr : 0 < sem .ACTIVE_READERS) (hmax : sem .ACTIVE_READERS ≤ SEMVMX) :
    Completes sem stopRead := by
  simp [stopRead, readerRelease, P, hw]
  omega

/-- What carries the progress: the books, and processes that are all still there. -/
structure Live (s : State) : Prop where
  ledger : wr.Ledger semInit s
  running : AllRunning s
  sem_le : ∀ i, s.sem i ≤ SEMVMX

theorem live_init : Live init where
  ledger := wr.ledger_init _ _
  running _ hp := absurd hp List.not_mem_nil
  sem_le i := by cases i <;> decide

theorem live_step {s s' : State} {e : Event} (h : Live s) (he : e.Undisturbed)
    (hstep : wr.step s e = some s') : Live s' where
  ledger := wr.ledger_step h.ledger hstep
  running := wr.allRunning_step rfl h.running he hstep
  sem_le := wr.sem_le_step h.sem_le hstep

theorem body_isSome (r : Role) (m : Shm) : (wr.body r m).isSome := by
  cases r <;> rfl

theorem Live.writer_outside (h : Live s) (hw : active .writer s = 0) {p : Proc Role}
    (hp : p ∈ s.procs) (hr : p.role = .writer) : p.phase = .outside := by
  obtain ⟨r, ph⟩ := p
  obtain rfl : r = .writer := hr
  have hnot := List.countP_eq_zero.1 hw _ hp
  have hrun := h.running _ hp
  cases ph with
  | outside => rfl
  | entered => simp at hnot
  | finished => simp at hnot
  | gone => simp at hrun
  | goneInside => simp at hrun

theorem Live.exists_enabled (h : Live s) (hwriter : ∃ p ∈ s.procs, p.role = .writer) :
    ∃ k, (wr.step s (.run k)).isSome := by
  have haw := activeWriter_eq h.ledger
  have har := activeReaders_eq h.ledger
  have hbin := binWriter_add h.ledger
  rcases Nat.eq_zero_or_pos (active .writer s) with hw | hw
  · rcases Nat.eq_zero_or_pos (active .reader s) with hr | hr
    · obtain ⟨p, hp, hrole⟩ := hwriter
      obtain ⟨k, hk⟩ := List.mem_iff_getElem?.1 hp
      have hphase := h.writer_outside hw hp hrole
      obtain ⟨r, ph⟩ := p
      obtain rfl : r = .writer := hrole
      obtain rfl : ph = .outside := hphase
      refine ⟨k, wr.enabled_outside hk ?_⟩
      exact startWrite_completes (by omega) (by omega) (by omega) (waitingWriters_eq h.ledger)
    · apply wr.exists_enabled h.running hr (body_isSome · _)
      intro r hrole
      obtain rfl : r = .reader := by simpa using hrole
      exact stopRead_completes (by omega) (by omega) (h.sem_le _)
  · apply wr.exists_enabled h.running hw (body_isSome · _)
    intro r hrole
    obtain rfl : r = .writer := by simpa using hrole
    exact stopWrite_completes (by omega) (by omega)

/-- Signals and failures aside, a system with a writer has a process that can go on, and
the semaphores count the processes inside and show nobody waiting. -/
theorem no_deadlock {tr : List (State × Event)} (h : Run wr.step init tr s)
    (hok : EachStep (fun _ e => e.Undisturbed) tr) :
    ((∃ p ∈ s.procs, p.role = .writer) → ∃ k, (wr.step s (.run k)).isSome) ∧
    s.sem .ACTIVE_WRITER + s.sem .BIN_WRITER = 1 ∧
    s.sem .ACTIVE_WRITER = active .writer s ∧ s.sem .ACTIVE_READERS = active .reader s ∧
    s.sem .WAITING_READERS = 0 ∧ s.sem .WAITING_WRITERS = 0 := by
  have hlive : Live s :=
    (h.always_of_eachStep live_init (fun _ _ _ hl he hs => live_step hl he hs) hok).2
  have haw := activeWriter_eq hlive.ledger
  have hbin := binWriter_add hlive.ledger
  refine ⟨hlive.exists_enabled, ?_, haw, activeReaders_eq hlive.ledger,
    waitingReaders_eq hlive.ledger, waitingWriters_eq hlive.ledger⟩
  omega

theorem no_deadlock_readerAfterWriter :
    let tr := trace wr.step init readerAfterWriter
    let s := (exec wr.step init readerAfterWriter).get (by decide)
    EachStep (fun _ e => e.Undisturbed) tr ∧
    ((∃ p ∈ s.procs, p.role = .writer) → ∃ k, (wr.step s (.run k)).isSome) ∧
    s.sem .ACTIVE_WRITER + s.sem .BIN_WRITER = 1 ∧
    s.sem .ACTIVE_WRITER = active .writer s ∧ s.sem .ACTIVE_READERS = active .reader s ∧
    s.sem .WAITING_READERS = 0 ∧ s.sem .WAITING_WRITERS = 0 := by
  have hok : EachStep (fun _ (e : Event) => e.Undisturbed)
      (trace wr.step init readerAfterWriter) := by
    apply eachStep_trace
    simp [readerAfterWriter, Event.Undisturbed]
  exact ⟨hok, no_deadlock (run_of_isSome init readerAfterWriter (by decide)) hok⟩

end OsLabs.Wr
