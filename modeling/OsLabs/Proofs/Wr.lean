import OsLabs.Spec.Wr

/-! Mutual exclusion in `wr.c`. `ACTIVE_READERS` and `ACTIVE_WRITER` count the
processes inside and `BIN_WRITER` is free exactly when no writer is. A reader's
start list waits for `BIN_WRITER` to be zero, that is for a writer to be inside,
so every reader that gets in breaks the exclusion, and nothing else does. -/

namespace OsLabs.Wr

open Section

variable {s : State}

theorem activeWriter_eq (h : wr.Ledger semInit s) : s.sem .ACTIVE_WRITER = active .writer s := by
  have := h.sem_eq (i := .ACTIVE_WRITER) (f := (· == .writer)) (c := -1)
    (fun r => by cases r <;> decide) (fun r => by cases r <;> decide)
  simp only [semInit] at this
  unfold active
  omega

theorem activeReaders_eq (h : wr.Ledger semInit s) : s.sem .ACTIVE_READERS = active .reader s := by
  have := h.sem_eq (i := .ACTIVE_READERS) (f := (· == .reader)) (c := -1)
    (fun r => by cases r <;> decide) (fun r => by cases r <;> decide)
  simp only [semInit] at this
  unfold active
  omega

theorem binWriter_add (h : wr.Ledger semInit s) : s.sem .BIN_WRITER + active .writer s = 1 := by
  have := h.sem_eq (i := .BIN_WRITER) (f := (· == .writer)) (c := 1)
    (fun r => by cases r <;> decide) (fun r => by cases r <;> decide)
  simp only [semInit] at this
  unfold active
  omega

theorem startRead_done {sem sem' : Sem → ℕ} (h : semop sem startRead = .done sem') :
    sem .BIN_WRITER = 0 := by
  simp only [startRead, readerLock, V, List.take_succ_cons, List.take_zero, semop_cons_done] at h
  simpa using h.2.2.1

/-- A reader that gets in finds a writer inside. -/
theorem not_exclusive_of_startsRead {s' : State} {e : Event} (hl : wr.Ledger semInit s)
    (hr : StartsRead s e) (h : wr.step s e = some s') : ¬ Exclusive s' := by
  obtain ⟨k, rfl, hk⟩ := hr
  simp only [Section.step, hk, Option.bind_eq_bind, Option.bind_some] at h
  obtain ⟨sem, hsem, h⟩ := Option.bind_eq_some_iff.1 h
  have hb := startRead_done (Semop.result_eq_some.1 hsem)
  have hw := binWriter_add hl
  have hc (r : Role) := insideCount_set (f := (· == r)) hk .entered
  have hcr := hc .reader
  have hcw := hc .writer
  simp at hcr hcw
  obtain rfl : { s.goto k .reader .entered with sem := sem } = s' := by simpa using h
  intro hx
  have h0 := hx.2
  simp only [active, State.goto_procs, hcr, hcw] at h0 hw
  omega

/-- Mutual exclusion holds in every state of a run exactly when no `start_read`
of the run goes through. -/
theorem exclusive_iff_no_startRead {tr : List (State × Event)} {s : State}
    (h : Run wr.step init tr s) :
    Always Exclusive tr s ↔ EachStep (fun s e => ¬ StartsRead s e) tr := by
  refine h.always_iff (I := fun s => wr.Ledger semInit s ∧ active .reader s = 0)
    ⟨wr.ledger_init _ _, rfl⟩ ?_ ?_ ?_
  · intro s hI
    obtain ⟨hl, h0⟩ := hI
    have := binWriter_add hl
    exact ⟨by omega, fun _ => h0⟩
  · intro s e s' hI hc he
    obtain ⟨hl, h0⟩ := hI
    refine ⟨wr.ledger_step hl he, ?_⟩
    rcases wr.insideCount_step (· == .reader) he with hle | ⟨k, r, sem, rfl, hk, hf, -⟩
    · exact Nat.le_zero.1 (hle.trans h0.le)
    · obtain rfl : r = .reader := by simpa using hf
      exact absurd ⟨k, rfl, hk⟩ hc
  · intro s e s' hI hc he
    exact not_exclusive_of_startsRead hI.1 (not_not.1 hc) he

def readerAfterWriter : List Event := [.spawn .reader, .spawn .writer, .run 1, .run 0]

theorem mutual_exclusion_fails :
    ¬ ∀ tr s, Run wr.step init tr s → Exclusive s := by
  intro h
  exact absurd (h _ _ (run_of_isSome init readerAfterWriter (by decide))) (by decide)

theorem exclusive_iff_no_startRead_readerAfterWriter :
    Always Exclusive (trace wr.step init readerAfterWriter)
        ((exec wr.step init readerAfterWriter).get (by decide)) ↔
      EachStep (fun s e => ¬ StartsRead s e) (trace wr.step init readerAfterWriter) :=
  exclusive_iff_no_startRead (run_of_isSome init readerAfterWriter (by decide))

end OsLabs.Wr
