import OsLabs.Proofs.Wr

/-! How the readers of `wr.c` overlap with its writers: a reader goes in next to a writer
and does not come out before that writer has. -/

namespace OsLabs.Wr

open Section

variable {s s' t t' u : State} {e : Event} {k : ℕ}

theorem stopRead_done {sem sem' : Sem → ℕ} (h : semop sem stopRead = .done sem') :
    sem .ACTIVE_WRITER = 0 := by
  simp only [stopRead, readerRelease, List.take_succ_cons, List.take_zero, semop_cons_done] at h
  simpa using h.1

def released (s : State) : ℕ := s.releases.countP (· == .writer)

theorem released_add_active_step (hs : wr.step s e = some s') :
    released s + active .writer s ≤ released s' + active .writer s' := by
  unfold released active
  obtain ⟨r, -, rfl⟩ | ⟨k, r, sem, -, hk, -, rfl⟩ | ⟨k, r, data, -, hk, -, rfl⟩ |
    ⟨k, r, sem, -, hk, -, rfl⟩ | ⟨k, r, -, hk, rfl⟩ | ⟨k, r, -, hk, rfl⟩ := wr.step_cases hs
  · simp [insideCount]
  · have hc := insideCount_set (f := (· == Role.writer)) hk .entered
    simp only [Phase.inside_outside, Phase.inside_entered, Bool.and_false, Bool.and_true,
      Bool.false_eq_true, if_false] at hc
    simp only [State.goto_releases, State.goto_procs]
    omega
  · have hc := insideCount_set (f := (· == Role.writer)) hk .finished
    simp only [Phase.inside_entered, Phase.inside_finished, Bool.and_true] at hc
    simp only [State.goto_releases, State.goto_procs]
    omega
  · have hc := insideCount_set (f := (· == Role.writer)) hk wr.next
    have hn : wr.next.inside = false := rfl
    simp only [hn, Phase.inside_finished, Bool.and_true, Bool.and_false, Bool.false_eq_true,
      if_false, add_zero] at hc
    simp only [State.goto_procs, List.countP_append, List.countP_singleton]
    omega
  · have hc := insideCount_set (f := (· == Role.writer)) hk .gone
    simp only [Phase.inside_outside, Phase.inside_gone, Bool.and_false] at hc
    simp only [State.goto_releases, State.goto_procs]
    omega
  · have hc := insideCount_set (f := (· == Role.writer)) hk .goneInside
    simp only [Phase.inside_finished, Phase.inside_goneInside, Bool.and_true] at hc
    simp only [State.goto_releases, State.goto_procs]
    omega

/-- When a reader goes in, a writer is inside; when it goes out, none is, and a `stop_write`
has gone through in between. -/
theorem read_spans_stopWrite {tr tr' : List (State × Event)} (h : Run wr.step init tr t)
    (hk : t.procs[k]? = some ⟨.reader, .outside⟩) (hin : wr.step t (.run k) = some t')
    (h' : Run wr.step t' tr' u) (hk' : u.procs[k]? = some ⟨.reader, .finished⟩)
    (hout : (wr.step u (.run k)).isSome) :
    0 < active .writer t ∧ active .writer u = 0 ∧ released t < released u := by
  have hlt : wr.Ledger semInit t :=
    h.invariant (wr.ledger_init _ _) fun _ _ _ hl he => wr.ledger_step hl he
  have hlu : wr.Ledger semInit u :=
    h'.invariant (wr.ledger_step hlt hin) fun _ _ _ hl he => wr.ledger_step hl he
  have hkept : released t' + active .writer t' ≤ released u + active .writer u :=
    h'.invariant (I := fun v => released t' + active .writer t' ≤ released v + active .writer v)
      le_rfl fun _ _ _ hi he => hi.trans (released_add_active_step he)
  have hstart := released_add_active_step hin
  have hbefore : 0 < active .writer t := by
    obtain ⟨sem, hsem, -⟩ := wr.step_outside hk hin
    have hbin := startRead_done hsem
    have := binWriter_add hlt
    omega
  have hafter : active .writer u = 0 := by
    obtain ⟨u', hout⟩ := Option.isSome_iff_exists.1 hout
    simp only [Section.step, hk', Option.bind_eq_bind, Option.bind_some] at hout
    obtain ⟨sem, hsem, -⟩ := Option.bind_eq_some_iff.1 hout
    have hzero := stopRead_done (Semop.result_eq_some.1 hsem)
    rw [← activeWriter_eq hlu, hzero]
  exact ⟨hbefore, hafter, by omega⟩

/-- A writer inside, and what happens while a reader is in with it. -/
def writerInside : List Event := [.spawn .writer, .spawn .reader, .run 0]
def untilReaderLeaves : List Event := [.run 0, .run 1, .run 0]

theorem read_spans_stopWrite_writerInside :
    let t := (exec wr.step init writerInside).get (by decide)
    let t' := (wr.step t (.run 1)).get (by decide)
    let u := (exec wr.step t' untilReaderLeaves).get (by decide)
    0 < active .writer t ∧ active .writer u = 0 ∧ released t < released u :=
  read_spans_stopWrite (run_of_isSome init writerInside (by decide)) rfl
    (Option.some_get _).symm (run_of_isSome _ untilReaderLeaves (by decide)) rfl (by decide)

end OsLabs.Wr
