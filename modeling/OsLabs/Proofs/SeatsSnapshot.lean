import OsLabs.Sanity.SeatsBooks

/-! Snapshots of the seat servers. Readers and writers exclude each other, although
writers do not exclude one another and a handler may end with its lock taken, so what a
reader copies cell by cell is the buffer as it stands. -/

namespace OsLabs.Seats

variable {v : Server} {s s' : State} {e : Event} {k : ℕ} {h : Handler}

theorem startRead_done {sem sem' : Sem → ℕ} (hd : semop sem startRead = .done sem') :
    sem .SEM_ACTIVE_WRITER = 0 := by
  simp only [startRead, SEM_V, semop_cons_done] at hd
  simpa using hd.2.2.1

theorem startWrite_done {sem sem' : Sem → ℕ} (hd : semop sem startWrite = .done sem') :
    sem .SEM_ACTIVE_READERS = 0 := by
  simp only [startWrite, SEM_V, semop_cons_done] at hd
  simpa using hd.2.2.1

/-- Not both kinds are inside. -/
def Apart (s : State) : Prop := s.sem .SEM_ACTIVE_READERS = 0 ∨ s.sem .SEM_ACTIVE_WRITER = 0

theorem apart_step (ha : Apart s) (hs : step v s e = some s') : Apart s' := by
  unfold Apart at ha ⊢
  rcases sem_step hs with hsem | ⟨ops, hops, hd⟩
  · rw [hsem]
    exact ha
  have hr := semop_done hd .SEM_ACTIVE_READERS
  have hw := semop_done hd .SEM_ACTIVE_WRITER
  simp only [List.mem_cons, List.not_mem_nil, or_false] at hops
  rcases hops with rfl | rfl | rfl | rfl
  · have := startRead_done hd
    simp [net_startRead] at hr hw
    omega
  · simp [net_stopRead] at hr hw
    omega
  · have := startWrite_done hd
    simp [net_startWrite] at hr hw
    omega
  · simp [net_stopWrite] at hr hw
    omega

def CellsOk (s : State) : Prop := ∀ cell, s.shmBuf cell = shmInit cell ∨ s.shmBuf cell = '-'

theorem cellsOk_step (hc : CellsOk s) (hs : step v s e = some s') : CellsOk s' := by
  intro cell
  rcases shmBuf_step hs with hbuf | ⟨h, -, idx, c, ch, -, hbuf⟩
  · rw [hbuf]
    exact hc cell
  · rw [hbuf, Function.update_apply]
    split_ifs
    · exact .inr rfl
    · exact hc cell

theorem shmInit_ne_nul : ∀ cell, shmInit cell ≠ Char.ofNat 0 := by decide +kernel

theorem CellsOk.ne_nul (hc : CellsOk s) (cell : Fin SHM_BUFFER_SIZE) :
    s.shmBuf cell ≠ Char.ofNat 0 := by
  rcases hc cell with h | h
  · rw [h]
    exact shmInit_ne_nul cell
  · rw [h]
    decide

def Phase.CopyOf (shmBuf : Fin SHM_BUFFER_SIZE → Char) : Phase → Prop
  | .copy buffer => buffer <+: List.ofFn shmBuf
  | .sendBuf buffer => buffer = List.ofFn shmBuf
  | _ => True

theorem copyNext_copyOf {shmBuf : Fin SHM_BUFFER_SIZE → Char} {buffer : List Char}
    (hnul : ∀ cell, shmBuf cell ≠ Char.ofNat 0) (hb : buffer <+: List.ofFn shmBuf) :
    (copyNext shmBuf buffer).CopyOf shmBuf := by
  unfold copyNext
  split_ifs with hlt h0
  · exact absurd h0 (hnul _)
  · show buffer ++ [shmBuf ⟨buffer.length, hlt⟩] <+: List.ofFn shmBuf
    rw [List.prefix_iff_eq_take] at hb ⊢
    rw [List.length_append, List.length_singleton,
      List.take_succ_eq_append_getElem (by simpa using hlt), ← hb, List.getElem_ofFn]
  · show buffer = List.ofFn shmBuf
    apply hb.eq_of_length_le
    simpa using Nat.le_of_not_lt hlt

theorem copying_step (hs : step v s e = some s') {h' : Handler} (hh : h' ∈ s'.handlers) :
    h' ∈ s.handlers ∨ h'.phase = .copy [] ∨
      (∃ h ∈ s.handlers, ∃ b, h.phase = .copy b ∧ h'.phase = copyNext s.shmBuf b) ∨
      ∀ shmBuf, h'.phase.CopyOf shmBuf := by
  rcases step_cases hs with ⟨-, rfl⟩ | ⟨k, h, hk, hs⟩
  · rcases List.mem_append.1 hh with hh | hh
    · exact .inl hh
    · obtain rfl := List.mem_singleton.1 hh
      exact .inr (.inr (.inr fun _ => trivial))
  have hmem := List.mem_of_getElem? hk
  rcases hs with ⟨op, -, -, rfl⟩ | ⟨idx, -, -, rfl⟩ | ⟨-, hr⟩ | ⟨-, hf⟩
  · rcases List.mem_or_eq_of_mem_set hh with hh | rfl
    · exact .inl hh
    · refine .inr (.inr (.inr fun _ => ?_))
      rcases dispatch_phase h op with hd | hd | hd <;> rw [hd] <;> trivial
  · rcases List.mem_or_eq_of_mem_set hh with hh | rfl
    · exact .inl hh
    · refine .inr (.inr (.inr fun _ => ?_))
      rcases dispatchIdx_phase h idx with hd | ⟨i, hd⟩ <;> rw [hd] <;> trivial
  · rcases run_cases hr with ⟨idx, sem, -, -, rfl⟩ | ⟨sem, -, -, rfl⟩ | ⟨sem, -, rfl⟩ |
      ⟨idx, cell, -, rfl⟩ | ⟨idx, text, -, rfl⟩ | ⟨idx, cell, ch, -, -, rfl⟩ |
      ⟨idx, reply, -, rfl⟩ | ⟨buffer, hp, rfl⟩ | ⟨buffer, -, rfl⟩ <;>
      rcases List.mem_or_eq_of_mem_set hh with hh | rfl
    all_goals first | exact .inl hh | skip
    · exact .inr (.inr (.inr fun _ => trivial))
    · exact .inr (.inl rfl)
    · exact .inr (.inr (.inr fun _ => trivial))
    · exact .inr (.inr (.inr fun _ => trivial))
    · exact .inr (.inr (.inr fun _ => trivial))
    · exact .inr (.inr (.inr fun _ => trivial))
    · refine .inr (.inr (.inr fun _ => ?_))
      split_ifs <;> trivial
    · exact .inr (.inr (.inl ⟨h, hmem, buffer, hp, rfl⟩))
    · exact .inr (.inr (.inr fun _ => trivial))
  · obtain ⟨rfl, -⟩ := fail_cases hf
    rcases List.mem_or_eq_of_mem_set hh with hh | rfl
    · exact .inl hh
    · exact .inr (.inr (.inr fun _ => trivial))

structure Snap (s : State) : Prop where
  books : Books s
  apart : Apart s
  cells : CellsOk s
  copied : ∀ h ∈ s.handlers, h.phase.CopyOf s.shmBuf

theorem snap_init : Snap init where
  books := books_init
  apart := .inl rfl
  cells _ := .inl rfl
  copied h hh := by simp [init] at hh

theorem Books.isReading_of_copy (hb : Books s) (hh : h ∈ s.handlers) {b : List Char}
    (hp : h.phase = .copy b ∨ h.phase = .sendBuf b) : h.isReading := by
  have hok := hb.ok h hh
  rcases hp with hp | hp <;> simp only [Handler.OkWith, hp] at hok <;>
    exact ⟨hok.1, by omega⟩

theorem Books.isWriting_of_store (hb : Books s) (hh : h ∈ s.handlers) {idx : ℤ}
    {cell : Fin SHM_BUFFER_SIZE} {ch : Char} (hp : h.phase = .store idx cell ch) :
    h.isWriting := by
  have hok := hb.ok h hh
  simp only [Handler.OkWith, hp] at hok
  exact ⟨hok.1, by omega⟩

theorem Snap.not_both (hs : Snap s) {g : Handler} (hh : h ∈ s.handlers) (hg : g ∈ s.handlers)
    (hr : h.isReading) : ¬ g.isWriting := by
  intro hw
  have hpos := hs.books.activeReaders_pos hh hr
  have hpos' := hs.books.activeWriter_pos hg hw
  rcases hs.apart with h0 | h0 <;> omega

theorem Snap.shmBuf_eq (hs : Snap s) (hh : h ∈ s.handlers) (hr : h.isReading)
    (he : step v s e = some s') : s'.shmBuf = s.shmBuf := by
  rcases shmBuf_step he with hbuf | ⟨g, hg, idx, cell, ch, hp, -⟩
  · exact hbuf
  · exact absurd (hs.books.isWriting_of_store hg hp) (hs.not_both hh hg hr)

theorem snap_step (hs : Snap s) (he : step v s e = some s') : Snap s' := by
  refine ⟨books_step hs.books he, apart_step hs.apart he, cellsOk_step hs.cells he, ?_⟩
  intro h' hh'
  rcases copying_step he hh' with hh | hp | ⟨h, hh, b, hp, hp'⟩ | hany
  · -- a copy in progress keeps the buffer as it is
    have hc := hs.copied h' hh
    cases hp : h'.phase with
    | copy b =>
      rw [hs.shmBuf_eq hh (hs.books.isReading_of_copy hh (.inl hp)) he, ← hp]
      exact hc
    | sendBuf b =>
      rw [hs.shmBuf_eq hh (hs.books.isReading_of_copy hh (.inr hp)) he, ← hp]
      exact hc
    | _ => trivial
  · rw [hp]
    exact List.nil_prefix
  · rw [hp', hs.shmBuf_eq hh (hs.books.isReading_of_copy hh (.inl hp)) he]
    have hc := hs.copied h hh
    rw [hp] at hc
    exact copyNext_copyOf hs.cells.ne_nul hc
  · exact hany _

theorem sentBuf_step (he : step v s e = some s') :
    s'.sentBuf = s.sentBuf ∨ ∃ k h buffer, e = .run k ∧ s.handlers[k]? = some h ∧
      h.phase = .sendBuf buffer ∧ s'.sentBuf = s.sentBuf ++ [(k, buffer)] := by
  rcases step_cases he with ⟨-, rfl⟩ | ⟨k, h, hk, hs⟩
  · exact .inl rfl
  rcases hs with ⟨op, -, -, rfl⟩ | ⟨idx, -, -, rfl⟩ | ⟨hrun, hr⟩ | ⟨-, hf⟩
  · exact .inl rfl
  · exact .inl rfl
  · rcases run_cases hr with ⟨idx, sem, -, -, rfl⟩ | ⟨sem, -, -, rfl⟩ | ⟨sem, -, rfl⟩ |
      ⟨idx, cell, -, rfl⟩ | ⟨idx, text, -, rfl⟩ | ⟨idx, cell, ch, -, -, rfl⟩ |
      ⟨idx, reply, -, rfl⟩ | ⟨buffer, -, rfl⟩ | ⟨buffer, hp, rfl⟩
    · exact .inl rfl
    · exact .inl rfl
    · exact .inl rfl
    · exact .inl rfl
    · exact .inl rfl
    · exact .inl rfl
    · exact .inl rfl
    · exact .inl rfl
    · exact .inr ⟨k, h, buffer, hrun, hk, hp, rfl⟩
  · obtain ⟨rfl, -⟩ := fail_cases hf
    exact .inl rfl

/-- No cell changes while a handler is between its `start_read` and its `stop_read`, and
what a reader sends is the buffer as it stands when it sends it. -/
theorem snapshots_atomic (v : Server) {tr : List (State × Event)} (h : Run (step v) init tr s) :
    EachStep (fun t e => (∃ g ∈ t.handlers, g.isReading) →
      ∀ t', step v t e = some t' → t'.shmBuf = t.shmBuf) tr ∧
    ∀ p ∈ s.sentBuf, ∃ q ∈ tr, q.2 = .run p.1 ∧
      (∃ g, q.1.handlers[p.1]? = some g ∧ g.isReading) ∧ p.2 = List.ofFn q.1.shmBuf := by
  have hsnap : Always Snap tr s := h.always snap_init fun _ _ _ hi he => snap_step hi he
  refine ⟨?_, ?_⟩
  · intro q hq hreading t' he
    obtain ⟨g, hg, hr⟩ := hreading
    exact (hsnap.1 q hq).shmBuf_eq hg hr he
  · induction h with
    | nil => simp [init]
    | @snoc tr s e s' _ he ih =>
      have hprev := (always_snoc.1 hsnap).1
      have hold : ∀ p ∈ s.sentBuf, ∃ q ∈ tr ++ [(s, e)], q.2 = .run p.1 ∧
          (∃ g, q.1.handlers[p.1]? = some g ∧ g.isReading) ∧ p.2 = List.ofFn q.1.shmBuf := by
        intro p hp
        obtain ⟨q, hq, hsent⟩ := ih hprev p hp
        exact ⟨q, List.mem_append_left _ hq, hsent⟩
      rcases sentBuf_step he with hsent | ⟨k, g, buffer, rfl, hk, hp, hsent⟩
      · rw [hsent]
        exact hold
      · rw [hsent, List.forall_mem_append]
        refine ⟨hold, ?_⟩
        intro p hmem
        obtain rfl := List.mem_singleton.1 hmem
        have hg := List.mem_of_getElem? hk
        have hcopied := hprev.2.copied g hg
        rw [hp] at hcopied
        exact ⟨_, List.mem_append_right _ (List.mem_singleton_self _), rfl,
          ⟨g, hk, hprev.2.books.isReading_of_copy hg (.inr hp)⟩, hcopied⟩

def readAfterSale : List Event :=
  [.accept, .recvOp 0 (some 'w'), .recvIdx 0 (some 1), .run 0, .run 0, .run 0, .run 0, .run 0,
    .accept, .recvOp 1 (some 'r'), .run 1] ++ List.replicate 54 (.run 1)

theorem snapshots_atomic_readAfterSale :
    let tr := trace (step .pthread) init readAfterSale
    let s := (exec (step .pthread) init readAfterSale).get (by decide +kernel)
    s.sentBuf ≠ [] ∧
    EachStep (fun t e => (∃ g ∈ t.handlers, g.isReading) →
      ∀ t', step .pthread t e = some t' → t'.shmBuf = t.shmBuf) tr ∧
    ∀ p ∈ s.sentBuf, ∃ q ∈ tr, q.2 = .run p.1 ∧
      (∃ g, q.1.handlers[p.1]? = some g ∧ g.isReading) ∧ p.2 = List.ofFn q.1.shmBuf :=
  ⟨by decide +kernel,
    snapshots_atomic .pthread (run_of_isSome init readAfterSale (by decide +kernel))⟩

end OsLabs.Seats
