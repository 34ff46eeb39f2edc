import OsLabs.Proofs.SeatsSnapshot
import OsLabs.Proofs.SeatsRelease

/-! What a lock left behind does to a seat server. The handler that left it takes no further
step, so its count stays up, and with it the other kind of handler is shut out for the rest
of the run. -/

namespace OsLabs.Seats

variable {v : Server} {s s' t : State} {e : Event} {k : ℕ} {g h : Handler}

theorem handlers_step (hs : step v s e = some s') :
    (∃ h', s'.handlers = s.handlers ++ [h']) ∨
      ∃ k h h', s.handlers[k]? = some h ∧ h.phase ≠ .done ∧
        s'.handlers = s.handlers.set k h' := by
  rcases step_cases hs with ⟨-, rfl⟩ | ⟨k, h, hk, hs⟩
  · exact .inl ⟨_, rfl⟩
  right
  refine ⟨k, h, ?_⟩
  rcases hs with ⟨op, -, hp, rfl⟩ | ⟨idx, -, hp, rfl⟩ | ⟨-, hr⟩ | ⟨-, hf⟩
  · exact ⟨_, hk, by simp [hp], rfl⟩
  · exact ⟨_, hk, by simp [hp], rfl⟩
  · rcases run_cases hr with ⟨idx, sem, hp, -, rfl⟩ | ⟨sem, hp, -, rfl⟩ |
      ⟨sem, ⟨hp, -⟩ | ⟨hp, -⟩, rfl⟩ | ⟨idx, cell, hp, rfl⟩ |
      ⟨idx, text, hp | ⟨cell, ch, hp⟩, rfl⟩ | ⟨idx, cell, ch, hp, -, rfl⟩ |
      ⟨idx, reply, hp, rfl⟩ | ⟨buffer, hp, rfl⟩ | ⟨buffer, hp, rfl⟩ <;>
      exact ⟨_, hk, by simp [hp], rfl⟩
  · obtain ⟨rfl, hp⟩ := fail_cases hf
    exact ⟨_, hk, hp, rfl⟩

theorem through_step (hg : g ∈ s.handlers) (hdone : g.phase = .done)
    (hs : step v s e = some s') : g ∈ s'.handlers := by
  obtain ⟨h', hh⟩ | ⟨k, h, h', hk, hp, hh⟩ := handlers_step hs
  · rw [hh]
    exact List.mem_append_left _ hg
  · obtain ⟨i, hi⟩ := List.mem_iff_getElem?.1 hg
    have hki : k ≠ i := by
      rintro rfl
      obtain rfl := Option.some.inj (hk.symm.trans hi)
      exact hp hdone
    rw [hh]
    apply List.mem_of_getElem? (i := i)
    rw [List.getElem?_set_ne hki, hi]

theorem sent_step (hs : step v s e = some s') :
    s'.sent = s.sent ∨ ∃ h ∈ s.handlers, ∃ idx reply, h.phase = .send idx reply := by
  rcases step_cases hs with ⟨-, rfl⟩ | ⟨k, h, hk, hs⟩
  · exact .inl rfl
  rcases hs with ⟨op, -, -, rfl⟩ | ⟨idx, -, -, rfl⟩ | ⟨-, hr⟩ | ⟨-, hf⟩
  · exact .inl rfl
  · exact .inl rfl
  · rcases run_cases hr with ⟨idx, sem, -, -, rfl⟩ | ⟨sem, -, -, rfl⟩ | ⟨sem, -, rfl⟩ |
      ⟨idx, cell, -, rfl⟩ | ⟨idx, text, -, rfl⟩ | ⟨idx, cell, ch, -, -, rfl⟩ |
      ⟨idx, reply, hp, rfl⟩ | ⟨buffer, -, rfl⟩ | ⟨buffer, -, rfl⟩
    · exact .inl rfl
    · exact .inl rfl
    · exact .inl rfl
    · exact .inl rfl
    · exact .inl rfl
    · exact .inl rfl
    · exact .inr ⟨h, List.mem_of_getElem? hk, idx, reply, hp⟩
    · exact .inl rfl
    · exact .inl rfl
  · obtain ⟨rfl, -⟩ := fail_cases hf
    exact .inl rfl

theorem Books.isWriting_of_send (hb : Books s) (hh : h ∈ s.handlers) {idx : ℤ} {reply : Reply}
    (hp : h.phase = .send idx reply) : h.isWriting := by
  have hok := hb.ok h hh
  simp only [Handler.OkWith, hp] at hok
  exact ⟨hok.1, by omega⟩

/-- While a handler holds its `start_write`, nobody sends a snapshot. -/
theorem Snap.sentBuf_eq (hs : Snap s) (hg : g ∈ s.handlers) (hw : g.isWriting)
    (he : step v s e = some s') : s'.sentBuf = s.sentBuf := by
  rcases sentBuf_step he with hsame | ⟨k, h, buffer, -, hk, hp, -⟩
  · exact hsame
  · have hh := List.mem_of_getElem? hk
    exact absurd hw (hs.not_both hh hg (hs.books.isReading_of_copy hh (.inr hp)))

/-- While a handler holds its `start_read`, nobody sends a symbol. -/
theorem Snap.sent_eq (hs : Snap s) (hg : g ∈ s.handlers) (hr : g.isReading)
    (he : step v s e = some s') : s'.sent = s.sent := by
  rcases sent_step he with hsame | ⟨h, hh, idx, reply, hp⟩
  · exact hsame
  · exact absurd (hs.books.isWriting_of_send hh hp) (hs.not_both hg hh hr)

/-- A handler that has ended between its start call and its stop call shuts the other kind
out for good: after a writer no reader is sent a snapshot any more, after a reader no seat
is sold and no writer is answered. -/
theorem shut_out_for_good (v : Server) {tr tr' : List (State × Event)}
    (h : Run (step v) init tr t) (h' : Run (step v) t tr' s) (hg : g ∈ t.handlers)
    (hdone : g.phase = .done) :
    (g.isWriting → Always (fun u => u.sentBuf = t.sentBuf) tr' s) ∧
    (g.isReading → Always (fun u => u.shmBuf = t.shmBuf ∧ u.sent = t.sent) tr' s) := by
  have hsnap : Snap t := h.invariant snap_init fun _ _ _ hi he => snap_step hi he
  refine ⟨?_, ?_⟩
  · intro hw
    have hall := h'.always
      (I := fun u => Snap u ∧ g ∈ u.handlers ∧ u.sentBuf = t.sentBuf) ⟨hsnap, hg, rfl⟩ ?_
    · exact hall.imp fun u hu => hu.2.2
    · rintro u e u' ⟨hu, hgu, hsent⟩ he
      exact ⟨snap_step hu he, through_step hgu hdone he, (hu.sentBuf_eq hgu hw he).trans hsent⟩
  · intro hr
    have hall := h'.always
      (I := fun u => Snap u ∧ g ∈ u.handlers ∧ u.shmBuf = t.shmBuf ∧ u.sent = t.sent)
      ⟨hsnap, hg, rfl, rfl⟩ ?_
    · exact hall.imp fun u hu => hu.2.2
    · rintro u e u' ⟨hu, hgu, hbuf, hsent⟩ he
      exact ⟨snap_step hu he, through_step hgu hdone he, (hu.shmBuf_eq hgu hr he).trans hbuf,
        (hu.sent_eq hgu hr he).trans hsent⟩

def lateReader : List Event := [.accept, .recvOp 1 (some 'r')]

theorem shut_out_for_good_lateReader :
    let t := (exec (step .pthread) init badIndex).get (by decide)
    let g : Handler := ⟨.writer, .done, 1, 0⟩
    g.isWriting ∧
    (g.isWriting → Always (fun u => u.sentBuf = t.sentBuf)
      (trace (step .pthread) t lateReader) ((exec (step .pthread) t lateReader).get (by decide))) ∧
    (g.isReading → Always (fun u => u.shmBuf = t.shmBuf ∧ u.sent = t.sent)
      (trace (step .pthread) t lateReader) ((exec (step .pthread) t lateReader).get (by decide))) :=
  ⟨by unfold Handler.isWriting; decide,
    shut_out_for_good .pthread (run_of_isSome init badIndex (by decide))
      (run_of_isSome _ lateReader (by decide)) (by decide) rfl⟩

end OsLabs.Seats
