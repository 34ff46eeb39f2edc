import OsLabs.Spec.Seats

/-! What one step of a seat server can do, and the facts about single handlers
that every invariant of the servers rests on. -/

namespace OsLabs.Seats

variable {v : Server} {s s' : State} {e : Event} {k : ℕ} {h : Handler}

theorem run_cases (hr : run v s k h = some s') :
    (∃ idx sem, h.phase = .startWrite idx ∧ semop s.sem startWrite = .done sem ∧
      s' = s.lock k h sem (.load idx)) ∨
    (∃ sem, h.phase = .startRead ∧ semop s.sem startRead = .done sem ∧
      s' = s.lock k h sem (.copy [])) ∨
    (∃ sem, (h.phase = .stopWrite ∧ semop s.sem stopWrite = .done sem ∨
      h.phase = .stopRead ∧ semop s.sem stopRead = .done sem) ∧ s' = s.unlock k h sem) ∨
    (∃ idx cell, h.phase = .load idx ∧ s' = s.goto k h (.store idx cell (s.shmBuf cell))) ∨
    (∃ idx text, (h.phase = .load idx ∨ ∃ cell ch, h.phase = .store idx cell ch) ∧
      s' = s.goto k h (.send idx (.error text))) ∨
    (∃ idx cell ch, h.phase = .store idx cell ch ∧ ch ≠ '-' ∧
      s' = { s.goto k h (.send idx (.symbol ch)) with
        shmBuf := Function.update s.shmBuf cell '-' }) ∨
    (∃ idx reply, h.phase = .send idx reply ∧
      s' = { s.goto k h (if 0 ≤ idx ∧ idx < SHM_BUFFER_SIZE then .stopWrite else .done) with
        sent := s.sent ++ [(k, reply)] }) ∨
    (∃ buffer, h.phase = .copy buffer ∧ s' = s.goto k h (copyNext s.shmBuf buffer)) ∨
    (∃ buffer, h.phase = .sendBuf buffer ∧
      s' = { s.goto k h .stopRead with sentBuf := s.sentBuf ++ [(k, buffer)] }) := by
  unfold run at hr
  cases hp : h.phase <;> simp only [hp, reduceCtorEq] at hr
  case startWrite idx =>
    obtain ⟨sem, hsem, rfl⟩ := Option.map_eq_some_iff.1 hr
    exact .inl ⟨idx, sem, rfl, Semop.result_eq_some.1 hsem, rfl⟩
  case startRead =>
    obtain ⟨sem, hsem, rfl⟩ := Option.map_eq_some_iff.1 hr
    exact .inr (.inl ⟨sem, rfl, Semop.result_eq_some.1 hsem, rfl⟩)
  case stopWrite =>
    obtain ⟨sem, hsem, rfl⟩ := Option.map_eq_some_iff.1 hr
    exact .inr (.inr (.inl ⟨sem, .inl ⟨rfl, Semop.result_eq_some.1 hsem⟩, rfl⟩))
  case stopRead =>
    obtain ⟨sem, hsem, rfl⟩ := Option.map_eq_some_iff.1 hr
    exact .inr (.inr (.inl ⟨sem, .inr ⟨rfl, Semop.result_eq_some.1 hsem⟩, rfl⟩))
  case load idx =>
    split_ifs at hr with hi
    · exact .inr (.inr (.inr (.inl ⟨idx, _, rfl, (Option.some.inj hr).symm⟩)))
    · exact .inr (.inr (.inr (.inr (.inl
        ⟨idx, _, .inl rfl, (Option.some.inj hr).symm⟩))))
  case store idx cell ch =>
    split_ifs at hr with hc
    · exact .inr (.inr (.inr (.inr (.inl
        ⟨idx, _, .inr ⟨cell, ch, rfl⟩, (Option.some.inj hr).symm⟩))))
    · exact .inr (.inr (.inr (.inr (.inr (.inl
        ⟨idx, cell, ch, rfl, hc, (Option.some.inj hr).symm⟩)))))
  case send idx reply =>
    exact .inr (.inr (.inr (.inr (.inr (.inr (.inl
      ⟨idx, reply, rfl, (Option.some.inj hr).symm⟩))))))
  case copy buffer =>
    exact .inr (.inr (.inr (.inr (.inr (.inr (.inr (.inl
      ⟨buffer, rfl, (Option.some.inj hr).symm⟩)))))))
  case sendBuf buffer =>
    exact .inr (.inr (.inr (.inr (.inr (.inr (.inr (.inr
      ⟨buffer, rfl, (Option.some.inj hr).symm⟩)))))))

theorem fail_cases (hf : fail s k h = some s') :
    s' = s.goto k h .done ∧ h.phase ≠ .done := by
  unfold fail at hf
  cases hp : h.phase <;> simp only [hp, reduceCtorEq] at hf
  all_goals exact ⟨(Option.some.inj hf).symm, by simp⟩

theorem step_cases (hs : step v s e = some s') :
    (e = .accept ∧ s' = { s with handlers := s.handlers ++ [⟨.none, .recvOp, 0, 0⟩] }) ∨
    ∃ k h, s.handlers[k]? = some h ∧
      ((∃ op, e = .recvOp k op ∧ h.phase = .recvOp ∧
          s' = { s with handlers := s.handlers.set k (dispatch h op) }) ∨
        (∃ idx, e = .recvIdx k idx ∧ h.phase = .recvIdx ∧
          s' = { s with handlers := s.handlers.set k (dispatchIdx h idx) }) ∨
        (e = .run k ∧ run v s k h = some s') ∨ (e = .fail k ∧ fail s k h = some s')) := by
  cases e with
  | accept => exact .inl ⟨rfl, (Option.some.inj hs).symm⟩
  | recvOp k op =>
    obtain ⟨h, hk, hs⟩ := Option.bind_eq_some_iff.1 hs
    split_ifs at hs with hp
    exact .inr ⟨k, h, hk, .inl ⟨op, rfl, hp, (Option.some.inj hs).symm⟩⟩
  | recvIdx k idx =>
    obtain ⟨h, hk, hs⟩ := Option.bind_eq_some_iff.1 hs
    split_ifs at hs with hp
    exact .inr ⟨k, h, hk, .inr (.inl ⟨idx, rfl, hp, (Option.some.inj hs).symm⟩)⟩
  | run k =>
    obtain ⟨h, hk, hs⟩ := Option.bind_eq_some_iff.1 hs
    exact .inr ⟨k, h, hk, .inr (.inr (.inl ⟨rfl, hs⟩))⟩
  | fail k =>
    obtain ⟨h, hk, hs⟩ := Option.bind_eq_some_iff.1 hs
    exact .inr ⟨k, h, hk, .inr (.inr (.inr ⟨rfl, hs⟩))⟩

/-- The only change of the buffer is a writer's store. -/
theorem shmBuf_step (hs : step v s e = some s') :
    s'.shmBuf = s.shmBuf ∨ ∃ h ∈ s.handlers, ∃ idx cell ch, h.phase = .store idx cell ch ∧
      s'.shmBuf = Function.update s.shmBuf cell '-' := by
  rcases step_cases hs with ⟨-, rfl⟩ | ⟨k, h, hk, hs⟩
  · exact .inl rfl
  rcases hs with ⟨op, -, -, rfl⟩ | ⟨idx, -, -, rfl⟩ | ⟨-, hr⟩ | ⟨-, hf⟩
  · exact .inl rfl
  · exact .inl rfl
  · rcases run_cases hr with ⟨idx, sem, -, -, rfl⟩ | ⟨sem, -, -, rfl⟩ | ⟨sem, -, rfl⟩ |
      ⟨idx, cell, -, rfl⟩ | ⟨idx, text, -, rfl⟩ | ⟨idx, cell, ch, hp, -, rfl⟩ |
      ⟨idx, reply, -, rfl⟩ | ⟨buffer, -, rfl⟩ | ⟨buffer, -, rfl⟩
    · exact .inl rfl
    · exact .inl rfl
    · exact .inl rfl
    · exact .inl rfl
    · exact .inl rfl
    · exact .inr ⟨h, List.mem_of_getElem? hk, idx, cell, ch, hp, rfl⟩
    · exact .inl rfl
    · exact .inl rfl
    · exact .inl rfl
  · obtain ⟨rfl, -⟩ := fail_cases hf
    exact .inl rfl

/-- The semaphores only change by one of the four calls. -/
theorem sem_step (hs : step v s e = some s') :
    s'.sem = s.sem ∨ ∃ ops ∈ [startRead, stopRead, startWrite, stopWrite],
      semop s.sem ops = .done s'.sem := by
  rcases step_cases hs with ⟨-, rfl⟩ | ⟨k, h, -, hs⟩
  · exact .inl rfl
  rcases hs with ⟨op, -, -, rfl⟩ | ⟨idx, -, -, rfl⟩ | ⟨-, hr⟩ | ⟨-, hf⟩
  · exact .inl rfl
  · exact .inl rfl
  · rcases run_cases hr with ⟨idx, sem, -, hsem, rfl⟩ | ⟨sem, -, hsem, rfl⟩ |
      ⟨sem, ⟨-, hsem⟩ | ⟨-, hsem⟩, rfl⟩ | ⟨idx, cell, -, rfl⟩ | ⟨idx, text, -, rfl⟩ |
      ⟨idx, cell, ch, -, -, rfl⟩ | ⟨idx, reply, -, rfl⟩ | ⟨buffer, -, rfl⟩ | ⟨buffer, -, rfl⟩
    · exact .inr ⟨startWrite, by simp, hsem⟩
    · exact .inr ⟨startRead, by simp, hsem⟩
    · exact .inr ⟨stopWrite, by simp, hsem⟩
    · exact .inr ⟨stopRead, by simp, hsem⟩
    · exact .inl rfl
    · exact .inl rfl
    · exact .inl rfl
    · exact .inl rfl
    · exact .inl rfl
    · exact .inl rfl
  · obtain ⟨rfl, -⟩ := fail_cases hf
    exact .inl rfl

/-- The first `recv` leaves a handler before a start call, before the second
`recv`, or at its end. -/
theorem dispatch_phase (h : Handler) (op : Option Char) :
    dispatch h op = { h with phase := .done } ∨
      dispatch h op = { h with op := .reader, phase := .startRead } ∨
      dispatch h op = { h with op := .writer, phase := .recvIdx } := by
  unfold dispatch
  split <;> simp

theorem dispatchIdx_phase (h : Handler) (idx : Option Int8) :
    dispatchIdx h idx = { h with phase := .done } ∨
      ∃ i, dispatchIdx h idx = { h with phase := .startWrite i } := by
  cases idx with
  | none => exact .inl rfl
  | some i => exact .inr ⟨i.toInt, rfl⟩

theorem copyNext_phase (shmBuf : Fin SHM_BUFFER_SIZE → Char) (buffer : List Char) :
    (∃ b, copyNext shmBuf buffer = .copy b) ∨ ∃ b, copyNext shmBuf buffer = .sendBuf b := by
  unfold copyNext
  split_ifs with hl hc
  · exact .inr ⟨_, rfl⟩
  · exact .inl ⟨_, rfl⟩
  · exact .inr ⟨_, rfl⟩

theorem goto_handlers (s : State) (k : ℕ) (h : Handler) (ph : Phase) :
    (s.goto k h ph).handlers = s.handlers.set k { h with phase := ph } := rfl

theorem count_goto {f : Phase → Bool} {a b : Bool} (hk : s.handlers[k]? = some h) {g : Handler}
    (ha : f h.phase = a) (hb : f g.phase = b) :
    (s.handlers.set k g).countP (fun h => f h.phase) + a.toNat =
      s.handlers.countP (fun h => f h.phase) + b.toNat := by
  have hc := countP_set (fun h : Handler => f h.phase) hk g
  rw [ha, hb] at hc
  cases a <;> cases b <;> simpa using hc

theorem count_le_of_imp {f : Phase → Bool} (hk : s.handlers[k]? = some h) {g : Handler}
    (hf : f g.phase = true → f h.phase = true) :
    (s.handlers.set k g).countP (fun h => f h.phase) ≤ s.handlers.countP fun h => f h.phase := by
  have hc := count_goto (f := f) (g := g) hk rfl rfl
  cases hn : f g.phase with
  | false =>
    rw [hn, Bool.toNat_false] at hc
    omega
  | true =>
    rw [hn, hf hn] at hc
    omega

end OsLabs.Seats
