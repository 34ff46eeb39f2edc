import OsLabs.Spec.SeatClient

/-! What a thread finds in the buffer it has received, and what the steps of the threads do. -/

namespace OsLabs.SeatClient

open Seats (shmInit)

abbrev Cells := Fin Seats.SHM_BUFFER_SIZE → Char

theorem letter_shmInit : ∀ cell, letters.contains (shmInit cell) := by decide +kernel

theorem cString_cons (ch : Char) (bytes : List Char) :
    cString (ch :: bytes) = if ch = NUL then [] else ch :: cString bytes := by
  by_cases hch : ch = NUL <;> simp [cString, hch]

theorem cString_append (bytes rest : List Char) :
    cString (bytes ++ rest) =
      if NUL ∈ bytes then cString bytes else bytes ++ cString rest := by
  induction bytes with
  | nil => rfl
  | cons ch bytes ih =>
    rw [List.cons_append, cString_cons, cString_cons, ih]
    by_cases hch : ch = NUL
    · simp [hch]
    · have hmem : NUL ∈ ch :: bytes ↔ NUL ∈ bytes := by
        rw [List.mem_cons, or_iff_right (fun h => hch h.symm)]
      simp only [hch, if_false, hmem]
      split_ifs <;> rfl

theorem cString_of_notMem {bytes : List Char} (h : NUL ∉ bytes) : cString bytes = bytes := by
  have happ := cString_append bytes []
  rw [List.append_nil, if_neg h] at happ
  exact happ.trans (List.append_nil _)

def bufferOf (received : List Char) : List Char :=
  overwrite (List.replicate (SHM_BUFFER_SIZE + 1) NUL) received

/-- A thread's buffer holds one NUL more than `recv` can overwrite. -/
theorem cString_bufferOf {received : List Char} (h : received.length ≤ SHM_BUFFER_SIZE) :
    cString (bufferOf received) = cString received := by
  obtain ⟨n, hn⟩ : ∃ n, SHM_BUFFER_SIZE + 1 - received.length = n + 1 :=
    ⟨SHM_BUFFER_SIZE - received.length, by omega⟩
  rw [bufferOf, overwrite, List.drop_replicate, hn, List.replicate_succ, cString_append]
  split_ifs with hmem
  · rfl
  · rw [cString_of_notMem hmem]
    exact List.append_nil _

theorem findFirstUnoccupiedIndex_cases (buffer : List Char) :
    (findFirstUnoccupiedIndex buffer = -1 ∧ ∀ ch ∈ cString buffer, letters.contains ch = false) ∨
      ∃ pos : ℕ, findFirstUnoccupiedIndex buffer = pos ∧ pos < (cString buffer).length := by
  unfold findFirstUnoccupiedIndex
  cases hfind : (cString buffer).findIdx? (letters.contains ·) with
  | none => exact .inl ⟨rfl, List.findIdx?_eq_none_iff.1 hfind⟩
  | some pos =>
    obtain ⟨hlt, -⟩ := List.findIdx?_eq_some_iff_findIdx_eq.1 hfind
    exact .inr ⟨pos, rfl, hlt⟩

/-! ### What the steps do -/

variable {s s' : State}

/-- Everything a step can do: a thread is started, receives the buffer, computes from it,
receives a reply, tests whether to log a line; or it makes another call. -/
theorem step_moves {e : Event} (h : step s e = some s') :
    (∃ resultBuffer, e = .spawn resultBuffer ∧
      s' = { s with threads := s.threads ++ [⟨.connect, 0, resultBuffer⟩] }) ∨
    (∃ j t received, e = .recv j (some received) ∧ s.threads[j]? = some t ∧ t.phase = .recvBuf ∧
      s' = s.goto j t (.compute received)) ∨
    (∃ j t received, e = .run j ∧ s.threads[j]? = some t ∧ t.phase = .compute received ∧
      s' = { s.goto j t .reconnect with
        firstUnoccupiedIdx := Int8.ofInt (findFirstUnoccupiedIndex (bufferOf received)) }) ∨
    (∃ j t received, e = .recv j (some received) ∧ s.threads[j]? = some t ∧
      t.phase = .recvResult ∧ s' = { s with
        threads := s.threads.set j
          { t with phase := .logTest, resultBuffer := overwrite t.resultBuffer received } }) ∨
    (∃ j t, e = .run j ∧ s.threads[j]? = some t ∧ t.phase = .logTest ∧
      s' = { s.goto j t .connect with
        log := if s.firstUnoccupiedIdx ≥ 0 ∧ (cString t.resultBuffer).length = 1
          then s.log ++ [j] else s.log }) ∨
    ∃ j t u, (∀ k, e ≠ .run k) ∧ (∀ k bytes, e ≠ .recv k (some bytes)) ∧
      s.threads[j]? = some t ∧ t.phase ≠ .logTest ∧ u.phase ≠ .logTest ∧
        (∀ received, u.phase ≠ .compute received) ∧
        s' = { s with threads := s.threads.set j u } := by
  cases e with
  | spawn resultBuffer => exact .inl ⟨resultBuffer, rfl, (Option.some.inj h).symm⟩
  | connect j sockFd =>
    obtain ⟨t, hj, h⟩ := Option.bind_eq_some_iff.1 h
    refine .inr (.inr (.inr (.inr (.inr ⟨j, t, ?_⟩))))
    split at h
    · obtain rfl := Option.some.inj h
      cases sockFd <;> exact ⟨_, by simp, by simp, hj, by simp [*], by simp, by simp, rfl⟩
    · obtain rfl := Option.some.inj h
      cases sockFd <;> exact ⟨_, by simp, by simp, hj, by simp [*], by simp, by simp, rfl⟩
    · cases h
  | send j ok =>
    obtain ⟨t, hj, h⟩ := Option.bind_eq_some_iff.1 h
    refine .inr (.inr (.inr (.inr (.inr ⟨j, t, ?_⟩))))
    split at h
    · obtain rfl := Option.some.inj h
      cases ok <;> exact ⟨_, by simp, by simp, hj, by simp [*], by simp, by simp, rfl⟩
    · obtain rfl := Option.some.inj h
      cases ok <;> exact ⟨_, by simp, by simp, hj, by simp [*], by simp, by simp, rfl⟩
    · obtain rfl := Option.some.inj h
      cases ok <;> exact ⟨_, by simp, by simp, hj, by simp [*], by simp, by simp, rfl⟩
    · cases h
  | recv j bytes =>
    obtain ⟨t, hj, h⟩ := Option.bind_eq_some_iff.1 h
    split at h
    · obtain rfl := Option.some.inj h
      exact .inr (.inl ⟨j, t, _, rfl, hj, ‹t.phase = .recvBuf›, rfl⟩)
    · obtain rfl := Option.some.inj h
      exact .inr (.inr (.inr (.inl ⟨j, t, _, rfl, hj, ‹t.phase = .recvResult›, rfl⟩)))
    · obtain rfl := Option.some.inj h
      exact .inr (.inr (.inr (.inr (.inr
        ⟨j, t, _, by simp, by simp, hj, by simp [*], by simp, by simp, rfl⟩))))
    · obtain rfl := Option.some.inj h
      exact .inr (.inr (.inr (.inr (.inr
        ⟨j, t, _, by simp, by simp, hj, by simp [*], by simp, by simp, rfl⟩))))
    · cases h
  | run j =>
    obtain ⟨t, hj, h⟩ := Option.bind_eq_some_iff.1 h
    split at h
    · obtain rfl := Option.some.inj h
      exact .inr (.inr (.inl ⟨j, t, _, rfl, hj, ‹t.phase = .compute _›, rfl⟩))
    · have hp : t.phase = .logTest := ‹_›
      refine .inr (.inr (.inr (.inr (.inl ⟨j, t, rfl, hj, hp, ?_⟩))))
      split_ifs at h ⊢
      · exact (Option.some.inj h).symm
      · exact (Option.some.inj h).symm
    · cases h
  | quit j =>
    obtain ⟨t, hj, h⟩ := Option.bind_eq_some_iff.1 h
    split_ifs at h with hp
    obtain rfl := Option.some.inj h
    exact .inr (.inr (.inr (.inr (.inr
      ⟨j, t, _, by simp, by simp, hj, by simp [hp], by simp, by simp, rfl⟩))))

/-- What the steps do to the global and to the threads that compute it. -/
theorem step_cases {e : Event} (h : step s e = some s') :
    (∃ resultBuffer, s' = { s with threads := s.threads ++ [⟨.connect, 0, resultBuffer⟩] }) ∨
    (∃ j t received, e = .recv j (some received) ∧ s.threads[j]? = some t ∧ t.phase = .recvBuf ∧
      s' = s.goto j t (.compute received)) ∨
    (∃ j t received, e = .run j ∧ s.threads[j]? = some t ∧ t.phase = .compute received ∧
      s' = { s.goto j t .reconnect with
        firstUnoccupiedIdx := Int8.ofInt (findFirstUnoccupiedIndex (bufferOf received)) }) ∨
    ∃ j u log, (∀ received, u.phase ≠ .compute received) ∧
      s' = { s with threads := s.threads.set j u, log } := by
  obtain ⟨resultBuffer, -, hs⟩ | hrecv | hrun | ⟨j, t, received, -, -, -, hs⟩ |
    ⟨j, t, -, -, -, hs⟩ | ⟨j, t, u, -, -, -, -, -, hu, hs⟩ := step_moves h
  · exact .inl ⟨resultBuffer, hs⟩
  · exact .inr (.inl hrecv)
  · exact .inr (.inr (.inl hrun))
  · exact .inr (.inr (.inr ⟨j, _, s.log, by simp, hs⟩))
  · exact .inr (.inr (.inr ⟨j, _, _, by simp, hs⟩))
  · exact .inr (.inr (.inr ⟨j, u, s.log, hu, hs⟩))

theorem step_global {e : Event} (h : step s e = some s') :
    s'.firstUnoccupiedIdx = s.firstUnoccupiedIdx ∨
      ∃ j t received, e = .run j ∧ s.threads[j]? = some t ∧ t.phase = .compute received ∧
        s'.firstUnoccupiedIdx = Int8.ofInt (findFirstUnoccupiedIndex (bufferOf received)) := by
  obtain ⟨resultBuffer, rfl⟩ | ⟨j, t, received, -, -, -, rfl⟩ |
    ⟨j, t, received, rfl, hj, hp, rfl⟩ | ⟨j, u, log, -, rfl⟩ := step_cases h
  · exact .inl rfl
  · exact .inl rfl
  · exact .inr ⟨j, t, received, rfl, hj, hp, rfl⟩
  · exact .inl rfl

/-- A thread only comes to compute by a `recv`, with what that call has stored. -/
theorem step_computing {e : Event} (h : step s e = some s') {t' : Thread} (ht : t' ∈ s'.threads)
    {received : List Char} (hp : t'.phase = .compute received) :
    t' ∈ s.threads ∨ ∃ j t, e = .recv j (some received) ∧ s.threads[j]? = some t ∧
      t.phase = .recvBuf := by
  obtain ⟨resultBuffer, rfl⟩ | ⟨j, t, received', rfl, hj, hrecv, rfl⟩ |
    ⟨j, t, received', -, -, -, rfl⟩ | ⟨j, u, log, hu, rfl⟩ := step_cases h
  · rcases List.mem_append.1 ht with ht | ht
    · exact .inl ht
    · obtain rfl := List.mem_singleton.1 ht
      cases hp
  · rcases List.mem_or_eq_of_mem_set ht with ht | rfl
    · exact .inl ht
    · obtain rfl := Phase.compute.inj hp
      exact .inr ⟨j, t, rfl, hj, hrecv⟩
  · rcases List.mem_or_eq_of_mem_set ht with ht | rfl
    · exact .inl ht
    · cases hp
  · rcases List.mem_or_eq_of_mem_set ht with ht | rfl
    · exact .inl ht
    · exact absurd hp (hu received)

end OsLabs.SeatClient
