import OsLabs.Sanity.SeatsBooks

/-! Locks of the seat servers. `SEM_ACTIVE_READERS` and `SEM_ACTIVE_WRITER` count
the start calls without a stop call, so a handler that returns early leaves its
count behind for good. -/

namespace OsLabs.Seats

/-- The invariant of the runs that leave no lock behind: a handler that is through has made as
many stop calls as start calls. -/
def Clear (s : State) : Prop := Accounts (fun locks unlocks => unlocks = locks) s

theorem clear_init : Clear init := accounts_init

variable {v : Server} {s s' : State} {e : Event}

theorem clear_step (hc : Clear s) (ho : Orderly s e) (hs : step v s e = some s') : Clear s' :=
  accounts_step hc rfl rfl (.inr ho) hs

theorem sem_eq_zero (hc : Clear s) (hd : ∀ h ∈ s.handlers, h.phase = .done) (i : Sem) :
    s.sem i = 0 := by
  have hz : held hold s.handlers i = 0 := by
    refine List.sum_eq_zero fun x hx => ?_
    obtain ⟨h, hh, rfl⟩ := List.mem_map.1 hx
    have hok := hc.ok h hh
    simp only [Handler.OkWith, hd h hh] at hok
    cases i <;> simp [hold, hok]
  have hb : (s.sem i : ℤ) + held hold s.handlers i = 0 := hc.balance i
  omega

theorem Clear.released (hc : Clear s) : Released s := by
  refine ⟨fun h hh hp => ?_, fun hd => ?_⟩
  · have hok := hc.ok h hh
    simpa only [Handler.OkWith, hp] using hok
  · have hz : s.sem = fun _ => 0 := funext (sem_eq_zero hc hd)
    refine ⟨sem_eq_zero hc hd _, sem_eq_zero hc hd _, ?_⟩
    rw [hz]
    simp only [startRead, SEM_V, SEM_P, semop_cons_done, semop_nil_done, SEMVMX]
    simp

/-- A handler that returns early with the lock taken never gives it back. -/
theorem not_released (hc : Clear s) (ho : ¬ Orderly s e) (hs : step v s e = some s') :
    ¬ Released s' := by
  simp only [Orderly, not_forall] at ho
  obtain ⟨k, h, hk, ho⟩ := ho
  rw [not_and_or] at ho
  have hok := hc.ok h (List.mem_of_getElem? hk)
  have hlt : k < s.handlers.length := (List.getElem?_eq_some_iff.1 hk).1
  -- in both cases handler `k` is through with one start call and no stop call
  suffices hx : h.locks = 1 ∧ h.unlocks = 0 ∧
      s'.handlers = s.handlers.set k { h with phase := .done } by
    obtain ⟨hl, hu, hh⟩ := hx
    intro hrel
    have := hrel.1 { h with phase := .done } (by rw [hh]; exact List.mem_set hlt _) rfl
    simp [hl, hu] at this
  rcases ho with hbad | hin
  · simp only [not_forall] at hbad
    obtain ⟨idx, reply, rfl, hp, hbad⟩ := hbad
    simp only [Handler.OkWith, hp] at hok
    simp only [step, hk, Option.bind_eq_bind, Option.bind_some, run, hp] at hs
    obtain rfl := Option.some.inj hs
    exact ⟨hok.2.1, hok.2.2, by simp [State.goto, if_neg hbad]⟩
  · simp only [Classical.not_imp, not_and_or] at hin
    obtain ⟨rfl, hin⟩ := hin
    simp only [step, hk, Option.bind_eq_bind, Option.bind_some] at hs
    obtain ⟨rfl, hne⟩ := fail_cases hs
    refine ⟨?_, ?_, rfl⟩ <;>
      cases hp : h.phase <;> simp_all [Handler.OkWith, Phase.writing, Phase.reading]

/-- In every state of a run the finished handlers have released their locks, and
an idle server is free, exactly when each reply of the run was for an index in
range and no `send` and no stop call failed. -/
theorem released_iff_orderly (v : Server) {tr : List (State × Event)} {s : State}
    (h : Run (step v) init tr s) : Always Released tr s ↔ EachStep Orderly tr :=
  h.always_iff clear_init (fun _ => Clear.released) (fun _ _ _ => clear_step)
    fun _ _ _ => not_released

def badIndex : List Event :=
  [.accept, .recvOp 0 (some 'w'), .recvIdx 0 (some (-1)), .run 0, .run 0, .run 0]

theorem released_fails :
    ¬ ∀ (v : Server) (tr : List (State × Event)) (s : State),
      Run (step v) init tr s → Released s := by
  intro h
  have hr := h .pthread _ _ (run_of_isSome init badIndex (by decide))
  exact absurd (hr.1 ⟨.writer, .done, 1, 0⟩ (by decide) rfl) (by decide)

theorem released_iff_orderly_badIndex :
    Always Released (trace (step .fork) init badIndex)
        ((exec (step .fork) init badIndex).get (by decide)) ↔
      EachStep Orderly (trace (step .fork) init badIndex) :=
  released_iff_orderly .fork (run_of_isSome init badIndex (by decide))

end OsLabs.Seats
