import Mathlib.Algebra.Order.BigOperators.Group.List
import OsLabs.Sanity.Seats

/-! The books of a seat server: `SEM_ACTIVE_READERS` and `SEM_ACTIVE_WRITER` count the
start calls that no stop call has followed, whatever way the handlers have ended. -/

namespace OsLabs.Seats

/-- What a handler holds: its start calls raise the count of its kind. -/
def hold (h : Handler) : Sem → ℤ
  | .SEM_ACTIVE_READERS => if h.op = .reader then h.unlocks - h.locks else 0
  | .SEM_ACTIVE_WRITER => if h.op = .writer then h.unlocks - h.locks else 0
  | .SEM_WAITING_READERS | .SEM_WAITING_WRITERS => 0

theorem net_startRead (i : Sem) :
    net startRead i = if i = .SEM_ACTIVE_READERS then 1 else 0 := by cases i <;> decide

theorem net_stopRead (i : Sem) :
    net stopRead i = if i = .SEM_ACTIVE_READERS then -1 else 0 := by cases i <;> decide

theorem net_startWrite (i : Sem) :
    net startWrite i = if i = .SEM_ACTIVE_WRITER then 1 else 0 := by cases i <;> decide

theorem net_stopWrite (i : Sem) :
    net stopWrite i = if i = .SEM_ACTIVE_WRITER then -1 else 0 := by cases i <;> decide

/-- The operation and the two counts agree with where the handler stands. `D` says what
the counts of a handler that is through may be. -/
def Handler.OkWith (D : ℕ → ℕ → Prop) (h : Handler) : Prop :=
  match h.phase with
  | .recvOp => h.op = .none ∧ h.locks = 0 ∧ h.unlocks = 0
  | .recvIdx | .startWrite _ => h.op = .writer ∧ h.locks = 0 ∧ h.unlocks = 0
  | .load _ | .store _ _ _ | .send _ _ | .stopWrite =>
    h.op = .writer ∧ h.locks = 1 ∧ h.unlocks = 0
  | .startRead => h.op = .reader ∧ h.locks = 0 ∧ h.unlocks = 0
  | .copy _ | .sendBuf _ | .stopRead => h.op = .reader ∧ h.locks = 1 ∧ h.unlocks = 0
  | .done => D h.locks h.unlocks

structure Accounts (D : ℕ → ℕ → Prop) (s : State) : Prop where
  balance : Balanced hold (fun _ => 0) s.sem s.handlers
  ok : ∀ h ∈ s.handlers, h.OkWith D

variable {D : ℕ → ℕ → Prop} {v : Server} {s s' : State} {e : Event} {k : ℕ} {h : Handler}

theorem accounts_init : Accounts D init where
  balance i := by simp [init]
  ok h hh := by simp [init] at hh

theorem Accounts.set (ha : Accounts D s) {h' : Handler} (hok : h'.OkWith D)
    {sem : Sem → ℕ} (hb : Balanced hold (fun _ => 0) sem (s.handlers.set k h'))
    {m : Fin SHM_BUFFER_SIZE → Char} {r : List (ℕ × Reply)} {b : List (ℕ × List Char)} :
    Accounts D ⟨sem, m, s.handlers.set k h', r, b⟩ := by
  refine ⟨hb, ?_⟩
  intro h hh
  rcases List.mem_or_eq_of_mem_set hh with hh | rfl
  · exact ha.ok h hh
  · exact hok

theorem Accounts.goto (ha : Accounts D s) (hk : s.handlers[k]? = some h) {ph : Phase}
    (hok : ({ h with phase := ph } : Handler).OkWith D)
    {m : Fin SHM_BUFFER_SIZE → Char} {r : List (ℕ × Reply)} {b : List (ℕ × List Char)} :
    Accounts D ⟨s.sem, m, s.handlers.set k { h with phase := ph }, r, b⟩ := by
  refine ha.set hok (ha.balance.move hk ?_)
  intro i
  cases i <;> simp [hold]

/-- A statement that goes through. Only a reply to an index out of range ends the handler
with its lock taken. -/
theorem accounts_run (ha : Accounts D s) (h11 : D 1 1) (hk : s.handlers[k]? = some h)
    (hend : D 1 0 ∨ ∀ (idx : ℤ) (reply : Reply), h.phase = .send idx reply →
      0 ≤ idx ∧ idx < SHM_BUFFER_SIZE)
    (hr : run v s k h = some s') : Accounts D s' := by
  have hok := ha.ok h (List.mem_of_getElem? hk)
  rcases run_cases hr with ⟨idx, sem, hp, hsem, rfl⟩ | ⟨sem, hp, hsem, rfl⟩ |
    ⟨sem, ⟨hp, hsem⟩ | ⟨hp, hsem⟩, rfl⟩ | ⟨idx, cell, hp, rfl⟩ | ⟨idx, text, hp, rfl⟩ |
    ⟨idx, cell, ch, hp, -, rfl⟩ | ⟨idx, reply, hp, rfl⟩ | ⟨buffer, hp, rfl⟩ | ⟨buffer, hp, rfl⟩
  · simp only [Handler.OkWith, hp] at hok
    refine ha.set (by simp [Handler.OkWith, hok]) (ha.balance.semop hsem hk fun i => ?_)
    rw [net_startWrite]
    cases i <;> simp [hold, hok]
  · simp only [Handler.OkWith, hp] at hok
    refine ha.set (by simp [Handler.OkWith, hok]) (ha.balance.semop hsem hk fun i => ?_)
    rw [net_startRead]
    cases i <;> simp [hold, hok]
  · simp only [Handler.OkWith, hp] at hok
    refine ha.set (by simp [Handler.OkWith, hok, h11]) (ha.balance.semop hsem hk fun i => ?_)
    rw [net_stopWrite]
    cases i <;> simp [hold, hok]
  · simp only [Handler.OkWith, hp] at hok
    refine ha.set (by simp [Handler.OkWith, hok, h11]) (ha.balance.semop hsem hk fun i => ?_)
    rw [net_stopRead]
    cases i <;> simp [hold, hok]
  · simp only [Handler.OkWith, hp] at hok
    exact ha.goto hk (by simp [Handler.OkWith, hok])
  · rcases hp with hp | ⟨cell, ch, hp⟩ <;> simp only [Handler.OkWith, hp] at hok <;>
      exact ha.goto hk (by simp [Handler.OkWith, hok])
  · simp only [Handler.OkWith, hp] at hok
    exact ha.goto hk (by simp [Handler.OkWith, hok])
  · simp only [Handler.OkWith, hp] at hok
    apply ha.goto hk
    split_ifs with hidx
    · simp [Handler.OkWith, hok]
    · have h10 := hend.resolve_right fun hin => hidx (hin idx reply hp)
      simpa [Handler.OkWith, hok] using h10
  · simp only [Handler.OkWith, hp] at hok
    rcases copyNext_phase s.shmBuf buffer with ⟨b, hb⟩ | ⟨b, hb⟩ <;> rw [hb] <;>
      exact ha.goto hk (by simp [Handler.OkWith, hok])
  · simp only [Handler.OkWith, hp] at hok
    exact ha.goto hk (by simp [Handler.OkWith, hok])

theorem accounts_step (ha : Accounts D s) (h00 : D 0 0) (h11 : D 1 1)
    (hend : D 1 0 ∨ Orderly s e) (hs : step v s e = some s') : Accounts D s' := by
  rcases step_cases hs with ⟨-, rfl⟩ | ⟨k, h, hk, hs⟩
  · refine ⟨ha.balance.spawn fun i => by cases i <;> rfl, ?_⟩
    intro h hh
    rcases List.mem_append.1 hh with hh | hh
    · exact ha.ok h hh
    · obtain rfl := List.mem_singleton.1 hh
      exact ⟨rfl, rfl, rfl⟩
  have hok := ha.ok h (List.mem_of_getElem? hk)
  rcases hs with ⟨op, -, hp, rfl⟩ | ⟨idx, -, hp, rfl⟩ | ⟨rfl, hr⟩ | ⟨rfl, hf⟩
  · simp only [Handler.OkWith, hp] at hok
    rcases dispatch_phase h op with hd | hd | hd <;> rw [hd]
    · exact ha.goto hk (by simp [Handler.OkWith, hok, h00])
    · exact ha.set (by simp [Handler.OkWith, hok])
        (ha.balance.move hk fun i => by cases i <;> simp [hold, hok])
    · exact ha.set (by simp [Handler.OkWith, hok])
        (ha.balance.move hk fun i => by cases i <;> simp [hold, hok])
  · simp only [Handler.OkWith, hp] at hok
    rcases dispatchIdx_phase h idx with hd | ⟨i, hd⟩ <;> rw [hd]
    · exact ha.goto hk (by simp [Handler.OkWith, hok, h00])
    · exact ha.goto hk (by simp [Handler.OkWith, hok])
  · exact accounts_run ha h11 hk (hend.imp_right fun ho idx reply => (ho k h hk).1 idx reply rfl) hr
  · obtain ⟨rfl, hne⟩ := fail_cases hf
    apply ha.goto hk
    simp only [Handler.OkWith]
    rcases hend with h10 | ho
    · cases hp : h.phase <;> simp_all [Handler.OkWith]
    · obtain ⟨hw, hrd⟩ := (ho k h hk).2 rfl
      cases hp : h.phase <;> simp_all [Handler.OkWith, Phase.writing, Phase.reading]

/-! Any run at all, early returns included. -/

/-- A handler makes one start call and one stop call at most. -/
def Books (s : State) : Prop :=
  Accounts (fun locks unlocks => unlocks ≤ locks ∧ locks ≤ 1) s

theorem books_init : Books init := accounts_init

theorem books_step (hb : Books s) (hs : step v s e = some s') : Books s' :=
  accounts_step hb ⟨le_rfl, Nat.zero_le _⟩ ⟨le_rfl, le_rfl⟩ (.inl ⟨Nat.zero_le _, le_rfl⟩) hs

theorem Books.unlocks_le (hb : Books s) (hh : h ∈ s.handlers) :
    h.unlocks ≤ h.locks ∧ h.locks ≤ 1 := by
  have hok := hb.ok h hh
  unfold Handler.OkWith at hok
  split at hok <;> omega

theorem hold_nonpos (hle : h.unlocks ≤ h.locks) (i : Sem) : hold h i ≤ 0 := by
  cases i with
  | SEM_ACTIVE_READERS =>
    simp only [hold]
    split_ifs <;> omega
  | SEM_ACTIVE_WRITER =>
    simp only [hold]
    split_ifs <;> omega
  | SEM_WAITING_READERS => exact le_rfl
  | SEM_WAITING_WRITERS => exact le_rfl

theorem Books.hold_le (hb : Books s) (hh : h ∈ s.handlers) (i : Sem) : -hold h i ≤ s.sem i := by
  have hsum : -held hold s.handlers i = (s.handlers.map fun h => -hold h i).sum := by
    simp [held, List.sum_neg, Function.comp_def]
  have hle : -hold h i ≤ (s.handlers.map fun h => -hold h i).sum := by
    apply List.single_le_sum
    · intro x hx
      obtain ⟨g, hg, rfl⟩ := List.mem_map.1 hx
      exact Int.neg_nonneg_of_nonpos (hold_nonpos (hb.unlocks_le hg).1 i)
    · exact List.mem_map_of_mem hh
  have hbal : (s.sem i : ℤ) + held hold s.handlers i = 0 := hb.balance i
  omega

/-- Between its `start_read` and its `stop_read`. -/
def Handler.isReading (h : Handler) : Prop := h.op = .reader ∧ h.unlocks < h.locks

def Handler.isWriting (h : Handler) : Prop := h.op = .writer ∧ h.unlocks < h.locks

instance (h : Handler) : Decidable h.isReading := by unfold Handler.isReading; infer_instance

def readersInside (s : State) : ℕ := s.handlers.countP fun h => decide h.isReading

theorem Books.activeReaders_pos (hb : Books s) (hh : h ∈ s.handlers) (hr : h.isReading) :
    0 < s.sem .SEM_ACTIVE_READERS := by
  have hle := hb.hold_le hh .SEM_ACTIVE_READERS
  simp only [hold, if_pos hr.1] at hle
  have := hr.2
  omega

theorem Books.activeReaders_eq (hb : Books s) : s.sem .SEM_ACTIVE_READERS = readersInside s := by
  have hheld : ∀ hs : List Handler, (∀ h ∈ hs, h.unlocks ≤ h.locks ∧ h.locks ≤ 1) →
      held hold hs .SEM_ACTIVE_READERS = -(hs.countP fun h => decide h.isReading : ℕ) := by
    intro hs hle
    induction hs with
    | nil => rfl
    | cons h hs ih =>
      rw [List.forall_mem_cons] at hle
      simp only [held, List.map_cons, List.sum_cons, List.countP_cons, Handler.isReading] at ih ⊢
      rw [ih hle.2]
      simp only [hold]
      split_ifs <;> simp_all <;> omega
  have hbal : (s.sem .SEM_ACTIVE_READERS : ℤ) + held hold s.handlers .SEM_ACTIVE_READERS = 0 :=
    hb.balance _
  rw [hheld _ fun h hh => hb.unlocks_le hh] at hbal
  unfold readersInside
  omega

theorem Books.activeWriter_pos (hb : Books s) (hh : h ∈ s.handlers) (hw : h.isWriting) :
    0 < s.sem .SEM_ACTIVE_WRITER := by
  have hle := hb.hold_le hh .SEM_ACTIVE_WRITER
  simp only [hold, if_pos hw.1] at hle
  have := hw.2
  omega

theorem Books.waitingReaders_eq (hb : Books s) : s.sem .SEM_WAITING_READERS = 0 := by
  have hbal : (s.sem .SEM_WAITING_READERS : ℤ) + held hold s.handlers .SEM_WAITING_READERS = 0 :=
    hb.balance _
  have hz : held hold s.handlers .SEM_WAITING_READERS = 0 := by simp [held, hold]
  omega

theorem Books.waitingWriters_eq (hb : Books s) : s.sem .SEM_WAITING_WRITERS = 0 := by
  have hbal : (s.sem .SEM_WAITING_WRITERS : ℤ) + held hold s.handlers .SEM_WAITING_WRITERS = 0 :=
    hb.balance _
  have hz : held hold s.handlers .SEM_WAITING_WRITERS = 0 := by simp [held, hold]
  omega

end OsLabs.Seats
