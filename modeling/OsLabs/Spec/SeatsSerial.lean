import OsLabs.Lib.Points
import OsLabs.Spec.SelectReplies

/-! The seat servers with many clients beside the same buffer with one client at a time. -/

namespace OsLabs.Seats

inductive Ask
  | read
  | write (idx : ℤ)
  deriving DecidableEq

inductive Answer
  | buf (buffer : List Char)
  | reply (reply : Reply)
  deriving DecidableEq

theorem toNat_lt {idx : ℤ} (h : 0 ≤ idx ∧ idx < SHM_BUFFER_SIZE) :
    idx.toNat < SHM_BUFFER_SIZE := by
  omega

/-- `reader` and `writer` with nobody else at the buffer. -/
def serveAlone (v : Server) (shmBuf : Fin SHM_BUFFER_SIZE → Char) :
    Ask → (Fin SHM_BUFFER_SIZE → Char) × Answer
  | .read => (shmBuf, .buf (List.ofFn shmBuf))
  | .write idx =>
    if h : 0 ≤ idx ∧ idx < SHM_BUFFER_SIZE then
      let cell : Fin SHM_BUFFER_SIZE := ⟨idx.toNat, toNat_lt h⟩
      if shmBuf cell = '-' then (shmBuf, .reply (.error occupiedText))
      else (Function.update shmBuf cell '-', .reply (.symbol (shmBuf cell)))
    else (shmBuf, .reply (.error (badIndexText v)))

/-- The step with which handler `k` has its answer: a writer's test of the index when that is
outside of the buffer, otherwise its test of the symbol, and a reader's `send`. -/
def point (v : Server) (s : State) : Event → Option ((ℕ × Ask) × Answer)
  | .run k => do
    let h ← s.handlers[k]?
    match h.phase with
    | .load idx =>
      if 0 ≤ idx ∧ idx < SHM_BUFFER_SIZE then none
      else some ((k, .write idx), .reply (.error (badIndexText v)))
    | .store idx _ ch =>
      some ((k, .write idx), .reply (if ch = '-' then .error occupiedText else .symbol ch))
    | .sendBuf buffer => some ((k, .read), .buf buffer)
    | .recvOp | .recvIdx | .startWrite _ | .send _ _ | .stopWrite | .startRead | .copy _
    | .stopRead | .done => none
  | .accept | .recvOp _ _ | .recvIdx _ _ | .fail _ => none

/-- A writer finds the cell as it has read it when it stores. -/
def Fresh (s : State) (e : Event) : Prop :=
  ∀ k h idx cell ch, e = .run k → s.handlers[k]? = some h → h.phase = .store idx cell ch →
    s.shmBuf cell = ch

/-- The bytes that handler `k` took for its request: those its client sent, or what was on its
stack where `recv` returned 0. -/
def Asked (tr : List (State × Event)) (k : ℕ) : Ask → Prop
  | .read => ∃ s, (s, .recvOp k (some 'r')) ∈ tr
  | .write idx => ∃ s i, (s, .recvIdx k (some i)) ∈ tr ∧ i.toInt = idx

def State.answered (s : State) (k : ℕ) : Prop :=
  (∃ reply, (k, reply) ∈ s.sent) ∨ ∃ buffer, (k, buffer) ∈ s.sentBuf

/-! The same clients at the server with `select`. -/

/-- The same index, or none, for the other server. -/
def Ask.request : Ask → SelectServer.Request
  | .read => ⟨some 'r', none⟩
  | .write idx => ⟨some 'w', some (Int8.ofInt idx)⟩

def Ask.InRange : Ask → Prop
  | .read => True
  | .write idx => 0 ≤ idx ∧ idx < SHM_BUFFER_SIZE

instance : ∀ a, Decidable (Ask.InRange a)
  | .read => inferInstanceAs (Decidable True)
  | .write _ => inferInstanceAs (Decidable (_ ∧ _))

def sale (p : (ℕ × Ask) × Answer) : Option (ℤ × Char) :=
  match p.1.2, p.2 with
  | .write idx, .reply (.symbol ch) => some (idx, ch)
  | _, _ => none

end OsLabs.Seats
