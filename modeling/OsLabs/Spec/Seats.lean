import OsLabs.Lib.Run
import OsLabs.Lib.Semop
import Mathlib.Data.List.Count

/-! The concurrent seat servers, `lab-socket/task-05/server.c` (one thread a
client) and `lab-socket/task-04/server.c` (one forked process a client). Both
hand out the 52 letters of a shared buffer under the same four operation lists;
the functions `writer` and `reader` differ in one error text and in leaving by
`return` or by `exit`, after either of which the handler takes no further step. -/

namespace OsLabs.Seats

inductive Sem
  | SEM_WAITING_READERS
  | SEM_ACTIVE_READERS
  | SEM_ACTIVE_WRITER
  | SEM_WAITING_WRITERS
  deriving DecidableEq

def SEM_P : ℤ := -1
def SEM_V : ℤ := 1

def startRead : List (Sembuf Sem) :=
  [⟨.SEM_WAITING_READERS, SEM_V⟩, ⟨.SEM_ACTIVE_WRITER, 0⟩, ⟨.SEM_WAITING_WRITERS, 0⟩,
    ⟨.SEM_WAITING_READERS, SEM_P⟩, ⟨.SEM_ACTIVE_READERS, SEM_V⟩]

def stopRead : List (Sembuf Sem) := [⟨.SEM_ACTIVE_READERS, SEM_P⟩]

def startWrite : List (Sembuf Sem) :=
  [⟨.SEM_WAITING_WRITERS, SEM_V⟩, ⟨.SEM_ACTIVE_READERS, 0⟩, ⟨.SEM_ACTIVE_WRITER, SEM_V⟩,
    ⟨.SEM_WAITING_WRITERS, SEM_P⟩]

def stopWrite : List (Sembuf Sem) := [⟨.SEM_ACTIVE_WRITER, SEM_P⟩]

def SHM_BUFFER_SIZE : ℕ := 52

inductive Server
  | pthread
  | fork
  deriving DecidableEq

def badIndexText : Server → String
  | .pthread => "error: the selected index is occupied."
  | .fork => "error: buffer empty."

def occupiedText : String := "error: the selected symbol is occupied."

/-- What a writer's client is sent: an error text or the one symbol. -/
inductive Reply
  | error (text : String)
  | symbol (ch : Char)
  deriving DecidableEq

/-- The request byte, once `handle_client` has read it. -/
inductive Op
  | none
  | reader
  | writer
  deriving DecidableEq

/-- The next statement of a handler, with the locals it needs. -/
inductive Phase
  /-- `recv` of the request byte -/
  | recvOp
  /-- `recv` of the index byte -/
  | recvIdx
  | startWrite (idx : ℤ)
  /-- the index test, and the load of `shm_buf[idx]` when it passes -/
  | load (idx : ℤ)
  /-- the test of the symbol read, and the store of `'-'` when it is free -/
  | store (idx : ℤ) (cell : Fin SHM_BUFFER_SIZE) (ch : Char)
  | send (idx : ℤ) (reply : Reply)
  | stopWrite
  | startRead
  /-- `strncpy` cell by cell; `buffer` is what was copied so far -/
  | copy (buffer : List Char)
  | sendBuf (buffer : List Char)
  | stopRead
  | done
  deriving DecidableEq

/-- A handler. `locks` and `unlocks` count its start and stop calls that went
through. -/
structure Handler where
  op : Op
  phase : Phase
  locks : ℕ
  unlocks : ℕ
  deriving DecidableEq

/-- The shared memory and what was sent, each item with its handler, newest last. -/
structure State where
  sem : Sem → ℕ
  shmBuf : Fin SHM_BUFFER_SIZE → Char
  handlers : List Handler
  sent : List (ℕ × Reply)
  sentBuf : List (ℕ × List Char)

/-- `main` fills the buffer with `'a'` to `'z'` and then `'A'` to `'Z'`. -/
def shmInit (i : Fin SHM_BUFFER_SIZE) : Char :=
  if i.val < 26 then Char.ofNat (97 + i.val) else Char.ofNat (65 + (i.val - 26))

def init : State := ⟨fun _ => 0, shmInit, [], [], []⟩

/-- `accept` starts a handler. `recvOp` and `recvIdx` are its two `recv` calls, with the byte
that the variable holds then, or `none` for a call that fails: it is the byte received, or
any where the call returns 0, since neither variable was set before. `run k` is the next
statement of handler `k`, going through; `fail k` is the `semop` or the `send` it
stands at returning -1. -/
inductive Event
  | accept
  | recvOp (k : ℕ) (op : Option Char)
  | recvIdx (k : ℕ) (idx : Option Int8)
  | run (k : ℕ)
  | fail (k : ℕ)

def State.goto (s : State) (k : ℕ) (h : Handler) (ph : Phase) : State :=
  { s with handlers := s.handlers.set k { h with phase := ph } }

def State.lock (s : State) (k : ℕ) (h : Handler) (sem : Sem → ℕ) (ph : Phase) : State :=
  { s with sem := sem, handlers := s.handlers.set k { h with phase := ph, locks := h.locks + 1 } }

def State.unlock (s : State) (k : ℕ) (h : Handler) (sem : Sem → ℕ) : State :=
  { s with
    sem := sem
    handlers := s.handlers.set k { h with phase := .done, unlocks := h.unlocks + 1 } }

/-- `handle_client` after its first `recv`. An operation byte that is neither is
an error, and the handler ends. -/
def dispatch (h : Handler) : Option Char → Handler
  | none => { h with phase := .done }
  | some 'r' => { h with op := .reader, phase := .startRead }
  | some 'w' => { h with op := .writer, phase := .recvIdx }
  | some _ => { h with phase := .done }

/-- `handle_client` after its second `recv`: the `char` is passed on as an `int`. -/
def dispatchIdx (h : Handler) : Option Int8 → Handler
  | none => { h with phase := .done }
  | some idx => { h with phase := .startWrite idx.toInt }

/-- `strncpy` reads the next cell; a NUL ends the reading and fills the rest. -/
def copyNext (shmBuf : Fin SHM_BUFFER_SIZE → Char) (buffer : List Char) : Phase :=
  if h : buffer.length < SHM_BUFFER_SIZE then
    if shmBuf ⟨buffer.length, h⟩ = Char.ofNat 0 then
      .sendBuf (buffer ++ List.replicate (SHM_BUFFER_SIZE - buffer.length) (Char.ofNat 0))
    else .copy (buffer ++ [shmBuf ⟨buffer.length, h⟩])
  else .sendBuf buffer

def run (v : Server) (s : State) (k : ℕ) (h : Handler) : Option State :=
  match h.phase with
  | .startWrite idx => (semop s.sem startWrite).result.map fun sem => s.lock k h sem (.load idx)
  | .load idx =>
    if hi : 0 ≤ idx ∧ idx < SHM_BUFFER_SIZE then
      let cell : Fin SHM_BUFFER_SIZE := ⟨idx.toNat, by omega⟩
      some (s.goto k h (.store idx cell (s.shmBuf cell)))
    -- the forked server raises SIGINT first, which only reaches the child's own
    -- loop flag and its closed copy of the listening socket
    else some (s.goto k h (.send idx (.error (badIndexText v))))
  | .store idx cell ch =>
    if ch = '-' then some (s.goto k h (.send idx (.error occupiedText)))
    else some { s.goto k h (.send idx (.symbol ch)) with
      shmBuf := Function.update s.shmBuf cell '-' }
  | .send idx reply =>
    -- with an index out of range the function returns after this `send`
    some { s.goto k h (if 0 ≤ idx ∧ idx < SHM_BUFFER_SIZE then .stopWrite else .done) with
      sent := s.sent ++ [(k, reply)] }
  | .stopWrite => (semop s.sem stopWrite).result.map fun sem => s.unlock k h sem
  | .startRead => (semop s.sem startRead).result.map fun sem => s.lock k h sem (.copy [])
  | .copy buffer => some (s.goto k h (copyNext s.shmBuf buffer))
  | .sendBuf buffer => some { s.goto k h .stopRead with sentBuf := s.sentBuf ++ [(k, buffer)] }
  | .stopRead => (semop s.sem stopRead).result.map fun sem => s.unlock k h sem
  | .recvOp | .recvIdx | .done => none

/-- The system call handler `k` stands at returns -1: the function gives up. -/
def fail (s : State) (k : ℕ) (h : Handler) : Option State :=
  match h.phase with
  | .startWrite _ | .send _ _ | .stopWrite | .startRead | .sendBuf _ | .stopRead =>
    some (s.goto k h .done)
  | .recvOp | .recvIdx | .load _ | .store _ _ _ | .copy _ | .done => none

def step (v : Server) (s : State) : Event → Option State
  | .accept => some { s with handlers := s.handlers ++ [⟨.none, .recvOp, 0, 0⟩] }
  | .recvOp k op => do
    let h ← s.handlers[k]?
    if h.phase = .recvOp then some { s with handlers := s.handlers.set k (dispatch h op) } else none
  | .recvIdx k idx => do
    let h ← s.handlers[k]?
    if h.phase = .recvIdx then some { s with handlers := s.handlers.set k (dispatchIdx h idx) }
    else none
  | .run k => do
    let h ← s.handlers[k]?
    run v s k h
  | .fail k => do
    let h ← s.handlers[k]?
    fail s k h

def Phase.writing : Phase → Bool
  | .load _ | .store _ _ _ | .send _ _ | .stopWrite => true
  | .recvOp | .recvIdx | .startWrite _ | .startRead | .copy _ | .sendBuf _ | .stopRead
  | .done => false

def Phase.reading : Phase → Bool
  | .copy _ | .sendBuf _ | .stopRead => true
  | .recvOp | .recvIdx | .startWrite _ | .load _ | .store _ _ _ | .send _ _ | .stopWrite
  | .startRead | .done => false

def writersInside (s : State) : ℕ := s.handlers.countP fun h => h.phase.writing

def timesSent (s : State) (ch : Char) : ℕ := s.sent.countP fun p => p.2 = .symbol ch

/-- At most one writer is inside and no symbol was sold twice. -/
def NoDoubleBooking (s : State) : Prop := writersInside s ≤ 1 ∧ ∀ ch, timesSent s ch ≤ 1

/-- A `start_write` of this step goes through only while no writer is inside. -/
def EntersAlone (s : State) (e : Event) : Prop :=
  ∀ k h idx, e = .run k → s.handlers[k]? = some h → h.phase = .startWrite idx →
    writersInside s = 0

/-- Every handler that is through has released what it took; once all are
through, both counts are zero and the next `start_read` goes through. -/
def Released (s : State) : Prop :=
  (∀ h ∈ s.handlers, h.phase = .done → h.unlocks = h.locks) ∧
    ((∀ h ∈ s.handlers, h.phase = .done) →
      s.sem .SEM_ACTIVE_READERS = 0 ∧ s.sem .SEM_ACTIVE_WRITER = 0 ∧
        ∃ sem, semop s.sem startRead = .done sem)

/-- The step leaves no lock behind: a reply is only sent for an index in range,
and no `send` and no stop call fails. -/
def Orderly (s : State) (e : Event) : Prop :=
  ∀ k h, s.handlers[k]? = some h →
    (∀ (idx : ℤ) (reply : Reply), e = .run k → h.phase = .send idx reply →
      0 ≤ idx ∧ idx < SHM_BUFFER_SIZE) ∧
    (e = .fail k → h.phase.writing = false ∧ h.phase.reading = false)

end OsLabs.Seats
