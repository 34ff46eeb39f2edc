import OsLabs.Spec.Seats

/-! The client of the seat servers, `lab-socket/task-05/client.c` (`task-06` has the same
one), and the system of its threads and the threaded server. The threads share the
global `first_unoccupied_idx`. -/

namespace OsLabs.SeatClient

def SHM_BUFFER_SIZE : ℕ := 52
def STR_BUFFER_SIZE : ℕ := 255

def NUL : Char := Char.ofNat 0

def letters : List Char := "abcdefghijklmnopqrstuvwxyzABCDEFGHIJKLMNOPQRSTUVWXYZ".toList

def cString (buffer : List Char) : List Char := buffer.takeWhile (· != NUL)

/-- `strpbrk` over the letters. -/
def findFirstUnoccupiedIndex (buffer : List Char) : ℤ :=
  match (cString buffer).findIdx? (letters.contains ·) with
  | some pos => pos
  | none => -1

/-- The next statement of a thread, with the locals it needs. -/
inductive Phase
  /-- the head of the loop, `socket` and `connect` -/
  | connect
  /-- `send` of `'r'` -/
  | sendReader
  /-- `recv` into a `buffer` that is all zero -/
  | recvBuf
  /-- the store to `first_unoccupied_idx`; `received` is what `recv` stored -/
  | compute (received : List Char)
  /-- `close`, `socket` and `connect` -/
  | reconnect
  /-- `send` of `'w'` -/
  | sendWriter
  /-- `send` of the byte that is in `first_unoccupied_idx` by then -/
  | sendIdx
  /-- `recv` into `result_buffer` -/
  | recvResult
  /-- the test that lets a line be logged, which reads the global again -/
  | logTest
  | done
  deriving DecidableEq

/-- A thread. `sockFd` is the number of its connection, `resultBuffer` the array, which
nothing initialises. -/
structure Thread where
  phase : Phase
  sockFd : ℕ
  resultBuffer : List Char
  deriving DecidableEq

/-- The threads, what they share, and the threads that have logged a line, newest last. -/
structure State where
  firstUnoccupiedIdx : Int8
  threads : List Thread
  log : List ℕ

def init : State := ⟨0, [], []⟩

/-- `spawn` is `pthread_create`, with what is on the new stack. The calls of thread `j`
carry what the system answers: the connection made, whether the `send` went through, the
bytes received; `none` and `false` are a call that returns -1. `run` is any other
statement, `quit` the end of the loop. -/
inductive Event
  | spawn (resultBuffer : List Char)
  | connect (j : ℕ) (sockFd : Option ℕ)
  | send (j : ℕ) (ok : Bool)
  | recv (j : ℕ) (bytes : Option (List Char))
  | run (j : ℕ)
  | quit (j : ℕ)

def State.goto (s : State) (j : ℕ) (t : Thread) (ph : Phase) : State :=
  { s with threads := s.threads.set j { t with phase := ph } }

def overwrite (array bytes : List Char) : List Char := bytes ++ array.drop bytes.length

def connect (s : State) (j : ℕ) (t : Thread) (ph : Phase) : Option ℕ → State
  | some sockFd => { s with threads := s.threads.set j { t with phase := ph, sockFd } }
  | none => s.goto j t .done

def step (s : State) : Event → Option State
  | .spawn resultBuffer => some { s with threads := s.threads ++ [⟨.connect, 0, resultBuffer⟩] }
  | .connect j sockFd => do
    let t ← s.threads[j]?
    match t.phase with
    | .connect => some (connect s j t .sendReader sockFd)
    | .reconnect => some (connect s j t .sendWriter sockFd)
    | _ => none
  | .send j ok => do
    let t ← s.threads[j]?
    match t.phase with
    | .sendReader => some (s.goto j t (if ok then .recvBuf else .done))
    | .sendWriter => some (s.goto j t (if ok then .sendIdx else .done))
    | .sendIdx => some (s.goto j t (if ok then .recvResult else .done))
    | _ => none
  | .recv j bytes => do
    let t ← s.threads[j]?
    match t.phase, bytes with
    | .recvBuf, some received => some (s.goto j t (.compute received))
    | .recvResult, some received =>
      let resultBuffer := overwrite t.resultBuffer received
      some { s with threads := s.threads.set j { t with phase := .logTest, resultBuffer } }
    | .recvBuf, none | .recvResult, none => some (s.goto j t .done)
    | _, _ => none
  | .run j => do
    let t ← s.threads[j]?
    match t.phase with
    | .compute received =>
      let buffer := overwrite (List.replicate (SHM_BUFFER_SIZE + 1) NUL) received
      some { s.goto j t .reconnect with
        firstUnoccupiedIdx := Int8.ofInt (findFirstUnoccupiedIndex buffer) }
    | .logTest =>
      if s.firstUnoccupiedIdx ≥ 0 ∧ (cString t.resultBuffer).length = 1 then
        some { s.goto j t .connect with log := s.log ++ [j] }
      else some (s.goto j t .connect)
    | _ => none
  | .quit j => do
    let t ← s.threads[j]?
    if t.phase = .connect then some (s.goto j t .done) else none

/-! ### With the server -/

/-- A connection: the bytes its client has sent, and whether the client's end is closed.
The `k`-th connection is the one of the server's handler `k`. -/
structure Conn where
  op : Option Char
  idx : Option Int8
  closed : Bool
  deriving DecidableEq

/-- The byte that a thread's `send` leaves in its connection. -/
def Conn.sent (c : Conn) (firstUnoccupiedIdx : Int8) : Phase → Conn
  | .sendReader => { c with op := some 'r' }
  | .sendWriter => { c with op := some 'w' }
  | .sendIdx => { c with idx := some firstUnoccupiedIdx }
  | _ => c

def Conn.close (c : Conn) : Conn := { c with closed := true }

structure System where
  server : Seats.State
  client : State
  conns : List Conn

namespace System

def init : System := ⟨Seats.init, SeatClient.init, []⟩

inductive Event
  | server (e : Seats.Event)
  | client (e : SeatClient.Event)

/-- What the server's calls on a connection may answer. A `recv` fails, gives the byte
sent, or, after the client has closed without sending it, leaves the variable as it
happens to be. -/
def serverAllows (s : System) : Seats.Event → Prop
  | .accept => s.server.handlers.length < s.conns.length
  | .recvOp k (some op) => ∃ c ∈ s.conns[k]?, c.op = some op ∨ c.op = none ∧ c.closed
  | .recvIdx k (some idx) => ∃ c ∈ s.conns[k]?, c.idx = some idx ∨ c.idx = none ∧ c.closed
  | .recvOp _ none | .recvIdx _ none | .run _ | .fail _ => True

/-- What the client may receive on connection `k`: the first part of the buffer sent, or
nothing from a handler that has closed the connection without sending it. -/
def ReceivesBuf (s : System) (k : ℕ) (bytes : List Char) : Prop :=
  bytes ≠ [] ∧ bytes.length ≤ SHM_BUFFER_SIZE ∧ (∃ p ∈ s.server.sentBuf, p.1 = k ∧ bytes <+: p.2) ∨
    bytes = [] ∧ (∀ p ∈ s.server.sentBuf, p.1 ≠ k) ∧
      ∃ h ∈ s.server.handlers[k]?, h.phase = .done

/-- A reply as the server's `buffer` holds it, all of which is sent. -/
def replyBytes : Seats.Reply → List Char
  | .error text => text.toList ++ List.replicate (STR_BUFFER_SIZE - text.length) NUL
  | .symbol ch => ch :: List.replicate (STR_BUFFER_SIZE - 1) NUL

/-- The same for the reply to a writer. -/
def ReceivesReply (s : System) (k : ℕ) (bytes : List Char) : Prop :=
  bytes ≠ [] ∧ (∃ p ∈ s.server.sent, p.1 = k ∧ bytes <+: replyBytes p.2) ∨
    bytes = [] ∧ (∀ p ∈ s.server.sent, p.1 ≠ k) ∧ ∃ h ∈ s.server.handlers[k]?, h.phase = .done

def Receives (s : System) (t : Thread) (bytes : List Char) : Prop :=
  match t.phase with
  | .recvBuf => s.ReceivesBuf t.sockFd bytes
  | .recvResult => s.ReceivesReply t.sockFd bytes
  | _ => False

def clientAllows (s : System) : SeatClient.Event → Prop
  | .connect _ (some sockFd) => sockFd = s.conns.length
  | .recv j (some bytes) => ∃ t ∈ s.client.threads[j]?, s.Receives t bytes
  | .spawn _ | .connect _ none | .send _ _ | .recv _ none | .run _ | .quit _ => True

instance (s : System) (k : ℕ) (bytes : List Char) : Decidable (s.ReceivesBuf k bytes) := by
  unfold ReceivesBuf
  infer_instance

instance (s : System) (k : ℕ) (bytes : List Char) : Decidable (s.ReceivesReply k bytes) := by
  unfold ReceivesReply
  infer_instance

instance (s : System) (t : Thread) (bytes : List Char) : Decidable (s.Receives t bytes) := by
  unfold Receives
  split <;> infer_instance

instance (s : System) (e : Seats.Event) : Decidable (s.serverAllows e) := by
  unfold serverAllows
  split <;> infer_instance

instance (s : System) (e : SeatClient.Event) : Decidable (s.clientAllows e) := by
  unfold clientAllows
  split <;> infer_instance

/-- The connections after a client's call. A thread closes the one it has before it
connects again, after the reply, and whenever a call on it fails. -/
def connsAfter (s : System) : SeatClient.Event → List Conn
  | .connect j sockFd =>
    let left := match s.client.threads[j]? with
      | some t => if t.phase = .reconnect then s.conns.modify t.sockFd Conn.close else s.conns
      | none => s.conns
    match sockFd with
    | some _ => left ++ [⟨none, none, false⟩]
    | none => left
  | .send j ok =>
    match s.client.threads[j]? with
    | some t => s.conns.modify t.sockFd fun c =>
      if ok then c.sent s.client.firstUnoccupiedIdx t.phase else c.close
    | none => s.conns
  | .recv j bytes =>
    match s.client.threads[j]? with
    | some t =>
      if t.phase = .recvResult ∨ bytes = none then s.conns.modify t.sockFd Conn.close
      else s.conns
    | none => s.conns
  | .spawn _ | .run _ | .quit _ => s.conns

def step (s : System) : Event → Option System
  | .server e =>
    if s.serverAllows e then (Seats.step .pthread s.server e).map fun server => { s with server }
    else none
  | .client e =>
    if s.clientAllows e then
      (SeatClient.step s.client e).map fun client => ⟨s.server, client, s.connsAfter e⟩
    else none

/-- A thread that goes on to compute has received all 52 characters. -/
def WholeSnapshot (s : System) (e : Event) : Prop :=
  ∀ j t received, e = .client (.run j) → s.client.threads[j]? = some t →
    t.phase = .compute received → received.length = SHM_BUFFER_SIZE

def SendsMinusOne (s : System) (e : Event) : Prop :=
  ∃ j t, e = .client (.send j true) ∧ s.client.threads[j]? = some t ∧ t.phase = .sendIdx ∧
    s.client.firstUnoccupiedIdx = -1

def SoldOut (s : System) : Prop := ∀ cell, s.server.shmBuf cell = '-'

end System

end OsLabs.SeatClient
