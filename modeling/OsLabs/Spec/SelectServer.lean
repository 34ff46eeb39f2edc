import OsLabs.Spec.SeatClient

/-! The seat server that serves its clients one after the other,
`lab-socket/task-06/server.c`: its `select` loop, and the table of descriptors the loop works
on. -/

namespace OsLabs.SelectServer

open Seats (SHM_BUFFER_SIZE shmInit)
open SeatClient (STR_BUFFER_SIZE NUL cString overwrite)

def OP_READER : Char := 'r'
def OP_WRITER : Char := 'w'

abbrev Cells := Fin SHM_BUFFER_SIZE → Char

/-- `snprintf` into the local array, whose other bytes stay what they were. -/
def snprintf (buffer : List Char) (size : ℕ) (text : List Char) : List Char :=
  overwrite buffer (text.take (size - 1) ++ [NUL])

/-- What a service has done: the bytes it sent, how often it called `recv` and `close`, and
whether it raised `SIGINT`. -/
structure Served where
  shmBuf : Cells
  sent : List (List Char)
  recvs : ℕ
  closes : ℕ
  raised : Bool

/-- `buffer` is the array on the stack. Gives the shared buffer, what is sent, and whether
`SIGINT` is raised. -/
def writer (shmBuf : Cells) (idx : ℤ) (buffer : List Char) : Cells × List Char × Bool :=
  if h : idx < 0 ∨ idx ≥ SHM_BUFFER_SIZE then
    (shmBuf, (snprintf buffer SHM_BUFFER_SIZE "buffer empty".toList).take SHM_BUFFER_SIZE, true)
  else
    let i : Fin SHM_BUFFER_SIZE := ⟨idx.toNat, by omega⟩
    let ch := shmBuf i
    if ch = '-' then
      (shmBuf, (snprintf buffer STR_BUFFER_SIZE "Symbol occupied".toList).take STR_BUFFER_SIZE,
        false)
    else
      (Function.update shmBuf i '-', (snprintf buffer STR_BUFFER_SIZE [ch]).take STR_BUFFER_SIZE,
        false)

/-- `strncpy` into an array of zeros. -/
def reader (shmBuf : Cells) : List Char :=
  (overwrite (List.replicate (SHM_BUFFER_SIZE + 1) NUL) (cString (List.ofFn shmBuf))).take
    SHM_BUFFER_SIZE

/-- `op` and `idx` are what the two calls of `recv` give, `none` where nothing comes. -/
def clientService (shmBuf : Cells) (op : Option Char) (idx : Option Int8) (buffer : List Char) :
    Served :=
  match op with
  | none => ⟨shmBuf, [], 1, 1, false⟩
  | some op =>
    if op = OP_READER then ⟨shmBuf, [reader shmBuf], 1, 1, false⟩
    else if op = OP_WRITER then
      match idx with
      | none => ⟨shmBuf, [], 2, 2, false⟩
      | some idx =>
        let (shmBuf, sent, raised) := writer shmBuf idx.toInt buffer
        ⟨shmBuf, [sent], 2, 1, raised⟩
    else ⟨shmBuf, [], 1, 1, false⟩

/-- What a descriptor stands for: the connections are numbered as `accept` returns them,
`other` is what the process was started with. -/
inductive File
  | closed
  | listening
  | conn (k : ℕ)
  | other
  deriving DecidableEq

/-- What the loop does with a descriptor, and what this stood for then; `ready` tells
whether it was in `read_fds`. -/
inductive Act
  | accept (ready : Bool)
  | service (fd : ℕ) (file : File) (ready : Bool)
  | recv (fd : ℕ) (file : File)
  | close (fd : ℕ) (file : File)
  deriving DecidableEq

inductive Pc
  /-- the head of the `while` loop -/
  | top
  /-- a turn of the `for` loop -/
  | turn (fd : ℕ)
  | exit
  deriving DecidableEq

structure Server where
  shmBuf : Cells
  loopFlag : Bool
  listenSockFd : ℕ
  masterSet : ℕ → Bool
  readFds : ℕ → Bool
  activeFdCount : ℕ
  pc : Pc
  files : ℕ → File
  accepted : ℕ
  sent : List (ℕ × List Char)
  acts : List Act

namespace Server

/-- When the loop begins. `inherited` are the descriptors the process was started with. -/
def start (listenSockFd : ℕ) (inherited : ℕ → Bool) : Server where
  shmBuf := shmInit
  loopFlag := true
  listenSockFd
  masterSet fd := fd == listenSockFd
  readFds _ := false
  activeFdCount := listenSockFd
  pc := .top
  files fd := if fd = listenSockFd then .listening else if inherited fd then .other else .closed
  accepted := 0
  sent := []
  acts := []

inductive Event
  /-- `select` returns, with the descriptors that are ready, or -1 -/
  | select (ready : Option (List ℕ))
  /-- `accept` returns -/
  | accept (connectSockFd : Option ℕ)
  /-- `client_service` is called; `buffer` is the array of `writer` -/
  | service (op : Option Char) (idx : Option Int8) (buffer : List Char)
  | sigint
  /-- `loop_flag` is found to be 0 -/
  | leave

def sigHandler (s : Server) : Server :=
  { s with loopFlag := false, files := Function.update s.files s.listenSockFd .closed }

def nextTurn (s : Server) (fd : ℕ) : Server :=
  { s with pc := if fd + 1 ≤ s.activeFdCount then .turn (fd + 1) else .top }

/-- The first `close` of a service closes the descriptor, another one finds it closed. -/
def serviceActs (fd : ℕ) (file : File) (ready : Bool) (r : Served) : List Act :=
  .service fd file ready :: List.replicate r.recvs (.recv fd file) ++
    .close fd file :: List.replicate (r.closes - 1) (.close fd .closed)

def step (s : Server) : Event → Option Server
  | .select ready =>
    if s.pc = .top ∧ s.loopFlag then
      match ready with
      | none => some { s with pc := .exit }
      | some ready =>
        if ready ≠ [] ∧ ∀ fd ∈ ready, s.masterSet fd then
          some { s with readFds := fun fd => ready.contains fd, pc := .turn 0 }
        else none
    else none
  | .accept connectSockFd =>
    if s.pc = .turn s.listenSockFd then
      let s := { s with acts := s.acts ++ [Act.accept (s.readFds s.listenSockFd)] }
      match connectSockFd with
      | none => some (s.nextTurn s.listenSockFd)
      | some fd =>
        -- the lowest number that is free
        if s.files s.listenSockFd = .listening ∧ s.files fd = .closed ∧
            ∀ fd' < fd, s.files fd' ≠ .closed then
          some ({ s with
            masterSet := Function.update s.masterSet fd true
            activeFdCount := if fd > s.activeFdCount then fd else s.activeFdCount
            files := Function.update s.files fd (.conn s.accepted)
            accepted := s.accepted + 1 } |>.nextTurn s.listenSockFd)
        else none
    else none
  | .service op idx buffer =>
    match s.pc with
    | .turn fd =>
      if fd ≠ s.listenSockFd ∧ buffer.length = STR_BUFFER_SIZE ∧
          (s.files fd = .closed → op = none) then
        let r := clientService s.shmBuf op idx buffer
        let s := if r.raised then s.sigHandler else s
        some ({ s with
          shmBuf := r.shmBuf
          sent := s.sent ++ r.sent.map (fd, ·)
          masterSet := Function.update s.masterSet fd false
          files := Function.update s.files fd .closed
          acts := s.acts ++ serviceActs fd (s.files fd) (s.readFds fd) r } |>.nextTurn fd)
      else none
    | _ => none
  | .sigint => if s.pc ≠ .exit then some s.sigHandler else none
  | .leave => if s.pc = .top ∧ !s.loopFlag then some { s with pc := .exit } else none

def served (s : Server) (k : ℕ) : ℕ :=
  s.acts.countP fun
    | .service _ file _ => file == .conn k
    | _ => false

def closes (s : Server) (k : ℕ) : ℕ :=
  s.acts.countP fun
    | .close _ file => file == .conn k
    | _ => false

/-- The loop serves open connections that are ready, each once, and closes each as often as
it serves it; it calls `accept` when that is ready, and it reads and closes nothing else. -/
structure Discipline (s : Server) : Prop where
  service : ∀ fd file (ready : Bool),
    .service fd file ready ∈ s.acts → (∃ k, file = .conn k) ∧ ready
  accept : ∀ ready : Bool, .accept ready ∈ s.acts → ready
  once : ∀ k, s.served k ≤ 1 ∧ s.closes k = s.served k
  own : ∀ fd file, .recv fd file ∈ s.acts ∨ .close fd file ∈ s.acts → ∃ k, file = .conn k

def AtListening (s : Server) : Event → Prop
  | .accept _ | .service _ _ _ => s.pc = .turn s.listenSockFd
  | .select _ | .sigint | .leave => True

end Server

end OsLabs.SelectServer
