import OsLabs.Lib.Population
import OsLabs.Spec.SelectServer

/-! The `accept` loops of the seat servers that serve their clients side by side,
`lab-socket/task-04/server.c` with a process and `lab-socket/task-05/server.c` with a thread for
each connection, and the descriptors they work on. What a handler does with its connection
before it closes it is `io`. -/

namespace OsLabs.Seats

open SelectServer (File)

/-- The descriptors when the loop begins; `inherited` are those opened before. -/
def filesAtStart (serverSockFd : ℕ) (inherited : ℕ → Bool) (fd : ℕ) : File :=
  if fd = serverSockFd then .listening else if inherited fd then .other else .closed

def LowestFree (files : ℕ → File) (fd : ℕ) : Prop :=
  files fd = .closed ∧ ∀ fd' < fd, files fd' ≠ .closed

instance (files : ℕ → File) (fd : ℕ) : Decidable (LowestFree files fd) := by
  unfold LowestFree
  infer_instance

/-! ### A process for each connection -/

namespace Forked

inductive Pc
  /-- the test of `loop_flag` -/
  | top
  | accept
  | setsockopt (clientSockFd : ℕ)
  | fork (clientSockFd : ℕ)
  | close (clientSockFd : ℕ)
  /-- behind the loop -/
  | ended
  | exited
  deriving DecidableEq

def Pc.current : Pc → Option ℕ
  | .setsockopt fd | .fork fd | .close fd => some fd
  | .top | .accept | .ended | .exited => none

inductive Phase
  /-- `close (server_sock_fd)` -/
  | closeServer
  | serve
  | exited
  deriving DecidableEq

structure Child where
  files : ℕ → File
  clientSockFd : ℕ
  phase : Phase

/-- `listening` is the state of the socket itself, which parent and children share: that none
of them has shut it down. `io` keeps which child used a connection, and what the descriptor
stood for. -/
structure State where
  serverSockFd : ℕ
  listening : Bool
  loopFlag : Bool
  pc : Pc
  files : ℕ → File
  children : List Child
  accepted : ℕ
  io : List (ℕ × File)

def init (serverSockFd : ℕ) (inherited : ℕ → Bool) : State :=
  ⟨serverSockFd, true, true, .top, filesAtStart serverSockFd inherited, [], 0, []⟩

/-- The calls of the parent with what they give, the statements of child `k`, and a signal to
the parent or to a child. -/
inductive Event
  | test
  | accept (clientSockFd : Option ℕ)
  | setsockopt (ok : Bool)
  | fork (ok : Bool)
  | close
  | leave
  | closeServer (k : ℕ)
  | io (k : ℕ)
  /-- `writer` raises `SIGINT` for an index out of range -/
  | badIndex (k : ℕ)
  | exit (k : ℕ)
  | sigint (who : Option ℕ)

/-- `sig_handler` in a process with these descriptors: `shutdown` and `close`. -/
def sigHandler (serverSockFd : ℕ) (listening : Bool) (files : ℕ → File) : Bool × (ℕ → File) :=
  (listening && files serverSockFd ≠ .listening, Function.update files serverSockFd .closed)

def State.setChild (s : State) (k : ℕ) (c : Child) : State :=
  { s with children := s.children.set k c }

def State.signal (s : State) (k : ℕ) (c : Child) : State :=
  let (listening, files) := sigHandler s.serverSockFd s.listening c.files
  { s with listening, children := s.children.set k { c with files } }

def State.exit (s : State) : State := { s with pc := .exited, files := fun _ => .closed }

def step (s : State) : Event → Option State
  | .test =>
    if s.pc = .top then some { s with pc := if s.loopFlag then .accept else .ended } else none
  | .accept none => if s.pc = .accept then some { s with pc := .ended } else none
  | .accept (some fd) =>
    if s.pc = .accept ∧ s.files s.serverSockFd = .listening ∧ s.listening ∧
        LowestFree s.files fd then
      some { s with
        pc := .setsockopt fd
        files := Function.update s.files fd (.conn s.accepted)
        accepted := s.accepted + 1 }
    else none
  | .setsockopt ok =>
    match s.pc with
    | .setsockopt fd => some (if ok then { s with pc := .fork fd } else s.exit)
    | _ => none
  | .fork ok =>
    match s.pc with
    | .fork fd =>
      some (if ok then
        { s with pc := .close fd, children := s.children ++ [⟨s.files, fd, .closeServer⟩] }
      else s.exit)
    | _ => none
  | .close =>
    match s.pc with
    | .close fd => some { s with pc := .top, files := Function.update s.files fd .closed }
    | _ => none
  | .leave => if s.pc = .ended then some s.exit else none
  | .closeServer k => do
    let c ← s.children[k]?
    if c.phase = .closeServer then
      let files := Function.update c.files s.serverSockFd .closed
      some (s.setChild k { c with files, phase := .serve })
    else none
  | .io k => do
    let c ← s.children[k]?
    if c.phase = .serve then some { s with io := s.io ++ [(k, c.files c.clientSockFd)] } else none
  | .badIndex k => do
    let c ← s.children[k]?
    if c.phase = .serve then some (s.signal k c) else none
  | .exit k => do
    let c ← s.children[k]?
    if c.phase = .serve then
      some (s.setChild k { c with files := fun _ => .closed, phase := .exited })
    else none
  | .sigint none =>
    if s.pc ≠ .exited then
      let (listening, files) := sigHandler s.serverSockFd s.listening s.files
      some { s with listening, files, loopFlag := false }
    else none
  | .sigint (some k) => do
    let c ← s.children[k]?
    if c.phase ≠ .exited then some (s.signal k c) else none

def State.Holds (s : State) (file : File) : Option ℕ → Prop
  | none => ∃ fd, s.files fd = file
  | some k => ∃ c fd, s.children[k]? = some c ∧ c.files fd = file

/-- The socket takes connections: it has not been shut down, and somebody has it open. -/
def State.Listens (s : State) : Prop := s.listening = true ∧ ∃ who, s.Holds .listening who

/-- The signal comes neither to the parent nor to a child that has yet to close its copy of the
listening socket. -/
def Spares (s : State) : Event → Prop
  | .sigint none => False
  | .sigint (some k) => ∀ c, s.children[k]? = some c → c.phase ≠ .closeServer
  | _ => True

end Forked

/-! ### A thread for each connection -/

namespace Threaded

/-- What `malloc` gave for a `client_sock_fd`. -/
inductive Block
  | unset
  | holds (fd : ℕ)
  | freed
  deriving DecidableEq

/-- What is read there; `junk` where nothing is stored. -/
def Block.value (junk : ℕ) : Block → ℕ
  | .holds fd => fd
  | .unset | .freed => junk

inductive Pc
  | top
  | accept (b : ℕ)
  | create (b : ℕ)
  /-- behind a `pthread_create` that failed, when the block is freed -/
  | close (b : ℕ)
  /-- behind the loop -/
  | ended
  | exited
  deriving DecidableEq

inductive Phase
  | load
  | free
  | serve
  | exited
  deriving DecidableEq

structure Thread where
  arg : ℕ
  clientSockFd : ℕ
  phase : Phase
  deriving DecidableEq

/-- A use of a block or of a descriptor, with what it was or stood for then. `main` closes as
`none`. -/
inductive Act
  | load (was : Block)
  | free (was : Block)
  | io (k : ℕ) (file : File)
  | close (who : Option ℕ) (file : File)
  deriving DecidableEq

structure State where
  serverSockFd : ℕ
  loopFlag : Bool
  pc : Pc
  files : ℕ → File
  blocks : List Block
  threads : List Thread
  accepted : ℕ
  acts : List Act

def init (serverSockFd : ℕ) (inherited : ℕ → Bool) : State :=
  ⟨serverSockFd, true, .top, filesAtStart serverSockFd inherited, [], [], 0, []⟩

/-- `malloc` comes behind the test of `loop_flag`. -/
inductive Event
  | malloc (ok : Bool)
  | accept (clientSockFd : Option ℕ)
  | create (ok : Bool)
  | close (junk : ℕ)
  | leave
  | load (k junk : ℕ)
  | free (k : ℕ)
  | io (k : ℕ)
  | exit (k : ℕ)
  | sigint

def State.block (s : State) (b : ℕ) : Block := s.blocks.getD b .freed

def State.freeBlock (s : State) (b : ℕ) : State :=
  { s with blocks := s.blocks.set b .freed, acts := s.acts ++ [.free (s.block b)] }

def State.closeFd (s : State) (who : Option ℕ) (fd : ℕ) : State :=
  { s with
    files := Function.update s.files fd .closed
    acts := s.acts ++ [.close who (s.files fd)] }

def stepMain (s : State) : Event → Option State
  | .malloc ok =>
    if s.pc = .top then
      some (if !s.loopFlag then { s with pc := .ended }
      else if ok then { s with pc := .accept s.blocks.length, blocks := s.blocks ++ [.unset] }
      else s)
    else none
  | .accept clientSockFd =>
    match s.pc, clientSockFd with
    | .accept b, none => some { s.freeBlock b with pc := .ended }
    | .accept b, some fd =>
      if s.files s.serverSockFd = .listening ∧ LowestFree s.files fd then
        some { s with
          pc := .create b
          files := Function.update s.files fd (.conn s.accepted)
          blocks := s.blocks.set b (.holds fd)
          accepted := s.accepted + 1 }
      else none
    | _, _ => none
  | .create ok =>
    match s.pc with
    | .create b =>
      some (if ok then { s with pc := .top, threads := s.threads ++ [⟨b, 0, .load⟩] }
      else { s.freeBlock b with pc := .close b })
    | _ => none
  | .close junk =>
    match s.pc with
    | .close b =>
      let was := s.block b
      let s := { s with acts := s.acts ++ [Act.load was], pc := .top }
      some (s.closeFd none (was.value junk))
    | _ => none
  | .leave => if s.pc = .ended then some { s with pc := .exited } else none
  | .sigint =>
    some { s with loopFlag := false, files := Function.update s.files s.serverSockFd .closed }
  | .load _ _ | .free _ | .io _ | .exit _ => none

def stepThread (s : State) (k : ℕ) (t : Thread) : Event → Option State
  | .load _ junk =>
    if t.phase = .load then
      let was := s.block t.arg
      some { s with
        acts := s.acts ++ [.load was]
        threads := s.threads.set k { t with clientSockFd := was.value junk, phase := .free } }
    else none
  | .free _ =>
    if t.phase = .free then
      some { s.freeBlock t.arg with threads := s.threads.set k { t with phase := .serve } }
    else none
  | .io _ =>
    if t.phase = .serve then some { s with acts := s.acts ++ [.io k (s.files t.clientSockFd)] }
    else none
  | .exit _ =>
    if t.phase = .serve then
      some { s.closeFd (some k) t.clientSockFd with
        threads := s.threads.set k { t with phase := .exited } }
    else none
  | .malloc _ | .accept _ | .create _ | .close _ | .leave | .sigint => none

/-- `exit` in `main` ends the threads. -/
def step (s : State) (e : Event) : Option State :=
  if s.pc = .exited then none
  else match e with
  | .load k _ | .free k | .io k | .exit k => do
    let t ← s.threads[k]?
    stepThread s k t e
  | .malloc _ | .accept _ | .create _ | .close _ | .leave | .sigint => stepMain s e

/-- Nothing is read or freed that is freed, a thread uses and closes its own connection, and
nobody closes anything else. -/
def Act.Sound : Act → Prop
  | .load was => ∃ fd, was = .holds fd
  | .free was => was ≠ .freed
  | .io k file => file = .conn k
  | .close who file => ∃ k, who = some k ∧ file = .conn k

/-- `main` does not go on from a `pthread_create` that failed. -/
def Created (s : State) (e : Event) : Prop := ∀ b junk, s.pc = .close b → e ≠ .close junk

/-- Connection `i` is waiting for its thread or for the end of that. -/
def State.Served (s : State) (i : ℕ) : Prop :=
  i < s.accepted ∧ ∀ t, s.threads[i]? = some t → t.phase ≠ .exited

def State.InUse (s : State) (b : ℕ) : Prop :=
  s.pc = .accept b ∨ s.pc = .create b ∨
    ∃ t ∈ s.threads, t.arg = b ∧ (t.phase = .load ∨ t.phase = .free)

end Threaded

end OsLabs.Seats
