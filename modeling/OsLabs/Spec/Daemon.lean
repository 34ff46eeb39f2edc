import OsLabs.Lib.Run
import OsLabs.Lib.Population
import Mathlib.Logic.Function.Basic

/-! The daemon of `lab-processes/daemon/mydaemon.c`: the descriptors `daemonize` leaves, and
any number of its instances, each of them past `daemonize` and on its way through
`already_running`. -/

namespace OsLabs.Daemon

/-! ### `daemonize` -/

section
variable {γ : Type}

/-- The files behind the descriptors of a process. -/
abbrev Table (γ : Type) := ℕ → Option γ

def lowestFree (rlim_cur : ℕ) (t : Table γ) : Option ℕ :=
  (List.range rlim_cur).find? fun fd => (t fd).isNone

/-- `open` of a file that may fail to be opened: the descriptor, or -1. -/
def openFile (rlim_cur : ℕ) (file : Option γ) (t : Table γ) : Table γ × ℤ :=
  match file, lowestFree rlim_cur t with
  | some file, some fd => (Function.update t fd (some file), fd)
  | _, _ => (t, -1)

def dup (rlim_cur : ℕ) (fd : ℕ) (t : Table γ) : Table γ × ℤ := openFile rlim_cur (t fd) t

def closeAll (rlim_max : ℕ) (t : Table γ) : Table γ :=
  (List.range rlim_max).foldl (fun t fd => Function.update t fd none) t

/-- From the limits on: the table of a daemon that goes on, or `exit (1)`. `RLIM_INFINITY` is
`none`, and so is a `/dev/null` that cannot be opened. -/
def daemonize (rlim_cur : ℕ) (rlim_max : Option ℕ) (null : Option γ) (t : Table γ) :
    Option (Table γ) :=
  let t := closeAll (rlim_max.getD 1024) t
  let (t, fd0) := openFile rlim_cur null t
  let (t, fd1) := dup rlim_cur 0 t
  let (t, fd2) := dup rlim_cur 0 t
  if fd0 ≠ 0 ∨ fd1 ≠ 1 ∨ fd2 ≠ 2 then none else some t

end

/-! ### `already_running` -/

/-- The next statement of an instance; the flags keep what came of `ftruncate`, and of it and
the `write` together. -/
inductive Phase
  | openFile
  | lockfile
  | ftruncate
  | write (truncated : Bool)
  | running (recorded : Bool)
  | gone
  deriving DecidableEq

structure Instance where
  pid : ℕ
  phase : Phase
  deriving DecidableEq

/-- The instances, the one that holds the lock, and the bytes of `LOCKFILE`. -/
structure State where
  instances : List Instance
  owner : Option ℕ
  contents : List Char

/-- `LOCKFILE` may be left from earlier times, but nobody holds it. -/
def init (contents : List Char) : State := ⟨[], none, contents⟩

/-- `sprintf (buf, "%ld", ...)`, with the NUL that is written too. -/
def pidText (pid : ℕ) : List Char := Nat.toDigits 10 pid ++ [Char.ofNat 0]

/-- `start` is an instance that comes out of `daemonize`; `openFile`, `ftruncate` and `write`
are its calls with what they come to, the last with the count of bytes written; `lockfile` is
`F_SETLK` against the lock of whoever has it, `lockError` the same call failing otherwise;
and `exit` is the end of an instance, whether by `SIGTERM`, by a failure or by being killed. -/
inductive Event
  | start (pid : ℕ)
  | openFile (k : ℕ) (ok : Bool)
  | lockfile (k : ℕ)
  | lockError (k : ℕ)
  | ftruncate (k : ℕ) (ok : Bool)
  | write (k : ℕ) (count : ℕ)
  | exit (k : ℕ)
  deriving DecidableEq

def State.goto (s : State) (k : ℕ) (i : Instance) (ph : Phase) : State :=
  { s with instances := s.instances.set k { i with phase := ph } }

/-- The lock of a process goes when the process does. -/
def State.exit (s : State) (k : ℕ) (i : Instance) : State :=
  { s.goto k i .gone with owner := if s.owner = some k then none else s.owner }

def step (s : State) : Event → Option State
  | .start pid =>
    -- the process numbers of those that live differ
    if s.instances.all fun i => i.phase = .gone || i.pid ≠ pid then
      some { s with instances := s.instances ++ [⟨pid, .openFile⟩] }
    else none
  | .openFile k ok => do
    let i ← s.instances[k]?
    if i.phase = .openFile then
      if ok then some (s.goto k i .lockfile) else some (s.exit k i)
    else none
  | .lockfile k => do
    let i ← s.instances[k]?
    if i.phase = .lockfile then
      match s.owner with
      | none => some { s.goto k i .ftruncate with owner := some k }
      | some _ => some (s.exit k i)
    else none
  | .lockError k => do
    let i ← s.instances[k]?
    if i.phase = .lockfile then some (s.exit k i) else none
  | .ftruncate k ok => do
    let i ← s.instances[k]?
    if i.phase = .ftruncate then
      some { s.goto k i (.write ok) with contents := if ok then [] else s.contents }
    else none
  | .write k count => do
    let i ← s.instances[k]?
    match i.phase with
    | .write truncated =>
      let bytes := (pidText i.pid).take count
      some { s.goto k i (.running (truncated && (pidText i.pid).length ≤ count)) with
        contents := bytes ++ s.contents.drop bytes.length }
    | _ => none
  | .exit k => do
    let i ← s.instances[k]?
    if i.phase = .gone then none else some (s.exit k i)

/-- Past its `fcntl` and still there. -/
def Phase.locked : Phase → Bool
  | .ftruncate | .write _ | .running _ => true
  | .openFile | .lockfile | .gone => false

/-- The step is an `fcntl` that ends its instance: the daemon is already running. -/
def Refused (s : State) (e : Event) : Prop := (∃ k, e = .lockfile k) ∧ s.owner ≠ none

end OsLabs.Daemon
