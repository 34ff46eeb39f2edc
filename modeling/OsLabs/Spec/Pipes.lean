import OsLabs.Lib.Pipe
import OsLabs.Lib.Run

/-! Children that write to their parent through a pipe, `lab-processes/part-02/task_04.c` and
`task_05.c`. Every process is interrupted between any two of its steps, and no `fork` fails. The
messages are parameters; a `write` of one of them is one step. -/

namespace OsLabs.Pipes

/-- The next statement of a child. -/
inductive Phase
  /-- the test of `flag` -/
  | check
  | write
  | exit
  | gone
  deriving DecidableEq

structure Child where
  flag : Bool
  phase : Phase
  deriving DecidableEq

/-- `run none` is the next statement of the parent, `run (some k)` that of child `k`. -/
inductive Event
  | sigint (who : Option ℕ)
  | run (who : Option ℕ)
  deriving DecidableEq

def Event.own : Event → Bool
  | .sigint _ => false
  | .run _ => true

/-! ### `task_05.c`

What the handlers and the children print themselves is left out. -/

namespace Flagged

def msgs : List (List Char) := ["aaaaaaaaaaaaa\n".toList, "bbbbb\n".toList]

inductive Parent
  | fork
  | close
  | read
  | done
  deriving DecidableEq

structure State where
  flag : Bool
  parent : Parent
  children : List Child
  pipe : Pipe Char
  printed : List Char
  deriving DecidableEq

def init : State := ⟨false, .fork, [], .empty, []⟩

variable (msgs : List (List Char))

/-- The write end is open: in the parent, or in a child that has not exited. -/
def State.writers (s : State) : Bool :=
  s.parent = .fork || s.parent = .close || s.children.any fun c => c.phase ≠ .gone

def stepParent (s : State) : Option State :=
  match s.parent with
  | .fork =>
    -- the child gets a copy of `flag`
    if s.children.length < msgs.length then
      some { s with children := s.children ++ [⟨s.flag, .check⟩] }
    else some { s with parent := .close }
  | .close => some { s with parent := .read }
  | .read =>
    match s.pipe.read s.writers 1 with
    | none => none
    | some ([], pipe) => some { s with pipe, parent := .done }
    | some (bytes, pipe) => some { s with pipe, printed := s.printed ++ bytes }
  | .done => none

def stepChild (s : State) (k : ℕ) (c : Child) : Option State :=
  match c.phase with
  | .check =>
    let phase := if c.flag then .write else .exit
    some { s with children := s.children.set k { c with phase } }
  | .write =>
    some { s with
      children := s.children.set k { c with phase := .exit }
      pipe := s.pipe.write (msgs.getD k []) }
  | .exit => some { s with children := s.children.set k { c with phase := .gone } }
  | .gone => none

def step (s : State) : Event → Option State
  | .sigint none => some { s with flag := true }
  | .sigint (some k) => do
    let c ← s.children[k]?
    some { s with children := s.children.set k { c with flag := true } }
  | .run none => stepParent msgs s
  | .run (some k) => do
    let c ← s.children[k]?
    stepChild msgs s k c

/-- The child whose step it is, if it is as asked for. -/
def childAt (found : Child → Bool) (s : State) : Event → Option ℕ
  | .run (some k) => if s.children[k]?.any found then some k else none
  | .run none | .sigint _ => none

def childrenAt (found : Child → Bool) (tr : List (State × Event)) : List ℕ :=
  tr.filterMap fun p => childAt found p.1 p.2

/-- Those that wrote, and those that found their flag set. -/
def wrote (tr : List (State × Event)) : List ℕ := childrenAt (·.phase = .write) tr

def willing (tr : List (State × Event)) : List ℕ :=
  childrenAt (fun c => c.phase = .check && c.flag) tr

end Flagged

end OsLabs.Pipes
