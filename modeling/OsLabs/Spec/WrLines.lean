import OsLabs.Spec.Wr

/-! `lab-shmemory/semaphore/wr.c` with what a process does between its two calls taken
statement by statement. A reader may be in between while a writer is, so what it prints
need not be what is in the shared memory by then. -/

namespace OsLabs.Wr.Lines

/-- Where a process stands. The letter is computed before it is printed and kept in `ch`
up to the call of `printf`; `gone` is a process that has ended, `goneInside` one that has
ended because its stop call failed. -/
inductive Reader
  | outside
  | entered
  | computed (ch : ℤ)
  | printed
  | gone
  | goneInside
  deriving DecidableEq

inductive Writer
  | outside
  | entered
  | computed (ch : ℤ)
  | incremented (ch : ℤ)
  | printed
  | gone
  | goneInside
  deriving DecidableEq

inductive Proc
  | reader (r : Reader)
  | writer (w : Writer)
  deriving DecidableEq

def INT_MAX : ℤ := 2 ^ 31 - 1

/-- The semaphores, the shared `int`, the lines printed so far, newest last, and the
processes. -/
structure State where
  sem : Sem → ℕ
  shm : ℤ
  lines : List (Role × ℤ)
  procs : List Proc

def init : State := ⟨semInit, 0, [], []⟩

def newProc : Role → Proc
  | .reader => .reader .outside
  | .writer => .writer .outside

def State.goto (s : State) (k : ℕ) (p : Proc) : State := { s with procs := s.procs.set k p }

def State.printf (s : State) (r : Role) (ch : ℤ) : State :=
  { s with lines := s.lines ++ [(r, ch)] }

def State.semop (s : State) (ops : List (Sembuf Sem)) (k : ℕ) (p : Proc) : Option State := do
  let sem ← (OsLabs.semop s.sem ops).result
  some { s.goto k p with sem := sem }

def stepReader (s : State) (k : ℕ) : Reader → Option State
  | .outside => s.semop startRead k (.reader .entered)
  | .entered => some (s.goto k (.reader (.computed (97 + (s.shm - 1).tmod 26))))
  | .computed ch => some ((s.printf .reader ch).goto k (.reader .printed))
  | .printed => s.semop stopRead k (.reader .outside)
  | .gone | .goneInside => none

/-- An increment past `INT_MAX` is undefined, and nothing is said of what comes after it. -/
def stepWriter (s : State) (k : ℕ) : Writer → Option State
  | .outside => s.semop startWrite k (.writer .entered)
  | .entered => some (s.goto k (.writer (.computed (97 + s.shm.tmod 26))))
  | .computed ch =>
    if s.shm < INT_MAX then
      some ({ s with shm := s.shm + 1 }.goto k (.writer (.incremented ch)))
    else none
  | .incremented ch => some ((s.printf .writer ch).goto k (.writer .printed))
  | .printed => s.semop stopWrite k (.writer .outside)
  | .gone | .goneInside => none

/-- Where `exit` leaves a process whose `semop` has returned -1. -/
def failed : Proc → Option Proc
  | .reader .outside => some (.reader .gone)
  | .reader .printed => some (.reader .goneInside)
  | .writer .outside => some (.writer .gone)
  | .writer .printed => some (.writer .goneInside)
  | _ => none

def ended : Proc → Option Proc
  | .reader .outside => some (.reader .gone)
  | .writer .outside => some (.writer .gone)
  | _ => none

def step (s : State) : Event → Option State
  | .spawn r => some { s with procs := s.procs ++ [newProc r] }
  | .run k => do
    match ← s.procs[k]? with
    | .reader r => stepReader s k r
    | .writer w => stepWriter s k w
  | .fail k => do
    let p ← s.procs[k]?.bind failed
    some (s.goto k p)
  | .quit k => do
    let p ← s.procs[k]?.bind ended
    some (s.goto k p)

/-! ### The letters -/

def written (lines : List (Role × ℤ)) : ℕ := lines.countP (·.1 == .writer)

/-- The letter due to a role after `n` writes: the next one for a writer, the last one
written for a reader, and the character before `'a'` when there is none. -/
def due (n : ℕ) : Role → ℤ
  | .writer => 97 + (n : ℤ) % 26
  | .reader => if n = 0 then 96 else 97 + ((n - 1 : ℕ) : ℤ) % 26

/-- What may be printed after `n` lines of writers: by a writer the letter due, by a reader
the one due then, or one write before or after. -/
def Timely (n : ℕ) : Role × ℤ → Prop
  | (.writer, ch) => ch = due n .writer
  | (.reader, ch) => ∃ m, ch = due m .reader ∧ m ≤ n + 1 ∧ n ≤ m + 1

/-! ### The two calls -/

/-- Where a process stands with regard to its two calls, its body being run when it prints. -/
def place : Proc → Section.Proc Role
  | .reader .outside => ⟨.reader, .outside⟩
  | .reader .entered | .reader (.computed _) => ⟨.reader, .entered⟩
  | .reader .printed => ⟨.reader, .finished⟩
  | .reader .gone => ⟨.reader, .gone⟩
  | .reader .goneInside => ⟨.reader, .goneInside⟩
  | .writer .outside => ⟨.writer, .outside⟩
  | .writer .entered | .writer (.computed _) | .writer (.incremented _) => ⟨.writer, .entered⟩
  | .writer .printed => ⟨.writer, .finished⟩
  | .writer .gone => ⟨.writer, .gone⟩
  | .writer .goneInside => ⟨.writer, .goneInside⟩

/-- The state `t` of the two calls' model has the semaphores and the processes of `s`. -/
structure Stands (s : State) (t : Wr.State) : Prop where
  sem : t.sem = s.sem
  procs : t.procs = s.procs.map place

end OsLabs.Wr.Lines
