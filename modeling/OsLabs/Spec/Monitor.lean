import OsLabs.Lib.AutoReset
import OsLabs.Lib.Run

/-! Readers and writers on Windows events, `lab-shmemory/mutex/main.c`. What a thread
does between two calls of `WaitForSingleObject` is one step; each of these calls is
a step of its own, and where it has to wait its return is the signal's doing. `flag` stays
set: no `SIGINT` comes, so no thread ever leaves its loop. -/

namespace OsLabs.Monitor

/-- Where a reader stands. In `atX` it is about to wait for `X`, in `afterX` that
call has returned. -/
inductive Reader
  | outside
  | atCanWrite
  | atCanRead
  | waitingCanRead
  | atMutex
  | afterMutex
  | inside
  | done
  deriving DecidableEq

inductive Writer
  | outside
  | atCanWrite
  | waitingCanWrite
  | afterCanWrite
  | inside
  | done
  deriving DecidableEq

inductive Thread
  | reader (r : Reader)
  | writer (w : Writer)
  deriving DecidableEq

inductive Role
  | reader
  | writer
  deriving DecidableEq

/-- The globals and the threads. The events are their signaled states, the mutex is
its owner, `ch` is a signed `char`, and `printed` are the letters printed so far. -/
structure State where
  can_read : Bool
  can_write : Bool
  mutex : Option ℕ
  waiting_writers : ℤ
  waiting_readers : ℤ
  active_readers : ℤ
  writing : Bool
  ch : ℤ
  printed : List (Role × ℤ)
  threads : List Thread
  deriving DecidableEq

def init : State := ⟨false, false, none, 0, 0, 0, false, 0, [], []⟩

inductive Event
  | createThread (r : Role)
  /-- Thread `k` takes its next step. If it signals an event some threads wait for,
  thread `wake` is released. -/
  | run (k : ℕ) (wake : Option ℕ)

def newThread : Role → Thread
  | .reader => .reader .outside
  | .writer => .writer .outside

def State.goto (s : State) (k : ℕ) (t : Thread) : State := { s with threads := s.threads.set k t }

def setCanRead (wake : Option ℕ) (s : State) : Option State :=
  (setEvent (· == .reader .waitingCanRead) (fun _ => .reader .atMutex) wake s.threads).map
    fun (can_read, threads) => { s with can_read, threads }

def setCanWrite (wake : Option ℕ) (s : State) : Option State :=
  (setEvent (· == .writer .waitingCanWrite) (fun _ => .writer .afterCanWrite) wake s.threads).map
    fun (can_write, threads) => { s with can_write, threads }

/-! ### `start_read`, `stop_read` and what the reader does in between -/

/-- Up to the first wait. The test of `can_write` is only made when `writing` is
false. -/
def startRead (s : State) (k : ℕ) : State :=
  let s := { s with waiting_readers := s.waiting_readers + 1 }
  if s.writing then s.goto k (.reader .atCanRead) else s.goto k (.reader .atCanWrite)

/-- `WaitForSingleObject(can_write, 0)`, which takes the signal it finds. -/
def testCanWrite (s : State) (k : ℕ) : State :=
  if s.can_write then { s with can_write := false }.goto k (.reader .atCanRead)
  else s.goto k (.reader .atMutex)

def waitCanRead (s : State) (k : ℕ) : State :=
  if s.can_read then { s with can_read := false }.goto k (.reader .atMutex)
  else s.goto k (.reader .waitingCanRead)

def waitMutex (s : State) (k : ℕ) : Option State :=
  match s.mutex with
  | none => some ({ s with mutex := some k }.goto k (.reader .afterMutex))
  | some _ => none

def startReadLocked (s : State) (k : ℕ) (wake : Option ℕ) : Option State := do
  let s := { s with
    waiting_readers := s.waiting_readers - 1
    active_readers := s.active_readers + 1 }
  let s ← setCanRead wake (s.goto k (.reader .inside))
  some { s with mutex := none }

def read (s : State) (k : ℕ) : State :=
  let s := { s with printed := s.printed ++ [(Role.reader, 97 + (s.ch - 1).tmod 26)] }
  s.goto k (.reader .done)

def stopRead (s : State) (k : ℕ) (wake : Option ℕ) : Option State :=
  let s := { s with active_readers := s.active_readers - 1 }.goto k (.reader .outside)
  if s.active_readers = 0 then setCanWrite wake s else some s

/-! ### `start_write`, `stop_write` and what the writer does in between -/

def enterWrite (s : State) (k : ℕ) : State :=
  { s with waiting_writers := s.waiting_writers - 1, writing := true }.goto k (.writer .inside)

/-- Up to the wait, or to the end where there is nothing to wait for. -/
def startWrite (s : State) (k : ℕ) : State :=
  let s := { s with waiting_writers := s.waiting_writers + 1 }
  if s.active_readers > 0 ∨ s.writing then s.goto k (.writer .atCanWrite) else enterWrite s k

def waitCanWrite (s : State) (k : ℕ) : State :=
  if s.can_write then { s with can_write := false }.goto k (.writer .afterCanWrite)
  else s.goto k (.writer .waitingCanWrite)

def write (s : State) (k : ℕ) : State :=
  let s := { s with
    ch := (s.ch + 1).bmod 256
    printed := s.printed ++ [(Role.writer, 97 + s.ch.tmod 26)] }
  s.goto k (.writer .done)

def stopWrite (s : State) (k : ℕ) (wake : Option ℕ) : Option State :=
  let s := { s with writing := false }.goto k (.writer .outside)
  if s.waiting_readers ≠ 0 then setCanRead wake s else setCanWrite wake s

/-! ### Steps -/

def stepReader (s : State) (k : ℕ) (wake : Option ℕ) : Reader → Option State
  | .outside => some (startRead s k)
  | .atCanWrite => some (testCanWrite s k)
  | .atCanRead => some (waitCanRead s k)
  | .waitingCanRead => none
  | .atMutex => waitMutex s k
  | .afterMutex => startReadLocked s k wake
  | .inside => some (read s k)
  | .done => stopRead s k wake

def stepWriter (s : State) (k : ℕ) (wake : Option ℕ) : Writer → Option State
  | .outside => some (startWrite s k)
  | .atCanWrite => some (waitCanWrite s k)
  | .waitingCanWrite => none
  | .afterCanWrite => some (enterWrite s k)
  | .inside => some (write s k)
  | .done => stopWrite s k wake

def step (s : State) : Event → Option State
  | .createThread r => some { s with threads := s.threads ++ [newThread r] }
  | .run k wake => do
    match ← s.threads[k]? with
    | .reader r => stepReader s k wake r
    | .writer w => stepWriter s k wake w

/-! ### Mutual exclusion -/

def reads (t : Thread) : Bool := t == .reader .inside || t == .reader .done
def writes (t : Thread) : Bool := t == .writer .inside || t == .writer .done

def State.readers (s : State) : ℕ := s.threads.countP reads

def State.writers (s : State) : ℕ := s.threads.countP writes

/-- No two writers there, and no writer together with a reader. -/
def Exclusive (s : State) : Prop := s.writers ≤ 1 ∧ (0 < s.writers → s.readers = 0)

instance (s : State) : Decidable (Exclusive s) := by unfold Exclusive; infer_instance

/-- A thread that goes in after its last wait finds what it had tested before: no
`writing` if it is a reader, and no active readers either if it is a writer. -/
def Rechecks (s : State) : Event → Prop
  | .createThread _ => True
  | .run k _ =>
    match s.threads[k]? with
    | some (.reader .afterMutex) => s.writing = false
    | some (.writer .afterCanWrite) => ¬ (s.active_readers > 0 ∨ s.writing)
    | _ => True

end OsLabs.Monitor
