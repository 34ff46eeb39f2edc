import OsLabs.Spec.Bio
import OsLabs.Lib.Run
import Mathlib.Logic.Function.Basic

/-! Two threads that read one file: `lab-bio/src/task-02/main.c`, where each has a buffered
stream over the one descriptor, and `task-04/main.c` and `task-05/main.c`, where each has a
descriptor of its own and no buffer. A thread is interrupted between any two of its steps;
a `read` and a line to the terminal are one step each. -/

namespace OsLabs.Bio

/-! ### One descriptor, two streams -/

namespace Streams

/-- White space of the `C` locale, which the newline in a format stands for. -/
def isspace (c : UInt8) : Bool := c = 32 || (9 ≤ c && c ≤ 13)

/-- Where a thread stands in `fscanf(fs, "%c\n", &c)` and the `fprintf` behind it: it is about
to take its character, it skips the white space behind it, it prints it, or its loop is over. -/
inductive Phase
  | scan
  | skip (c : UInt8)
  | print (c : UInt8)
  | done
  deriving DecidableEq

structure Thread where
  stream : Stream UInt8
  phase : Phase
  deriving DecidableEq

/-- The offset of the descriptor, the thread of each stream, and what was printed. -/
structure State where
  offset : ℕ
  threads : Fs → Thread
  out : List (Fs × UInt8)

def init : State := ⟨0, fun _ => ⟨⟨[], false⟩, .scan⟩, []⟩

variable (contents : List UInt8)

def State.goto (s : State) (fs : Fs) (t : Thread) : State :=
  { s with threads := Function.update s.threads fs t }

/-- The buffer is empty: the next bytes of the file come into it, or the file is at its end. -/
def refill (s : State) (fs : Fs) : State :=
  let t := s.threads fs
  match read contents s.offset BUFF_SIZE with
  | ([], _) => s.goto fs { t with stream := { t.stream with eof := true } }
  | (bytes, offset) => { s.goto fs { t with stream := { t.stream with buffer := bytes } } with offset }

/-- Once a stream has met the end of the file it does not ask again. -/
def step (s : State) (fs : Fs) : Option State :=
  let t := s.threads fs
  match t.phase, t.stream.buffer with
  | .scan, c :: rest =>
    some (s.goto fs { t with stream := { t.stream with buffer := rest }, phase := .skip c })
  | .scan, [] =>
    if t.stream.eof then some (s.goto fs { t with phase := .done }) else some (refill contents s fs)
  | .skip c, a :: rest =>
    if isspace a then some (s.goto fs { t with stream := { t.stream with buffer := rest } })
    else some (s.goto fs { t with phase := .print c })
  | .skip c, [] =>
    if t.stream.eof then some (s.goto fs { t with phase := .print c })
    else some (refill contents s fs)
  | .print c, _ =>
    some { s.goto fs { t with phase := .scan } with out := fprintf fs (some c) s.out }
  | .done, _ => none

/-- The thread is in `fscanf` and has used its buffer up. -/
def Thread.asks (t : Thread) : Bool :=
  t.stream.buffer.isEmpty && !t.stream.eof &&
    match t.phase with
    | .scan | .skip _ => true
    | .print _ | .done => false

/-- What a step brings into the buffer of a stream. -/
def givenStep (s : State) (fs : Fs) : Option (Fs × List UInt8) :=
  if (s.threads fs).asks then
    match read contents s.offset BUFF_SIZE with
    | ([], _) => none
    | (bytes, _) => some (fs, bytes)
  else none

def given (tr : List (State × Fs)) : List (Fs × List UInt8) :=
  tr.filterMap fun p => givenStep contents p.1 p.2

def givenTo (fs : Fs) (tr : List (State × Fs)) : List UInt8 :=
  (given contents tr).flatMap fun p => if p.1 = fs then p.2 else []

/-- What is left of a text when the white space behind its first character goes. -/
def squeeze : List UInt8 → List UInt8
  | [] => []
  | c :: text => c :: text.filter fun a => !isspace a

end Streams

/-! ### Two descriptors -/

namespace Descriptors

/-- Where `fileReader` stands, with the character it has read. -/
inductive Phase
  | read
  | write (c : UInt8)
  | done
  deriving DecidableEq

structure Thread where
  offset : ℕ
  phase : Phase
  deriving DecidableEq

structure State where
  threads : Fs → Thread
  out : List (Fs × UInt8)

def init : State := ⟨fun _ => ⟨0, .read⟩, []⟩

def State.goto (s : State) (fd : Fs) (t : Thread) : State :=
  { s with threads := Function.update s.threads fd t }

/-- `fd1` and `fd2` go by the names of the streams. -/
def step (contents : List UInt8) (s : State) (fd : Fs) : Option State :=
  let t := s.threads fd
  match t.phase with
  | .read =>
    match read contents t.offset 1 with
    | ([], _) => some (s.goto fd { t with phase := .done })
    | (c :: _, offset) => some (s.goto fd ⟨offset, .write c⟩)
  | .write c => some { s.goto fd { t with phase := .read } with out := fprintf fd (some c) s.out }
  | .done => none

end Descriptors

end OsLabs.Bio
