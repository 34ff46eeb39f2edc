import OsLabs.Spec.Monitor

/-! The letters of `lab-shmemory/mutex/main.c`, with the bodies of the reader and the
writer taken statement by statement. When a thread goes in and out is left open here:
the monitor's runs are among the runs of this model. -/

namespace OsLabs.Letters

open Monitor (Role)

/-- Where a thread stands, `outside` being out of `start_read` and `stop_read`. Once it
is computed, the letter is kept up to the call of `printf`. -/
inductive Reader
  | outside
  | entered
  | computed (c : ℤ)
  | printed
  deriving DecidableEq

inductive Writer
  | outside
  | entered
  | computed (c : ℤ)
  | incremented (c : ℤ)
  | printed
  deriving DecidableEq

inductive Thread
  | reader (r : Reader)
  | writer (w : Writer)
  deriving DecidableEq

/-- `ch` is a signed `char`, `printed` are the letters printed so far. -/
structure State where
  ch : ℤ
  printed : List (Role × ℤ)
  threads : List Thread
  deriving DecidableEq

def init : State := ⟨0, [], []⟩

inductive Event
  | createThread (r : Role)
  /-- Thread `k` takes its next step. -/
  | run (k : ℕ)

def newThread : Role → Thread
  | .reader => .reader .outside
  | .writer => .writer .outside

def State.goto (s : State) (k : ℕ) (t : Thread) : State := { s with threads := s.threads.set k t }

def State.printf (s : State) (r : Role) (c : ℤ) : State :=
  { s with printed := s.printed ++ [(r, c)] }

def stepReader (s : State) (k : ℕ) : Reader → State
  | .outside => s.goto k (.reader .entered)
  | .entered => s.goto k (.reader (.computed (97 + (s.ch - 1).tmod 26)))
  | .computed c => (s.printf .reader c).goto k (.reader .printed)
  | .printed => s.goto k (.reader .outside)

def stepWriter (s : State) (k : ℕ) : Writer → State
  | .outside => s.goto k (.writer .entered)
  | .entered => s.goto k (.writer (.computed (97 + s.ch.tmod 26)))
  | .computed c => { s with ch := (s.ch + 1).bmod 256 }.goto k (.writer (.incremented c))
  | .incremented c => (s.printf .writer c).goto k (.writer .printed)
  | .printed => s.goto k (.writer .outside)

def step (s : State) : Event → Option State
  | .createThread r => some { s with threads := s.threads ++ [newThread r] }
  | .run k => do
    match ← s.threads[k]? with
    | .reader r => some (stepReader s k r)
    | .writer w => some (stepWriter s k w)

/-! ### Critical sections -/

def reads : Thread → Bool
  | .reader .outside | .writer _ => false
  | .reader _ => true

def writes : Thread → Bool
  | .writer .outside | .reader _ => false
  | .writer _ => true

def State.readers (s : State) : ℕ := s.threads.countP reads
def State.writers (s : State) : ℕ := s.threads.countP writes

/-- No two writers are inside, and no writer together with a reader. -/
def Apart (s : State) : Prop := s.writers ≤ 1 ∧ (0 < s.writers → s.readers = 0)

instance (s : State) : Decidable (Apart s) := by unfold Apart; infer_instance

/-! ### The letters -/

def written (log : List (Role × ℤ)) : ℕ := log.countP (·.1 == .writer)

def letter (n : ℕ) : ℤ := 97 + ((n : ℤ) - 1) % 26

/-- The `n`-th write prints the `n`-th letter, and so does every read up to the next
write. -/
def Cyclic (log : List (Role × ℤ)) : Prop :=
  ∀ before p after, log = before ++ p :: after → ∀ n, 1 ≤ n → written (before ++ [p]) = n →
    p.2 = letter n

/-- `char` wraps every 256 writes, which for the letters comes out even after 13 times
256 of them. In between the letter of a thread that prints after `m` writes is the right
one before `ch` first wraps, and towards the end where it and the right one are `a`. -/
def InCycle (m : ℕ) : Role → Prop
  | .writer => m % 3328 < 128 ∨ (3200 ≤ m % 3328 ∧ 26 ∣ m)
  | .reader => m = 0 ∨ (m - 1) % 3328 < 127 ∨ (3200 ≤ (m - 1) % 3328 ∧ 26 ∣ m - 1)

instance (m : ℕ) : ∀ r, Decidable (InCycle m r)
  | .writer => inferInstanceAs (Decidable (_ ∨ _))
  | .reader => inferInstanceAs (Decidable (_ ∨ _))

/-- Who prints, if the next step of the thread is a call of `printf`. -/
def printing : Thread → Option Role
  | .reader (.computed _) => some .reader
  | .writer (.incremented _) => some .writer
  | _ => none

/-- A step that prints does so after so many writes that the letter is right. -/
def Aligned (s : State) : Event → Prop
  | .createThread _ => True
  | .run k => ∀ r ∈ s.threads[k]?.bind printing, InCycle (written s.printed) r

instance (s : State) : ∀ e, Decidable (Aligned s e)
  | .createThread _ => inferInstanceAs (Decidable True)
  | .run _ => inferInstanceAs (Decidable (∀ r ∈ _, _))

/-! ### The monitor's states -/

def place : Monitor.Thread → Thread
  | .reader .inside => .reader .entered
  | .reader .done => .reader .printed
  | .reader _ => .reader .outside
  | .writer .inside => .writer .entered
  | .writer .done => .writer .printed
  | .writer _ => .writer .outside

def lettersOf (s : Monitor.State) : State := ⟨s.ch, s.printed, s.threads.map place⟩

end OsLabs.Letters
