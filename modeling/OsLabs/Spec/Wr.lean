import OsLabs.Lib.Section

/-! Readers and writers on System V semaphores, `lab-shmemory/semaphore/wr.c`.
The reader and the writer loop are bracketed by `start_read`/`stop_read` and
`start_write`/`stop_write`; `main` forks the processes. What is done in between is one step
here; `Lines` has its statements one by one. -/

namespace OsLabs.Wr

inductive Sem
  | WAITING_READERS
  | ACTIVE_READERS
  | ACTIVE_WRITER
  | WAITING_WRITERS
  | BIN_WRITER
  deriving DecidableEq

inductive Role
  | reader
  | writer
  deriving DecidableEq

def P : ℤ := -1
def V : ℤ := 1

def readerLock : List (Sembuf Sem) :=
  [⟨.WAITING_READERS, V⟩, ⟨.BIN_WRITER, 0⟩, ⟨.WAITING_WRITERS, 0⟩, ⟨.ACTIVE_READERS, V⟩,
    ⟨.WAITING_READERS, P⟩]

def readerRelease : List (Sembuf Sem) := [⟨.ACTIVE_WRITER, 0⟩, ⟨.ACTIVE_READERS, P⟩]

def writerLock : List (Sembuf Sem) :=
  [⟨.WAITING_WRITERS, V⟩, ⟨.ACTIVE_READERS, 0⟩, ⟨.BIN_WRITER, P⟩, ⟨.ACTIVE_WRITER, V⟩,
    ⟨.WAITING_WRITERS, P⟩]

def writerRelease : List (Sembuf Sem) := [⟨.ACTIVE_WRITER, P⟩, ⟨.BIN_WRITER, V⟩]

/-! The operations each call passes to `semop`. -/

def startRead : List (Sembuf Sem) := readerLock.take 5
def stopRead : List (Sembuf Sem) := readerRelease.take 2
def startWrite : List (Sembuf Sem) := writerLock.take 5

/-- The call passes a count of 3 for an array of two; what lies past the array
is taken as absent. -/
def stopWrite : List (Sembuf Sem) := writerRelease.take 3

def semInit : Sem → ℕ
  | .BIN_WRITER => 1
  | .WAITING_READERS | .ACTIVE_READERS | .ACTIVE_WRITER | .WAITING_WRITERS => 0

/-- The shared `int`, and the letters printed so far, newest last. -/
structure Shm where
  shm : ℤ
  printed : List (Role × ℤ)

def shmInit : Shm := ⟨0, []⟩

/-- Between `start_read` and `stop_read`: `'a' + (*shm - 1) % 26` is printed. -/
def reader (m : Shm) : Shm :=
  { m with printed := m.printed ++ [(.reader, 97 + (m.shm - 1).tmod 26)] }

def writer (m : Shm) : Shm :=
  { shm := m.shm + 1, printed := m.printed ++ [(.writer, 97 + m.shm.tmod 26)] }

/-- The program: both loops go on until the signal handler clears `flag`. -/
def wr : Section Sem Role Shm where
  lock
    | .reader => startRead
    | .writer => startWrite
  release
    | .reader => stopRead
    | .writer => stopWrite
  body
    | .reader => fun m => some (reader m)
    | .writer => fun m => some (writer m)
  loops := true

abbrev State := Section.State Sem Role Shm
abbrev Event := Section.Event Role

def init : State := .init semInit shmInit

def active (r : Role) (s : State) : ℕ := Section.insideCount (· == r) s.procs

/-- No writer together with another writer or with a reader. -/
def Exclusive (s : State) : Prop :=
  active .writer s ≤ 1 ∧ (0 < active .writer s → active .reader s = 0)

instance (s : State) : Decidable (Exclusive s) := by unfold Exclusive; infer_instance

def StartsRead (s : State) (e : Event) : Prop :=
  ∃ k, e = .run k ∧ s.procs[k]? = some ⟨.reader, .outside⟩

end OsLabs.Wr
