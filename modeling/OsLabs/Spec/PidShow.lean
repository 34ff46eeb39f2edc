import Mathlib.Data.Int.Notation
import OsLabs.Lib.Refs
import OsLabs.Lib.Run

/-! The two modules that report on processes through a sequence file,
`lab-module/task-04/task-seq-iter/seq.c` and `task-seq-single/my_module.c`. They store the
numbers written to their file and show what the kernel knows of them. -/

namespace OsLabs.PidShow

/-- `PID_ARRAY_SIZE` in `my_module.c`. -/
def MAX_PIDS : ℕ := 3

def KBUF_SIZE : ℕ := 32

def EFAULT : ℤ := 14
def EINVAL : ℤ := 22

structure Task where
  policy : ℤ
  prio : ℤ
  flags : ℕ
  state : ℕ
  stime : ℕ
  utime : ℕ

/-- The processes as a call finds them: the numbers that have a `struct pid`, and the
tasks these stand for. -/
structure Live where
  pid : ℤ → Bool
  task : ℤ → Option Task

/-- How many references the module holds to the `struct pid` and to the task of each
number. -/
structure Refs where
  pid : ℤ → ℕ
  task : ℤ → ℕ

def noRefs : Refs := ⟨fun _ => 0, fun _ => 0⟩

def findGetPid (live : Live) (nr : ℤ) (refs : Refs) : Option ℤ × Refs :=
  if live.pid nr then (some nr, { refs with pid := getRef refs.pid nr }) else (none, refs)

def getPidTask (live : Live) (pid : Option ℤ) (refs : Refs) : Option Task × Refs :=
  match pid with
  | some nr =>
    match live.task nr with
    | some task => (some task, { refs with task := getRef refs.task nr })
    | none => (none, refs)
  | none => (none, refs)

def putTaskStruct (nr : ℤ) (refs : Refs) : Refs := { refs with task := putRef refs.task nr }

def alternateHex (n : ℕ) : String :=
  if n = 0 then "0" else "0x" ++ String.ofList (Nat.toDigits 16 n)

/-- What is shown of a task. The modules put different marks in front of the lines. -/
def information (first rest : String) (pid : ℤ) (task : Task) : String :=
  let ⟨policy, prio, flags, state, stime, utime⟩ := task
  first ++ s!"Process information for PID {pid}:\n" ++
    rest ++ s!"Policy:   {policy}\n" ++
    rest ++ s!"Priority: {prio}\n" ++
    rest ++ s!"Flags:    {alternateHex flags}\n" ++
    rest ++ s!"State:    {alternateHex state}\n" ++
    rest ++ s!"stime:    {stime}\n" ++
    rest ++ s!"utime:    {utime}\n\n"

/-- What both modules do with a number: look it up, show it, and give the task back. -/
def showPid (first rest : String) (live : Live) (pid : ℤ) (refs : Refs) : String × Refs :=
  let (found, refs) := findGetPid live pid refs
  let (task, refs) := getPidTask live found refs
  match task with
  | some task => (information first rest pid task, putTaskStruct pid refs)
  | none => (first ++ s!"Process with PID {pid} not found.\n\n", refs)

structure Module where
  pids : List ℤ
  bound : pids.length ≤ MAX_PIDS
  refs : Refs

def init : Module := ⟨[], by decide, noRefs⟩

variable (kstrtoint : List Char → Option ℤ)

/-- `my_write`, with its result. `copied` says whether `copy_from_user` succeeds. -/
def myWrite (m : Module) (buf : List Char) (copied : Bool) : ℤ × Module :=
  if buf.length ≥ KBUF_SIZE then (-EINVAL, m)
  else if !copied then (-EFAULT, m)
  else
    let kbuf := (if buf.getLast? = some '\n' then buf.dropLast else buf).takeWhile (· ≠ '\x00')
    if h : m.pids.length < MAX_PIDS then
      match kstrtoint kbuf with
      | some pid =>
        (buf.length, { m with
          pids := m.pids ++ [pid]
          bound := by rw [List.length_append, List.length_singleton]; exact h })
      | none => (-EINVAL, m)
    else (-EINVAL, m)

/-- The file is written to, or a read of it leads to a call of the show function. -/
inductive Event (κ : Type)
  | write (buf : List Char) (copied : Bool)
  | read (call : κ)

/-- `shows` is what the show function leaves of the references, if it is called at all. -/
def step {κ : Type} (shows : Module → κ → Option Refs) (m : Module) : Event κ → Option Module
  | .write buf copied => some (myWrite kstrtoint m buf copied).2
  | .read call => (shows m call).map fun refs => { m with refs }

def KeepsRefs {κ : Type} (shows : Module → κ → Option Refs) (m : Module) : Event κ → Prop
  | .write _ _ => True
  | .read call => ∀ refs, shows m call = some refs → refs = m.refs

def HoldsNone (m : Module) : Prop := m.refs = noRefs

/-- No number the call looks up has a `struct pid`. -/
def NoPid {κ : Type} (found : Module → κ → List ℤ) (m : Module) : Event κ → Prop
  | .write _ _ => True
  | .read call => found m call = []

namespace SeqIter

/-- The entry handed to `seq_show`, also by `seq_next`. -/
def seqStart (m : Module) (pos : ℕ) : Option ℤ := m.pids[pos]?

/-- What is printed, and the references afterwards. -/
def seqShow (live : Live) (pid : ℤ) (refs : Refs) : String × Refs :=
  if pid < 0 then ("Invalid PID\n\n", refs) else showPid "" "  " live pid refs

/-- A call for the entry at a position. -/
structure Call where
  pos : ℕ
  live : Live

def shows (m : Module) (call : Call) : Option Refs :=
  (seqStart m call.pos).map fun pid => (seqShow call.live pid m.refs).2

def found (m : Module) (call : Call) : List ℤ :=
  (m.pids[call.pos]?.toList).filter fun pid => 0 ≤ pid && call.live.pid pid

end SeqIter

namespace SeqSingle

/-- The processes may come and go between the turns of the loop. -/
abbrev Call := ℕ → Live

/-- The turns from `i` on of the loop. -/
def showLoop (live : Call) : ℕ → List ℤ → Refs → List String × Refs
  | _, [], refs => ([], refs)
  | i, pid :: pids, refs =>
    let (line, refs) := showPid "*) " "*) " (live i) pid refs
    let (lines, refs) := showLoop live (i + 1) pids refs
    (line :: lines, refs)

def singleShow (live : Call) (m : Module) : List String × Refs :=
  if m.pids.length = 0 then
    (["*) No PIDs specified. Write up to 3 PIDs to the file first.\n"], m.refs)
  else showLoop live 0 m.pids m.refs

def shows (m : Module) (live : Call) : Option Refs := some (singleShow live m).2

def found (m : Module) (live : Call) : List ℤ :=
  (m.pids.zipIdx.filter fun p => (live p.2).pid p.1).map Prod.fst

end SeqSingle

end OsLabs.PidShow
