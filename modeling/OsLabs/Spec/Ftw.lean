import Mathlib.Data.Int.Order.Basic
import Mathlib.Data.List.Nodup

/-! The directory walk of `lab-fileSystem/task-ftw`: `main.c`, `lib/stack.c` and
`lib/statistics.c`, over a directory tree in which any `lstat`, `opendir` or `chdir`
may fail. Memory does not run out. -/

namespace OsLabs.Ftw

/-- A C string, less its NUL. -/
abbrev Name := List UInt8

def dot : Name := [46]
def dotdot : Name := [46, 46]
def slash : UInt8 := 47

/-- `st_mode & S_IFMT`. -/
inductive Mode
  | reg | blk | chr | fifo | lnk | sock | dir
  deriving DecidableEq

/-- An entry of a directory. The flags say which calls on it succeed. -/
inductive Entry
  | file (name : Name) (mode : Mode) (hmode : mode ≠ .dir) (lstat : Bool)
  | dir (name : Name) (lstat opendir chdir : Bool) (entries : List Entry)

namespace Entry

def name : Entry → Name
  | file name .. | dir name .. => name

def entries : Entry → List Entry
  | file .. => []
  | dir _ _ _ _ entries => entries

def stat : Entry → Option Mode
  | file _ mode _ lstat => if lstat then some mode else none
  | dir _ lstat _ _ _ => if lstat then some .dir else none

def canOpen : Entry → Bool
  | file .. => false
  | dir _ _ opendir _ _ => opendir

def canEnter : Entry → Bool
  | file .. => false
  | dir _ _ _ chdir _ => chdir

/-- `p` holds of the entry and of all below it. -/
inductive All (p : Entry → Prop) : Entry → Prop
  | file {name mode hmode lstat} : p (.file name mode hmode lstat) →
      All p (.file name mode hmode lstat)
  | dir {name lstat opendir chdir entries} : p (.dir name lstat opendir chdir entries) →
      (∀ e ∈ entries, All p e) → All p (.dir name lstat opendir chdir entries)

/-- The entries of the directory have names of their own, none of them `.`, `..` or
a path. -/
def NamesEntries (d : Entry) : Prop :=
  (d.entries.map name).Nodup ∧ ∀ e ∈ d.entries, e.name ≠ dot ∧ e.name ≠ dotdot ∧ slash ∉ e.name

end Entry

/-- The tree below the directory whose absolute path is `path`. -/
structure Tree where
  path : Name
  lstat : Bool
  opendir : Bool
  chdir : Bool
  entries : List Entry
  absolute : path.head? = some slash
  named : (Entry.dir path lstat opendir chdir entries).All Entry.NamesEntries
  /-- The stream of a directory: its entries in order, and `.` and `..` anywhere. -/
  readdir : Entry → List Name
  readdir_entries : ∀ d, (readdir d).filter (fun n => n ≠ dot ∧ n ≠ dotdot) =
    (d.entries.map Entry.name).filter (fun n => n ≠ dot ∧ n ≠ dotdot)

def Tree.root (t : Tree) : Entry := .dir t.path t.lstat t.opendir t.chdir t.entries

/-- The working directory: the chain of directories from it up to the root, empty
above the root. -/
abbrev Cwd := List Entry

/-- The entry a path name stands for, with the directory it is in. -/
def resolve (t : Tree) (cwd : Cwd) (pathName : Name) : Option (Entry × Cwd) :=
  if pathName = t.path then some (t.root, [])
  else match cwd with
    | [] => none
    | d :: up => (d.entries.find? (·.name = pathName)).map fun e => (e, d :: up)

def lstat (t : Tree) (cwd : Cwd) (pathName : Name) : Option Mode := do
  let (e, _) ← resolve t cwd pathName
  e.stat

def opendir (t : Tree) (cwd : Cwd) (pathName : Name) : Option (List Name) := do
  let (e, _) ← resolve t cwd pathName
  if e.canOpen then some (t.readdir e) else none

def chdir (t : Tree) (cwd : Cwd) (pathName : Name) : Option Cwd :=
  if pathName = dotdot then some cwd.tail
  else do
    let (e, dir) ← resolve t cwd pathName
    if e.canEnter then some (e :: dir) else none

/-! ### The stack -/

def MAX_NAME : ℕ := 200

/-- The most bytes of an entry's name, and of a path with its NUL. -/
def NAME_MAX : ℕ := 255
def PATH_MAX : ℕ := 4096

structure Node where
  fileName : Name
  depth : ℤ

inductive Fault
  | exitFailure
  | nameTooLong (name : Name)
  | nullElem
  /-- The loop has not come to its end. -/
  | running

def createNode (fileName : Name) (depth : ℤ) : Except Fault Node :=
  if fileName.length < MAX_NAME then .ok ⟨fileName, depth⟩ else .error (.nameTooLong fileName)

def push (stack : List Node) (elem : Node) : Except Fault (List Node) := do
  let tmp ← createNode elem.fileName elem.depth
  return tmp :: stack

def pop : List Node → Option Node × List Node
  | [] => (none, [])
  | tmp :: stack => (some tmp, stack)

/-! ### The statistics -/

structure Stat where
  nreg : ℕ
  ndir : ℕ
  nblk : ℕ
  nchr : ℕ
  nfifo : ℕ
  nslink : ℕ
  nsock : ℕ
  ntotal : ℕ

def incStat (mode : Mode) (stats : Stat) : Stat :=
  match mode with
  | .reg => { stats with nreg := stats.nreg + 1 }
  | .blk => { stats with nblk := stats.nblk + 1 }
  | .chr => { stats with nchr := stats.nchr + 1 }
  | .fifo => { stats with nfifo := stats.nfifo + 1 }
  | .lnk => { stats with nslink := stats.nslink + 1 }
  | .sock => { stats with nsock := stats.nsock + 1 }
  | .dir => { stats with ndir := stats.ndir + 1 }

def printStat (stats : Stat) : Stat :=
  { stats with
    ntotal := stats.nreg + stats.nchr + stats.nblk + stats.nfifo + stats.nslink + stats.nsock +
      stats.ndir }

def Stat.count (stats : Stat) : Mode → ℕ
  | .reg => stats.nreg
  | .blk => stats.nblk
  | .chr => stats.nchr
  | .fifo => stats.nfifo
  | .lnk => stats.nslink
  | .sock => stats.nsock
  | .dir => stats.ndir

/-! ### The walk -/

def FTW_FILE : ℕ := 1
def FTW_DIR : ℕ := 2

structure Call where
  pathName : Name
  type : ℕ
  depth : ℤ
  deriving DecidableEq

/-- `processed` records the elements `doPath` was given, except for the sentinels,
and the working directory it had for each of them. -/
structure State where
  cwd : Cwd
  stats : Stat
  calls : List Call
  processed : List (Name × Cwd)

/-- In the root, with `stats = {0}`. -/
def init (t : Tree) : State := ⟨[t.root], ⟨0, 0, 0, 0, 0, 0, 0, 0⟩, [], []⟩

/-- One turn of the `readdir` loop. -/
def pushEntry (depth : ℤ) (stk : List Node) (d_name : Name) : Except Fault (List Node) :=
  if d_name ≠ dot ∧ d_name ≠ dotdot then do
    let elem ← createNode d_name depth
    push stk elem
  else return stk

def doPath (t : Tree) (stk : List Node) (s : State) (elem : Node) :
    Except Fault (List Node × State) := do
  let ⟨pathName, depth⟩ := elem
  if depth < 0 then
    return (stk, { s with cwd := (chdir t s.cwd pathName).getD s.cwd })
  let s := { s with processed := s.processed ++ [(pathName, s.cwd)] }
  let some mode := lstat t s.cwd pathName | return (stk, s)
  if mode ≠ .dir then
    return (stk, { s with
      stats := incStat mode s.stats
      calls := s.calls ++ [⟨pathName, FTW_FILE, depth⟩] })
  let s := { s with
    calls := s.calls ++ [⟨pathName, FTW_DIR, depth⟩]
    stats := { s.stats with ndir := s.stats.ndir + 1 } }
  let some dp := opendir t s.cwd pathName | return (stk, s)
  let some cwd := chdir t s.cwd pathName | return (stk, s)
  let elem ← createNode dotdot (-1)
  let stk ← push stk elem
  let stk ← dp.foldlM (pushEntry (depth + 1)) stk
  return (stk, { s with cwd })

/-- The `while` loop of `ftw`, for at most `fuel` turns. -/
def loop (t : Tree) : ℕ → Option Node → List Node → State → Except Fault State
  | 0, _, _, _ => .error .running
  | _ + 1, _, [], s => .ok s
  | _ + 1, none, _ :: _, _ => .error .nullElem
  | fuel + 1, some elem, stk, s => do
    let (stk, s) ← doPath t stk s elem
    let (elem, stk) := pop stk
    loop t fuel elem stk s

/-- `start` says that the `chdir` into the root and the `getcwd` there succeed. -/
def ftw (t : Tree) (start : Bool) (fuel : ℕ) : Except Fault State := do
  if !start then throw .exitFailure
  let elem ← createNode t.path 0
  let stk ← push [] elem
  let s ← loop t fuel (some elem) stk (init t)
  return { s with stats := printStat s.stats }

/-! ### The recursive traversal -/

structure Visit where
  entry : Entry
  cwd : Cwd
  depth : ℤ

mutual

def Entry.traverse (cwd : Cwd) (depth : ℤ) : Entry → List Visit
  | .file name mode hmode lstat => [⟨.file name mode hmode lstat, cwd, depth⟩]
  | .dir name lstat opendir chdir entries =>
    ⟨.dir name lstat opendir chdir entries, cwd, depth⟩ ::
      if lstat && opendir && chdir then
        traverseEntries (.dir name lstat opendir chdir entries :: cwd) (depth + 1) entries
      else []

def traverseEntries (cwd : Cwd) (depth : ℤ) : List Entry → List Visit
  | [] => []
  | e :: es => traverseEntries cwd depth es ++ e.traverse cwd depth

end

/-- The traversal of the tree, from inside of its root. -/
def Tree.traverse (t : Tree) : List Visit :=
  ⟨t.root, [t.root], 0⟩ ::
    if t.lstat && t.opendir && t.chdir then traverseEntries [t.root] 1 t.entries else []

/-- The call of `func` for an entry met, unless its `lstat` fails. -/
def Visit.call (v : Visit) : Option Call :=
  v.entry.stat.map fun mode =>
    ⟨v.entry.name, if mode = .dir then FTW_DIR else FTW_FILE, v.depth⟩

end OsLabs.Ftw
