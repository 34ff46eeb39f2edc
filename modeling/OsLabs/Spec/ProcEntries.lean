import OsLabs.Lib.Entries
import Mathlib.Data.Finset.Insert

/-! Loading and unloading the three modules that make entries in `/proc`: `fortune.c` of
`lab-module/task-03`, and `task-seq-iter/seq.c` and `task-seq-single/my_module.c` of `task-04`.
They may be loaded side by side, and other names may be taken by anybody else. -/

namespace OsLabs.ProcEntries

inductive Module
  | fortune
  | seqIter
  | seqSingle
  deriving DecidableEq

/-- The entries, and the memory behind `cookiePot`. -/
inductive Entry
  | cookiePot
  | fortuneFile
  | fortuneDir
  | fortuneLink
  | seqDir
  | seqFile
  | seqLink
  | myDir
  | myFile
  | mySymlink
  deriving DecidableEq

instance : Fintype Entry where
  elems := {.cookiePot, .fortuneFile, .fortuneDir, .fortuneLink, .seqDir, .seqFile, .seqLink,
    .myDir, .myFile, .mySymlink}
  complete e := by cases e <;> decide

def Entry.module : Entry → Module
  | .cookiePot | .fortuneFile | .fortuneDir | .fortuneLink => .fortune
  | .seqDir | .seqFile | .seqLink => .seqIter
  | .myDir | .myFile | .mySymlink => .seqSingle

/-- The directory an entry is in, if that is one of these. -/
def Entry.parent : Entry → Option Entry
  | .seqFile => some .seqDir
  | .myFile => some .myDir
  | _ => none

abbrev Tree := Entries.Tree Entry

/-- `vmalloc`, `proc_mkdir`, `proc_create` and `proc_symlink`, which may fail. -/
abbrev create (e : Entry) (ok : Entry → Bool) (t : Tree) : Tree × Bool := Entries.create e (ok e) t

/-- `remove_proc_entry` and `vfree`. -/
abbrev remove (e : Entry) (t : Tree) : Option Tree := Entries.remove Entry.parent e t

/-- The three static pointers of a module: which of them are not null. -/
structure Statics where
  file : Bool
  dir : Bool
  link : Bool
  deriving DecidableEq

namespace Fortune

def freeMemory (s : Statics) (t : Tree) : Option Tree := do
  let t ← if s.file then remove .fortuneFile t else some t
  let t ← if s.dir then remove .fortuneDir t else some t
  let t ← if s.link then remove .fortuneLink t else some t
  remove .cookiePot t

/-- The tree that is left, and the pointers of a module that was loaded. -/
def mdInit (ok : Entry → Bool) (t : Tree) : Option (Tree × Option Statics) :=
  match create .cookiePot ok t with
  | (t, false) => some (t, none)
  | (t, true) =>
    match create .fortuneFile ok t with
    | (t, false) => (freeMemory ⟨false, false, false⟩ t).map (·, none)
    | (t, true) =>
      match create .fortuneDir ok t with
      | (t, false) => (freeMemory ⟨true, false, false⟩ t).map (·, none)
      | (t, true) =>
        match create .fortuneLink ok t with
        | (t, false) => (freeMemory ⟨true, true, false⟩ t).map (·, none)
        | (t, true) => some (t, some ⟨true, true, true⟩)

def mdExit (s : Statics) (t : Tree) : Option Tree := freeMemory s t

end Fortune

namespace SeqIter

def freeResources (s : Statics) (t : Tree) : Option Tree := do
  let t ← if s.link then remove .seqLink t else some t
  let t ← if s.file then remove .seqFile t else some t
  if s.dir then remove .seqDir t else some t

def mdInit (ok : Entry → Bool) (t : Tree) : Option (Tree × Option Statics) :=
  match create .seqDir ok t with
  | (t, false) => some (t, none)
  | (t, true) =>
    match create .seqFile ok t with
    | (t, false) => (freeResources ⟨false, true, false⟩ t).map (·, none)
    | (t, true) =>
      match create .seqLink ok t with
      | (t, false) => (freeResources ⟨true, true, false⟩ t).map (·, none)
      | (t, true) => some (t, some ⟨true, true, true⟩)

def mdExit (s : Statics) (t : Tree) : Option Tree := freeResources s t

end SeqIter

namespace SeqSingle

def mdInit (ok : Entry → Bool) (t : Tree) : Option (Tree × Option Statics) :=
  match create .myDir ok t with
  | (t, false) => some (t, none)
  | (t, true) =>
    match create .myFile ok t with
    | (t, false) => (remove .myDir t).map (·, none)
    | (t, true) =>
      match create .mySymlink ok t with
      | (t, false) => ((remove .myFile t).bind (remove .myDir)).map (·, none)
      | (t, true) => some (t, some ⟨true, true, true⟩)

def mdExit (s : Statics) (t : Tree) : Option Tree := do
  let t ← if s.link then remove .mySymlink t else some t
  let t ← if s.file then remove .myFile t else some t
  if s.dir then remove .myDir t else some t

end SeqSingle

def mdInit : Module → (Entry → Bool) → Tree → Option (Tree × Option Statics)
  | .fortune => Fortune.mdInit
  | .seqIter => SeqIter.mdInit
  | .seqSingle => SeqSingle.mdInit

def mdExit : Module → Statics → Tree → Option Tree
  | .fortune => Fortune.mdExit
  | .seqIter => SeqIter.mdExit
  | .seqSingle => SeqSingle.mdExit

/-- The tree, or `none` once a module has removed what is not there or still in use; and the
pointers of the modules that are loaded. -/
structure State where
  tree : Option Tree
  loaded : Module → Option Statics

/-- `foreign` are the names that others have taken. The pot is nobody's. -/
def init (foreign : Tree) : State := ⟨some foreign, fun _ => none⟩

/-- `ok` tells which calls go through. -/
inductive Event
  | load (m : Module) (ok : Entry → Bool)
  | unload (m : Module)

def step (s : State) : Event → Option State
  | .load m ok =>
    match s.loaded m, s.tree with
    | none, some t =>
      match mdInit m ok t with
      | some (t, statics) => some ⟨some t, Function.update s.loaded m statics⟩
      | none => some { s with tree := none }
    | _, _ => none
  | .unload m =>
    match s.loaded m, s.tree with
    | some statics, some t => some ⟨mdExit m statics t, Function.update s.loaded m none⟩
    | _, _ => none

end OsLabs.ProcEntries
