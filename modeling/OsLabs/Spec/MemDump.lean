import OsLabs.Lib.Entries
import OsLabs.Lib.Strtol
import Mathlib.Data.Finset.Insert

/-! `print_mem` of `task-proc/proc_info.c`, which reads the regions of a process from its
`maps` and dumps each of them from its `mem`. How `sscanf` reads `%lx-%lx` off a line is a
parameter. -/

namespace OsLabs.ProcInfo

inductive Resource
  | file
  | regions
  | line
  | memFd
  | buffer
  deriving DecidableEq

instance : Fintype Resource where
  elems := {.file, .regions, .line, .memFd, .buffer}
  complete r := by cases r <;> decide

abbrev Holding := Entries.Tree Resource

/-- `fclose`, `close` and `free`; what is not there cannot be given back. -/
abbrev give (r : Resource) (h : Holding) : Option Holding := Entries.remove (fun _ => none) r h

abbrev take (r : Resource) (h : Holding) : Holding := Function.update h r true

structure MemoryRegion where
  startAddr : UInt64
  endAddr : UInt64
  deriving DecidableEq

/-- The array `regions`: a cell is unset before it is stored to. -/
structure Regions where
  cells : List (Option MemoryRegion)
  count : ℕ
  deriving DecidableEq

/-- What the calls come to. `maps` are the lines of the file, `realloc k` the call number `k`;
the others are those of `print_region` for region `i`. -/
structure Calls where
  maps : Option (List (List Char))
  malloc : Bool
  realloc : ℕ → Bool
  openMem : Bool
  mallocBuffer : ℕ → Bool
  lseek : ℕ → Bool
  read : ℕ → Option (List UInt8)

/-- `regions[count] = region; count++`. -/
def Regions.store (r : Regions) (region : MemoryRegion) : Option Regions :=
  if r.count < r.cells.length then some ⟨r.cells.set r.count (some region), r.count + 1⟩ else none

/-- `capacity *= 2`. -/
def Regions.grow (r : Regions) : Regions :=
  { r with cells := r.cells ++ List.replicate r.cells.length none }

/-- The `while` loop with `n` calls of `realloc` behind it: `none` where a store misses the
array, and `some none` where there is no more memory. -/
def regionLoop (sscanf : List Char → Option MemoryRegion) (realloc : ℕ → Bool) :
    List (List Char) → ℕ → Regions → Option (Option Regions)
  | [], _, r => some (some r)
  | line :: lines, n, r =>
    match sscanf line with
    | none => regionLoop sscanf realloc lines n r
    | some region =>
      if r.count ≥ r.cells.length then
        if realloc n then
          (r.grow.store region).bind fun r => regionLoop sscanf realloc lines (n + 1) r
        else some none
      else (r.store region).bind fun r => regionLoop sscanf realloc lines n r

/-- The array, or `NULL`, and what is held then. -/
def getMemoryRegions (sscanf : List Char → Option MemoryRegion) (c : Calls) (h : Holding) :
    Option (Holding × Option Regions) :=
  match c.maps with
  | none => some (h, none)
  | some lines =>
    let h := take .file h
    if c.malloc then do
      let h := take .regions h
      let h := take .line h
      match ← regionLoop sscanf c.realloc lines 0 ⟨List.replicate 10 none, 0⟩ with
      | none =>
        let h ← give .regions h
        let h ← give .file h
        let h ← give .line h
        some (h, none)
      | some r =>
        let h ← give .file h
        let h ← give .line h
        some (h, some r)
    else (give .file h).map (·, none)

/-- What is printed: the head line of a region, and its bytes, unset where `read` came short. -/
inductive Print
  | region (i : ℕ) (region : MemoryRegion)
  | dump (region : MemoryRegion) (bytes : List (Option UInt8))
  deriving DecidableEq

def printRegion (c : Calls) (i : ℕ) (region : MemoryRegion) (h : Holding) :
    Option (Holding × List Print) :=
  let regionSize := (region.endAddr - region.startAddr).toNat
  if c.mallocBuffer i then
    let h := take .buffer h
    if c.lseek i then
      match c.read i with
      | none => (give .buffer h).map (·, [])
      | some bytes =>
        let buffer := (List.range regionSize).map fun j => bytes[j]?
        (give .buffer h).map (·, [.dump region buffer])
    else (give .buffer h).map (·, [])
  else some (h, [])

def printRegions (c : Calls) : ℕ → List (Option MemoryRegion) → Holding →
    Option (Holding × List Print)
  | _, [], h => some (h, [])
  | _, none :: _, _ => none
  | i, some region :: cells, h => do
    let (h, out) ← printRegion c i region h
    let (h, rest) ← printRegions c (i + 1) cells h
    some (h, .region i region :: out ++ rest)

def printMem (sscanf : List Char → Option MemoryRegion) (c : Calls) (h : Holding) :
    Option (Holding × List Print) := do
  match ← getMemoryRegions sscanf c h with
  | (h, none) => some (h, [])
  | (h, some r) =>
    if c.openMem then
      let h := take .memFd h
      let (h, out) ← printRegions c 0 (r.cells.take r.count) h
      let h ← give .memFd h
      let h ← give .regions h
      some (h, out)
    else (give .regions h).map (·, [])

def Grows (realloc : ℕ → Bool) (n : ℕ) : Prop := ∀ k, 10 * 2 ^ k < n → realloc k = true

def Calls.report (c : Calls) (i : ℕ) (region : MemoryRegion) : List Print :=
  .region i region ::
    if c.mallocBuffer i && c.lseek i then
      match c.read i with
      | none => []
      | some bytes => [.dump region
          ((List.range (region.endAddr - region.startAddr).toNat).map fun j => bytes[j]?)]
    else []

end OsLabs.ProcInfo
