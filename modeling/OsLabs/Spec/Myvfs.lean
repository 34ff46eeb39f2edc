import Mathlib.Data.Int.Notation
import Mathlib.Logic.Function.Basic
import OsLabs.Lib.Pool

/-! Loading and unloading the module `lab-vfs/src/main.c`. -/

namespace OsLabs.Myvfs

def SLAB_NAME : String := "myvfs_cache"

def ENOMEM : ℤ := 12

/-- `sizeof(struct myvfs_inode)` and `sizeof(struct myvfs_inode *)`. -/
def sizeofInode : ℕ := 16

def sizeofPointer : ℕ := 8

/-- What the calls into the kernel come to. `kmemCacheAlloc i` is that of the call in
turn `i` of the loop, and `kmemCacheDestroy` that of the call behind these on the cache. -/
structure Kernel where
  registerFilesystem : ℤ
  unregisterFilesystem : ℤ
  kmalloc : Bool
  kmemCacheCreate : Bool
  kmemCacheAlloc : ℕ → Bool
  kmemCacheDestroy : List (Pool.Call ℕ) → Bool

/-- A cache is destroyed only if all its objects were returned. -/
def Kernel.DestroysReturned (k : Kernel) : Prop :=
  ∀ calls, k.kmemCacheDestroy calls = true → Pool.Returned calls

/-- `registered`, `cacheMem` and `cache` say whether the file system type is registered and
the array and the cache exist. The object taken in turn `i` is known as `i`. -/
structure Module where
  registered : Bool
  cacheMem : Bool
  /-- `cache_mem[i]`, null or an object. -/
  entries : ℕ → Option ℕ
  cache : Bool
  /-- The indices at which `cache_mem` was read or written. -/
  accesses : List ℕ
  /-- The calls made on the cache. -/
  calls : List (Pool.Call ℕ)
  log : List String

/-- Before it is loaded. The array will hold whatever its memory holds. -/
def blank (entries : ℕ → Option ℕ) : Module := ⟨false, false, entries, false, [], [], []⟩

namespace Module

variable (m : Module)

def printk (s : String) : Module := { m with log := m.log ++ [s] }

/-- `cache_mem[i] = p`. -/
def store (i : ℕ) (p : Option ℕ) : Module :=
  { m with entries := Function.update m.entries i p, accesses := m.accesses ++ [i] }

def read (i : ℕ) : Option ℕ × Module := (m.entries i, { m with accesses := m.accesses ++ [i] })

def kmemCacheAlloc (i : ℕ) : Module := { m with calls := m.calls ++ [.alloc i] }

def kmemCacheFree (p : Option ℕ) : Module := { m with calls := m.calls ++ [.free p] }

/-- A cache that is not destroyed remains; nobody looks at the status. -/
def kmemCacheDestroy (k : Kernel) : Module :=
  { m with cache := m.cache && !k.kmemCacheDestroy m.calls, calls := m.calls ++ [.destroy] }

def kfree : Module := { m with cacheMem := false }

end Module

variable (k : Kernel)

/-- The turns from `i` on of the loop that fills the array, and whether all of them went
through. -/
def allocLoop : ℕ → ℕ → Module → Bool × Module
  | 0, _, m => (true, m)
  | turns + 1, i, m =>
    if k.kmemCacheAlloc i then
      allocLoop turns (i + 1) ((m.kmemCacheAlloc i).store i (some i))
    else (false, m.store i none)

/-- The loop makes no turn when `cached_count` is negative. -/
def myvfsInit (pageSize : ℕ) (cachedCount : ℤ) (m : Module) : ℤ × Module :=
  let ret := k.registerFilesystem
  if ret ≠ 0 then (ret, m.printk "+ myvfs: can't register_filesystem\n")
  else
    let m := { m with registered := true }
    if !k.kmalloc then (-ENOMEM, m.printk "+ myvfs: can't kmalloc cache\n")
    else
      let m := { m with cacheMem := true }
      if !k.kmemCacheCreate then
        -- the cache destroyed is the null pointer
        (-ENOMEM, ((m.printk "+ myvfs: can't kmem_cache_create\n").kmemCacheDestroy k).kfree)
      else
        match allocLoop k cachedCount.toNat 0 { m with cache := true } with
        | (true, m) =>
          let m := m.printk s!"+ myvfs: alloc {cachedCount} objects into slab: {SLAB_NAME}\n"
          let m := m.printk
            s!"+ myvfs: object size {sizeofInode} bytes, full size {sizeofPointer * pageSize} bytes\n"
          (0, m.printk "+ myvfs: module loaded\n")
        | (false, m) =>
          let m := m.printk "+ myvfs: can't kmem_cache_alloc\n"
          -- `*cache_mem` is the first entry
          let (p, m) := m.read 0
          (-ENOMEM, ((m.kmemCacheFree p).kmemCacheDestroy k).kfree)

def freeLoop : ℕ → ℕ → Module → Module
  | 0, _, m => m
  | turns + 1, i, m =>
    let (p, m) := m.read i
    if p.isSome then
      let (p, m) := m.read i
      freeLoop turns (i + 1) (m.kmemCacheFree p)
    else freeLoop turns (i + 1) m

def myvfsExit (cachedCount : ℤ) (m : Module) : Module :=
  let ret := k.unregisterFilesystem
  let m := if ret ≠ 0 then m.printk "+ myvfs: can't unregister_filesystem\n"
    else { m with registered := false }
  let m := freeLoop cachedCount.toNat 0 m
  (m.kfree.kmemCacheDestroy k).printk "+ myvfs: module unloaded\n"

/-- What a load that fails should leave: nothing. -/
structure NothingLeft (m : Module) : Prop where
  registered : m.registered = false
  objects : Pool.Returned m.calls
  cache : m.cache = false
  cacheMem : m.cacheMem = false

/-- What a load and an unload should have done, in an array of `pageSize` entries. -/
structure Balanced (pageSize : ℕ) (m : Module) : Prop where
  inBounds : ∀ i ∈ m.accesses, i < pageSize
  objects : Pool.Returned m.calls

end OsLabs.Myvfs
