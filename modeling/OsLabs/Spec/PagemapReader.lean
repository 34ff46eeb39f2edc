import OsLabs.Spec.ProcInfo

/-! The program `task-proc/pagemap.c`, which `run_pagemap` of `proc_info.c` starts to look one
address up. -/

namespace OsLabs.PagemapReader

open ProcInfo (Endian PageSize Page pageTurn entryIndex)

def PAGEMAP_ENTRY : ℕ := 8

def GET_BIT (x : UInt64) (y : UInt64) : UInt64 := (x &&& (1 <<< y)) >>> y

def GET_PFN (x : UInt64) : UInt64 := x &&& 0x7FFFFFFFFFFFFF

/-- The first byte of the `int` 1 is 0. -/
def isBigendian : Endian → Bool
  | .little => false
  | .big => true

/-- What is printed of an entry, and where it was read. -/
structure Report where
  fileOffset : ℕ
  readVal : UInt64
  pfn : Option UInt64
  swapped : Bool
  deriving DecidableEq

def report (fileOffset : ℕ) (readVal : UInt64) : Report where
  fileOffset
  readVal
  pfn := if GET_BIT readVal 63 ≠ 0 then some (GET_PFN readVal) else none
  swapped := GET_BIT readVal 62 ≠ 0

/-- `c_buf`, most significant byte first. -/
def cBuf (e : Endian) (bytes : List UInt8) : List UInt8 :=
  if isBigendian e then bytes else bytes.reverse

def shiftIn (readVal : UInt64) (c : UInt8) : UInt64 := (readVal <<< 8) + c.toUInt64

/-- `none` where the file ends within the entry. -/
def readPagemap (e : Endian) (p : PageSize) (pagemap : List UInt8) (virtAddr : ℕ) :
    Option Report :=
  let fileOffset := virtAddr / p.bytes * PAGEMAP_ENTRY % 2 ^ 64
  let bytes := (pagemap.drop fileOffset).take PAGEMAP_ENTRY
  if bytes.length = PAGEMAP_ENTRY then
    some (report fileOffset ((cBuf e bytes).foldl shiftIn 0))
  else none

/-- `strtol` gives a `long`, which becomes an `unsigned long`. -/
def main (e : Endian) (p : PageSize) (pagemap : List UInt8) (address : List Char) :
    Option Report :=
  readPagemap e p pagemap (strtol address % 2 ^ 64).toNat

/-- The address of the command line, `0x%lx`. -/
def runPagemap (e : Endian) (p : PageSize) (pagemap : List UInt8) (startAddr : UInt64) :
    Option Report :=
  main e p pagemap (hexText startAddr.toNat)

def pageOf (p : PageSize) (addr : UInt64) : ℕ := addr.toNat / p.bytes * p.bytes

/-- Both read the same entry, and print the same of it. -/
def Agree (e : Endian) (p : PageSize) (pagemap : List UInt8) (addr : UInt64) : Prop :=
  ∃ report page, runPagemap e p pagemap addr = some report ∧
    pageTurn e p pagemap (pageOf p addr) = some page ∧
    report.fileOffset = entryIndex p (pageOf p addr) ∧
    (report.swapped = true ↔ page.swapped = 1) ∧
    report.pfn = if page.present = 1 then some page.pfn else none

end OsLabs.PagemapReader
