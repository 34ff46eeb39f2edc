import Mathlib.Data.Nat.Digits.Defs
import OsLabs.Lib.Strtok
import OsLabs.Lib.Strtol

/-! The reports of `task-proc/proc_info.c` on the pages and the state of a process. A file
is the list of its characters. `PATH_SIZE`, which no file defines, is a parameter. -/

namespace OsLabs.ProcInfo

def NUL : Char := '\x00'

/-- What `sysconf(_SC_PAGE_SIZE)` and `getpagesize` return: a power of two, from 4 KiB to
what an `int` can hold. -/
structure PageSize where
  shift : ℕ
  shift_ge : 12 ≤ shift
  shift_le : shift ≤ 30

def PageSize.bytes (p : PageSize) : ℕ := 2 ^ p.shift

def fourKiB : PageSize := ⟨12, by decide, by decide⟩

/-- The order in which the host stores the bytes of an integer. -/
inductive Endian
  | little
  | big
  deriving DecidableEq

def native (e : Endian) (bytes : List UInt8) : UInt64 :=
  match e with
  | .little => .ofNat (Nat.ofDigits 256 (bytes.map UInt8.toNat))
  | .big => .ofNat (Nat.ofDigits 256 (bytes.reverse.map UInt8.toNat))

/-! ### `print_pagemap` -/

structure Page where
  address : ℕ
  pfn : UInt64
  softDirty : UInt64
  file : UInt64
  swapped : UInt64
  present : UInt64
  deriving DecidableEq

def printPage (address : ℕ) (data : UInt64) : Page :=
  ⟨address, data &&& (((1 : UInt64) <<< 55) - 1), (data >>> 55) &&& 1, (data >>> 61) &&& 1,
    (data >>> 62) &&& 1, (data >>> 63) &&& 1⟩

def entryIndex (p : PageSize) (i : ℕ) : ℕ := i / p.bytes * 8 % 2 ^ 64

/-- One turn of the loop over pages; `none` where `pread` does not give the whole entry, and
`offset` stays unset. -/
def pageTurn (e : Endian) (p : PageSize) (pagemap : List UInt8) (i : ℕ) : Option Page :=
  let bytes := (pagemap.drop (entryIndex p i)).take 8
  if bytes.length = 8 then some (printPage i (native e bytes)) else none

/-- The two addresses that begin a row. -/
def region (row : List Char) : Option (ℕ × ℕ) := do
  let addresses ← (tokens ' ' row).head?
  match tokens '-' addresses with
  | startStr :: endStr :: _ => some (strtoul startStr, strtoul endStr)
  | _ => none

/-- The loop over the pages of a region, in 64 bits; `none` if `fuel` turns do not end it. -/
def pageLoop (p : PageSize) : ℕ → ℕ → ℕ → Option (List ℕ)
  | 0, _, _ => none
  | fuel + 1, i, stop =>
    if i < stop then (pageLoop p fuel ((i + p.bytes) % 2 ^ 64) stop).map (i :: ·) else some []

def rowPages (p : PageSize) (fuel : ℕ) (row : List Char) : Option (List ℕ) :=
  match region row with
  | some (start, stop) => pageLoop p fuel start stop
  | none => some []

def rowsPages (p : PageSize) (fuel : ℕ) : List (List Char) → Option (List ℕ)
  | [] => some []
  | row :: rows => do
    let pages ← rowPages p fuel row
    let rest ← rowsPages p fuel rows
    return pages ++ rest

/-- A NUL in what was read becomes a newline. -/
def plain (c : Char) : Char := if c = NUL then '\n' else c

/-- The addresses handed to `print_page`, one after the other. -/
def printPagemap (pathSize : ℕ) (p : PageSize) (fuel : ℕ) (maps : List Char) : Option (List ℕ) :=
  rowsPages p fuel ((reads pathSize maps).flatMap fun buf => tokens '\n' (buf.map plain))

def pageCount (p : PageSize) (start stop : ℕ) : ℕ := (stop - start + p.bytes - 1) / p.bytes

def pagesOf (p : PageSize) (start stop : ℕ) : List ℕ :=
  (List.range (pageCount p start stop)).map fun k => start + p.bytes * k

def linePages (p : PageSize) (line : List Char) : List ℕ :=
  match region line with
  | some (start, stop) => pagesOf p start stop
  | none => []

/-- The pages of the lines of the whole file. -/
def filePages (p : PageSize) (maps : List Char) : List ℕ :=
  (tokens '\n' (maps.map plain)).flatMap (linePages p)

/-- The reads do not matter: all loops end, and the pages are those of the file. -/
def IndependentOfReads (pathSize : ℕ) (p : PageSize) (maps : List Char) : Prop :=
  ∃ fuel, printPagemap pathSize p fuel maps = some (filePages p maps)

/-- The region does not reach the last page below 2 ^ 64, behind which the loop would begin
at 0 again. -/
def Ends (p : PageSize) (row : List Char) : Prop :=
  ∀ r ∈ region row, r.1 + p.bytes * pageCount p r.1 r.2 < 2 ^ 64

instance (p : PageSize) (row : List Char) : Decidable (Ends p row) :=
  inferInstanceAs (Decidable (∀ r ∈ region row, _))

/-- What `strtok` finds first in a row: the addresses, if it begins with any. -/
def firstWord (row : List Char) : Option (List Char) := (tokens ' ' row).head?

/-- The piece that has the beginning of the first word has all of it, and no piece behind reads
as a region. -/
def wordKept : List (List Char) → Bool
  | [] => true
  | piece :: rest =>
    if firstWord piece = none then wordKept rest
    else firstWord piece = firstWord (piece ++ rest.flatten) && rest.all fun q => region q = none

/-- The reads cut the line behind its addresses only, or it has none to cut. -/
def CutBehind (pieces : List (List Char)) : Prop :=
  wordKept pieces ∨ region pieces.flatten = none ∧ ∀ piece ∈ pieces, region piece = none

instance (pieces : List (List Char)) : Decidable (CutBehind pieces) :=
  inferInstanceAs (Decidable (_ ∨ _))

/-- The lines of the file, each in the pieces that the reads make of it. -/
def linesInPieces (pathSize : ℕ) (maps : List Char) : List (List (List Char)) :=
  cuts '\n' ((reads pathSize maps).map fun buf => buf.map plain)

/-! ### `print_stat` -/

def NO_DESCR : List String := [
  "(1) pid  '%s'\n", "(2) comm '%s'\n", "(3) state  '%s'\n", "(4) ppid  '%s'\n",
  "(5) pgrp  '%s'\n", "(6) session  '%s'\n", "(7) tty_nr  '%s'\n", "(8) tpgid  '%s'\n",
  "(9) flags  '%s'\n", "(10) minflt  '%s'\n", "(11) cminflt  '%s'\n", "(12) majflt  '%s'\n",
  "(13) cmajflt  '%s'\n", "(14) utime  '%s'\n", "(15) stime  '%s'\n", "(16) cutime  '%s'\n",
  "(17) cstime  '%s'\n", "(18) priority  '%s'\n", "(19) nice  '%s'\n", "(20) num_threads  '%s'\n",
  "(21) itrealvalue  '%s'\n", "(22) starttime  '%s'\n", "(23) vsize  '%s'\n", "(24) rss  '%s'\n",
  "(25) rsslim  '%s'\n", "(26) startcode  '%s'\n", "(27) endcode  '%s'\n",
  "(28) startstack  '%s'\n", "(29) kstkesp  '%s'\n", "(30) kstkeip  '%s'\n",
  "(31) signal  '%s'\n", "(32) blocked  '%s'\n", "(33) sigignore  '%s'\n",
  "(34) sigcatch  '%s'\n", "(35) wchan  '%s'\n", "(36) nswap  '%s'\n", "(37) cnswap  '%s'\n",
  "(38) exit_signal  '%s'\n", "(39) processor  '%s'\n", "(40) rt_priority  '%s'\n",
  "(41) policy  '%s'\n", "(42) delayacct_blkio_ticks  '%s'\n", "(43) guest_time  '%s'\n",
  "(44) cguest_time  '%s'\n", "(45) start_data  '%s'\n", "(46) end_data  '%s'\n",
  "(47) start_brk  '%s'\n", "(48) arg_start  '%s'\n", "(49) arg_end  '%s'\n",
  "(50) env_start  '%s'\n", "(51) env_end  '%s'\n", "(52) exit_code  '%s'\n"]

/-- The loop over the tokens. An index past the table has no entry to print by. -/
def printTokens (i : ℕ) : List (List Char) → Option (List (String × List Char))
  | [] => some []
  | token :: rest => do
    let descr ← NO_DESCR[i]?
    let printed ← printTokens (i + 1) rest
    return (descr, token) :: printed

/-- `buf` is the array of `PATH_SIZE` characters before `fread` stores into it. `strtok` stops
at the first NUL, and runs out of the array where there is none. -/
def printStat (buf file : List Char) : Option (List (String × List Char)) :=
  let buf := file.take buf.length ++ buf.drop file.length
  if NUL ∈ buf then printTokens 0 (tokens ' ' (buf.takeWhile (· ≠ NUL))) else none

/-- A field other than the name. -/
structure Field where
  text : List Char
  ne_nil : text ≠ []
  no_space : ' ' ∉ text
  no_nul : NUL ∉ text

/-- A line of `/proc/[pid]/stat`, its name of any characters a C string can have. -/
structure StatLine where
  pid : Field
  comm : List Char
  fields : List Field
  exitCode : Field
  no_nul : NUL ∉ comm
  length_eq : fields.length = 49

namespace StatLine

/-- All but the last of the 52 fields. -/
def init (l : StatLine) : List (List Char) :=
  l.pid.text :: ('(' :: l.comm ++ [')']) :: l.fields.map Field.text

/-- The last field, with the newline that ends the line. -/
def last (l : StatLine) : List Char := l.exitCode.text ++ ['\n']

def text (l : StatLine) : List Char := l.init.flatMap (· ++ [' ']) ++ l.last

end StatLine

/-- Each field is printed with its own entry, and nothing else is. -/
def Labelled (buf : List Char) (l : StatLine) : Prop :=
  printStat buf l.text = some (NO_DESCR.zip (l.init ++ [l.last]))

end OsLabs.ProcInfo
