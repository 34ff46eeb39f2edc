import OsLabs.Lib.Bytes
import OsLabs.Lib.Cyclic
import OsLabs.Lib.Serve

/-! The cookie pot of `lab-module/task-03/fortune.c`. The user's side of a call,
whether and how far the data could be copied, is a parameter of the call. A store
or a read outside of the arrays is a fault. -/

namespace OsLabs.Fortune

/-- `PAGE_SIZE` of the machine, which is also `COOKIE_POT_SIZE`. -/
structure Page where
  size : ℕ
  pos : 0 < size
  small : size < 2 ^ 30

def ENOSPC : ℤ := 28
def EFAULT : ℤ := 14

inductive Fault
  | cookiePot (i : ℤ)
  | tmpBuf
  deriving DecidableEq

structure Device (P : Page) where
  cookiePot : Region P.size
  tmpBuf : Region P.size
  readInd : ℕ
  writeInd : ℕ
  deriving DecidableEq

/-- What the user gets: the value returned, the bytes stored in his buffer and
his file position after the call. -/
structure Reply where
  ret : ℤ
  toUser : List UInt8
  fPos : ℕ
  deriving DecidableEq

inductive Call
  /-- `fault` is what a `copy_from_user` that fails has left in the pot. -/
  | write (buf : List UInt8) (fPos : ℕ) (fault : Option (List UInt8))
  /-- `left` is what `copy_to_user` returns, the number of bytes not copied. -/
  | read (len fPos left : ℕ)

variable {P : Page}

def mdInit (P : Page) : Device P := ⟨.zeros _, .zeros _, 0, 0⟩

def storePot (pot : Region P.size) (i : ℤ) (bs : List UInt8) : Except Fault (Region P.size) :=
  match pot.store i bs with
  | some pot => .ok pot
  | none => .error (.cookiePot i)

/-- The size test is in `unsigned long`. -/
def fortuneWrite (d : Device P) (buf : List UInt8) (fPos : ℕ) (fault : Option (List UInt8)) :
    Except Fault (Device P × Reply) := do
  let len := buf.length
  if len > (P.size + 2 ^ 64 - d.writeInd + 1) % 2 ^ 64 then
    return (d, ⟨-ENOSPC, [], fPos⟩)
  if let some got := fault then
    let cookiePot ← storePot d.cookiePot d.writeInd (got.take len)
    return ({ d with cookiePot }, ⟨-EFAULT, [], fPos⟩)
  let cookiePot ← storePot d.cookiePot d.writeInd buf
  let writeInd := d.writeInd + len
  let cookiePot ← storePot cookiePot ((writeInd : ℤ) - 1) [0]
  return ({ d with cookiePot, writeInd }, ⟨len, [], fPos⟩)

def newline : UInt8 := 10

/-- The length of the user's buffer is not looked at. -/
def fortuneRead (d : Device P) (_len fPos left : ℕ) : Except Fault (Device P × Reply) := do
  if fPos > 0 ∨ d.writeInd = 0 then return (d, ⟨0, [], fPos⟩)
  let readInd := if d.readInd ≥ d.writeInd then 0 else d.readInd
  let some cookie := d.cookiePot.str readInd | throw (.cookiePot readInd)
  let (tmpBuf, readLen) := d.tmpBuf.snprintf (cookie ++ [newline])
  let some toUser := tmpBuf.load readLen | throw .tmpBuf
  if left ≠ 0 then
    return ({ d with tmpBuf, readInd }, ⟨-EFAULT, toUser.take (readLen - left), fPos⟩)
  return ({ d with tmpBuf, readInd := readInd + readLen }, ⟨readLen, toUser, fPos + readLen⟩)

def call (d : Device P) : Call → Except Fault (Device P × Reply)
  | .write buf fPos fault => fortuneWrite d buf fPos fault
  | .read len fPos left => fortuneRead d len fPos left

def Device.cursor (d : Device P) : ℕ := if d.readInd ≥ d.writeInd then 0 else d.readInd

def Device.cookie (d : Device P) : List UInt8 :=
  (d.cookiePot.bytes.drop d.cursor).takeWhile (· ≠ 0)

/-- What `snprintf` stores in `tmpBuf` for it. -/
def Device.printed (d : Device P) : List UInt8 := (d.cookie ++ [newline]).take (P.size - 1) ++ [0]

/-- Stores of a write within the pot: its data, if all of them are copied, are not one byte
more than there is room for, and it is no write of nothing into the empty pot. -/
def Fits (d : Device P) : Call → Prop
  | .write buf _ none => d.writeInd + buf.length ≠ P.size + 1 ∧ 0 < d.writeInd + buf.length
  | .write buf _ (some got) =>
    ¬ (d.writeInd + buf.length = P.size + 1 ∧ buf.length ≤ got.length)
  | .read _ _ _ => True

/-- No call has stored outside of the pot, and `writeInd` is at most its size, all the way. -/
def StaysInPot (P : Page) (cs : List Call) : Prop :=
  ∀ before, before <+: cs →
    ∃ d rs, serve call (mdInit P) before = .ok (d, rs) ∧ d.writeInd ≤ P.size

def Reachable (d : Device P) : Prop := ∃ cs rs, serve call (mdInit P) cs = .ok (d, rs)

/-- The read copies no more than `len` bytes, returns no more than `len`, and copies
nothing but what `snprintf` has just stored. -/
def RespectsBuffer (d : Device P) (len fPos left : ℕ) : Prop :=
  ∃ d' r, fortuneRead d len fPos left = .ok (d', r) ∧
    r.toUser.length ≤ len ∧ r.ret ≤ len ∧ r.toUser <+: d.printed

def Unnoticed (d d' : Device P) : Prop := ∀ cs, replies call d' cs = replies call d cs

/-- A call that fails moves no cursor: it is a write, or a read that does not start by going
back to the first byte. Going back is not noticed in a pot of nothing but NULs that has
room for one more. -/
def LeavesCursor (d : Device P) : Call → Prop
  | .write _ _ _ => True
  | .read _ _ _ => d.readInd < d.writeInd ∨
    d.writeInd + 1 = P.size ∧ ∀ b ∈ d.cookiePot.bytes.take d.writeInd, b = 0

structure Message where
  bytes : List UInt8
  nul_free : 0 ∉ bytes
  newline_last : bytes.getLast? = some newline

/-- A successful use of the device, each on a fresh open. -/
inductive Op
  | echo (m : Message)
  | cat (len : ℕ)

def Op.call : Op → Call
  | echo m => .write m.bytes 0 none
  | cat len => .read len 0 0

def Op.written : Op → List UInt8
  | echo m => m.bytes
  | cat _ => []

/-- What the pot is for: a cyclic list of messages, `echo` adding one and `cat`
reading the next. -/
def use (c : Cyclic Message) : Op → Cyclic Message × Reply
  | .echo m => (c.add m, ⟨m.bytes.length, [], 0⟩)
  | .cat _ =>
    match c.next with
    | some (m, c) => (c, ⟨m.bytes.length, m.bytes, m.bytes.length⟩)
    | none => (c, ⟨0, [], 0⟩)

end OsLabs.Fortune
