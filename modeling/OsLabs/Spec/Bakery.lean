import OsLabs.Lib.Run
import Mathlib.Algebra.Order.Ring.Int
import Mathlib.Data.Fin.Basic

/-! The bakery server, `lab-rpc/bakery/bakery_server.c`. It is single-threaded:
one call of `get_number_1_svc` or `bakery_service_1_svc` runs after another. What
C leaves undefined, an index outside of the tables or a ticket past `INT_MAX`, is
a fault and no result. -/

namespace OsLabs.Bakery

def MAX_CLNT_CNT : ℕ := 128
def INT_MAX : ℤ := 2 ^ 31 - 1
def INT_MIN : ℤ := -2 ^ 31

abbrev Slot := Fin MAX_CLNT_CNT

instance : NeZero MAX_CLNT_CNT := ⟨by decide⟩

inductive Fault
  | outOfBounds (idx : ℤ)
  | overflow
  deriving DecidableEq

/-- The numbers the service computes with, `float` in the source. -/
class Number (α : Type) extends Add α, Sub α, Mul α, Div α, Zero α, BEq α where
  infinity : α

/-- `struct REQUEST`, less the field the client keeps its answer in. -/
structure REQUEST (α : Type) where
  pid : ℤ
  idx : ℤ
  num : ℤ
  op : ℤ
  arg1 : α
  arg2 : α

/-- The tables of the server and the static result of `bakery_service_1_svc`. -/
structure Server (α : Type) where
  choosing : Slot → Bool
  numbers : Slot → ℤ
  pids : Slot → ℤ
  result : α

variable {α : Type} [Number α]

def init : Server α := ⟨fun _ => false, fun _ => 0, fun _ => 0, 0⟩

def slot (idx : ℤ) : Except Fault Slot :=
  if h : 0 ≤ idx ∧ idx < MAX_CLNT_CNT then .ok ⟨idx.toNat, by omega⟩
  else .error (.outOfBounds idx)

def maxNumber (numbers : Slot → ℤ) : ℤ :=
  (List.finRange MAX_CLNT_CNT).tail.foldl
    (fun res i => if numbers i > res then numbers i else res) (numbers 0)

omit [Number α] in
def getNumber1Svc (s : Server α) (argp : REQUEST α) : Except Fault (Server α × ℤ) := do
  let i ← slot argp.idx
  let pids := Function.update s.pids i argp.pid
  let choosing := Function.update s.choosing i true
  let result := maxNumber s.numbers + 1
  if INT_MAX < result then throw .overflow
  let numbers := Function.update s.numbers i result
  let choosing := Function.update choosing i false
  return ({ s with choosing, numbers, pids }, result)

/-- One turn of the loop: does client `i` keep the caller out? The caller's own
entries are only looked at when `i` has a ticket. -/
def turnsAway (s : Server α) (idx : ℤ) (i : Slot) : Except Fault Bool :=
  if s.choosing i then return true
  else if s.numbers i = 0 then return false
  else do
    let j ← slot idx
    return s.numbers i < s.numbers j || (s.numbers i = s.numbers j && s.pids i < s.pids j)

def turnedAway (s : Server α) (idx : ℤ) : Except Fault Bool :=
  (List.finRange MAX_CLNT_CNT).anyM (turnsAway s idx)

/-- The `switch` on the operation. A division by zero and an unknown operation
leave `result` as it is. -/
def compute (result : α) (argp : REQUEST α) : α :=
  match argp.op with
  | 0 => argp.arg1 + argp.arg2
  | 1 => argp.arg1 - argp.arg2
  | 2 => argp.arg1 * argp.arg2
  | 3 => if argp.arg2 == 0 then result else argp.arg1 / argp.arg2
  | _ => result

/-- The new state and the result returned, `INFINITY` for a caller turned away. -/
def bakeryService1Svc (s : Server α) (argp : REQUEST α) : Except Fault (Server α × α) := do
  if ← turnedAway s argp.idx then
    return ({ s with result := Number.infinity }, Number.infinity)
  let result := compute s.result argp
  let i ← slot argp.idx
  let numbers := Function.update s.numbers i 0
  let choosing := Function.update s.choosing i false
  return ({ s with choosing, numbers, result }, result)

inductive Request (α : Type)
  | getNumber (argp : REQUEST α)
  | bakeryService (argp : REQUEST α)

/-- The server handles one request; a fault has no next state. -/
def step (s : Server α) : Request α → Option (Server α)
  | .getNumber argp => (getNumber1Svc s argp).toOption.map Prod.fst
  | .bakeryService argp => (bakeryService1Svc s argp).toOption.map Prod.fst

/-- The same with the fault kept. -/
def handle (s : Server α) : Request α → Except Fault (Server α)
  | .getNumber argp => (getNumber1Svc s argp).map Prod.fst
  | .bakeryService argp => (bakeryService1Svc s argp).map Prod.fst

def Request.idx : Request α → ℤ
  | .getNumber argp => argp.idx
  | .bakeryService argp => argp.idx

def InTable (idx : ℤ) : Prop := 0 ≤ idx ∧ idx < MAX_CLNT_CNT

/-- No access goes outside of the tables, and a request for a slot outside of them
changes none of the three. -/
structure Guarded (s : Server α) (e : Request α) : Prop where
  inBounds : ∀ idx, handle s e ≠ .error (.outOfBounds idx)
  refused : ¬ InTable e.idx → ∀ s', handle s e = .ok s' →
    s'.choosing = s.choosing ∧ s'.numbers = s.numbers ∧ s'.pids = s.pids

def Passes (s : Server α) (i : Slot) : Prop := turnedAway s i.val = .ok false

/-- The clients in the order in which the tickets they hold were issued: a client
joins at the end with each ticket it gets and leaves when it is served. -/
def lineStep (line : List Slot) (s : Server α) : Request α → List Slot
  | .getNumber argp =>
    match slot argp.idx with
    | .ok i => line.erase i ++ [i]
    | .error _ => line
  | .bakeryService argp =>
    match slot argp.idx, turnedAway s argp.idx with
    | .ok i, .ok false => line.erase i
    | _, _ => line

def line (tr : List (Server α × Request α)) : List Slot :=
  tr.foldl (fun q p => lineStep q p.1 p.2) []

/-- The client asks from a slot of the table, and for a ticket only when it has none. -/
def Waits (s : Server α) : Request α → Prop
  | .getNumber argp => ∃ i : Slot, argp.idx = i.val ∧ s.numbers i = 0
  | .bakeryService argp => ∃ i : Slot, argp.idx = i.val

/-- What the next call of `get_number_1_svc` computes is an `int`. -/
def TicketFits (s : Server α) : Prop :=
  INT_MIN ≤ maxNumber s.numbers + 1 ∧ maxNumber s.numbers + 1 ≤ INT_MAX

def drained (numbers : Slot → ℤ) : Bool := (List.finRange MAX_CLNT_CNT).all (numbers · = 0)

def issuedStep (n : ℕ) (s : Server α) : Request α → ℕ
  | .getNumber _ => (if drained s.numbers then 0 else n) + 1
  | .bakeryService _ => n

/-- How many tickets were issued, from the last one on that found the table empty. -/
def issued (tr : List (Server α × Request α)) : ℕ :=
  tr.foldl (fun n p => issuedStep n p.1 p.2) 0

end OsLabs.Bakery
