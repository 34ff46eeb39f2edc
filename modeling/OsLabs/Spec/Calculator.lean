import OsLabs.Spec.Bakery

/-! The calculator server, `lab-rpc/calculator/calculator_server.c`. -/

namespace OsLabs.Calculator

open Bakery (Number)

structure CALCULATOR (α : Type) where
  op : ℤ
  arg1 : α
  arg2 : α
  result : α

variable {α : Type} [Number α]

def init : CALCULATOR α := ⟨0, 0, 0, 0⟩

/-- What the call leaves in its static `result`, which is also its reply. -/
def calculatorProc1Svc (result argp : CALCULATOR α) : CALCULATOR α :=
  match argp.op with
  | 0 => { result with result := argp.arg1 + argp.arg2 }
  | 1 => { result with result := argp.arg1 - argp.arg2 }
  | 2 => { result with result := argp.arg1 * argp.arg2 }
  | 3 =>
    if argp.arg2 != 0 then { result with result := argp.arg1 / argp.arg2 }
    else { result with result := 0 }
  | _ => result

def served (argps : List (CALCULATOR α)) : CALCULATOR α := argps.foldl calculatorProc1Svc init

/-- The result field of the reply to `argp` after that history. -/
def reply (argps : List (CALCULATOR α)) (argp : CALCULATOR α) : α :=
  (calculatorProc1Svc (served argps) argp).result

end OsLabs.Calculator
