import OsLabs.Spec.BakeryClient
import OsLabs.Spec.ProdconsClient

/-! The two RPC clients by themselves, whatever their calls come to: a call fails, or it
succeeds with any reply at all. -/

namespace OsLabs

/-- How the calls of a run came out, `ok` telling which of the events end one. -/
def outcomes {σ ε : Type} (ok : ε → Option Bool) (tr : List (σ × ε)) : List Bool :=
  tr.filterMap fun p => ok p.2

/-- A client that has not read through the result of a failed call, and that has printed a
result only after a call that succeeded. -/
structure Survives (readsNull prints : Prop) (calls : List Bool) : Prop where
  noNull : ¬ readsNull
  prints : prints → calls.getLast? = some true

namespace Prodcons.Thread

/-- The call begins, or comes back with a reply or without; a field of the reply is read, or
the clock. -/
inductive Event
  | call
  | succeed
  | fail
  | read (res : REQUEST)
  | time (late : Bool)

def step (t : Thread) : Event → Option Thread
  | .call => t.call
  | .succeed => t.succeed
  | .fail => t.fail
  | .read res => t.read res
  | .time late => t.time late

def Event.ok : Event → Option Bool
  | .succeed => some true
  | .fail => some false
  | .call | .read _ | .time _ => none

end Prodcons.Thread

namespace Bakery.Client

/-- `get_number_1` comes back, or `bakery_service_1` does. -/
inductive Event (α : Type)
  | number (num : Option ℤ)
  | result (res : Option α)

variable {α : Type} [Number α]

def step (c : Client α) (e : Event α) : Option (Client α) :=
  match c.pc, e with
  | .getNumber, .number num => some (c.number num)
  | .service, .result res => some (c.result res)
  | _, _ => none

omit [Number α] in
def Event.ok : Event α → Option Bool
  | .number num => some num.isSome
  | .result res => some res.isSome

end Bakery.Client

end OsLabs
