import OsLabs.Spec.Workqueue

/-! The workqueue driver with `process_key` taken access by access. The queue has one work
at a time under way on a processor, but the interrupts may come in on several, and then
the two works can call it at the same time. -/

namespace OsLabs.Keyboard.Workq

def label : Work → String
  | .immediate => "nosleep"
  | .delayed => "sleep"

/-- What is left to do of a call of `process_key`: the accesses to the two flags, one after
the other, and the `printk`. -/
inductive Call
  | done
  | setShift (b : Bool)
  | getShift (rest : Bool → Call)
  | getCaps (rest : Bool → Call)
  | setCaps (b : Bool)
  | printk (p : Printk)

namespace Call

def isDone : Call → Bool
  | .done => true
  | .setShift _ | .getShift _ | .getCaps _ | .setCaps _ | .printk _ => false

def resolveKey (code : UInt8) (rest : Option String → Call) : Call :=
  if h : code.toNat < 84 then
    let first := keymapLower[code.toNat].toList.headD '\x00'
    if first ≥ 'a' && first ≤ 'z' then
      .getShift fun shift => .getCaps fun caps =>
        let upper := shift ^^ caps
        rest (some (if upper then keymapUpper[code.toNat] else keymapLower[code.toNat]))
    else
      .getShift fun shift =>
        rest (some (if shift then keymapUpper[code.toNat] else keymapLower[code.toNat]))
  else rest none

def processKey (code : UInt8) (label : String) : Call :=
  let released := release code
  let scancode := codeOf code
  if !released && (scancode == 42 || scancode == 54) then .setShift true
  else if !released && scancode == 58 then .getCaps fun caps => .setCaps (!caps)
  else if released && (scancode == 42 || scancode == 54) then .setShift false
  else if !released then
    resolveKey scancode fun key =>
      match key with
      | some key => if key.length == 1 then .printk ⟨label, key, scancode⟩ else .done
      | none => .done
  else .done

def step (s : State) : Call → Option (Call × State)
  | .done => none
  | .setShift b => some (.done, { s with shiftPressed := b })
  | .getShift rest => some (rest s.shiftPressed, s)
  | .getCaps rest => some (rest s.capsLockOn, s)
  | .setCaps b => some (.done, { s with capsLockOn := b })
  | .printk p => some (.done, { s with log := s.log ++ [p] })

/-- All of them, with nothing in between. -/
def run (s : State) : Call → State
  | .done => s
  | .setShift b => { s with shiftPressed := b }
  | .getShift rest => (rest s.shiftPressed).run s
  | .getCaps rest => (rest s.capsLockOn).run s
  | .setCaps b => { s with capsLockOn := b }
  | .printk p => { s with log := s.log ++ [p] }

end Call

/-- The driver, and for each work what is left of its call. -/
structure Calls where
  driver : Driver
  call : Work → Call

namespace Calls

inductive Event
  /-- A step of the driver; `process` is the beginning of a call, with the scancode read. -/
  | driver (e : Driver.Event)
  | access (w : Work)
  deriving DecidableEq

def loaded : Calls := ⟨.loaded, fun _ => .done⟩

def step (t : Calls) : Event → Option Calls
  | .driver (.process w) =>
    let d := t.driver
    if d.stage w = .begun then
      let scancode := (d.state.work w).scancode
      some {
        driver := { d with
          processed := Function.update d.processed w (d.processed w ++ [scancode])
          stage := Function.update d.stage w .read }
        call := Function.update t.call w (.processKey scancode (label w)) }
    else none
  | .driver (.finish w) =>
    if (t.call w).isDone then (t.driver.step (.finish w)).map ({ t with driver := · }) else none
  | .driver e => (t.driver.step e).map ({ t with driver := · })
  | .access w =>
    ((t.call w).step t.driver.state).map fun (call, state) =>
      { driver := { t.driver with state }, call := Function.update t.call w call }

def Quiet (t : Calls) : Prop := ∀ w, (t.call w).isDone = true

instance (t : Calls) : Decidable t.Quiet :=
  decidable_of_iff ((t.call .immediate).isDone = true ∧ (t.call .delayed).isDone = true)
    ⟨fun h w => by cases w; exacts [h.1, h.2], fun h => ⟨h _, h _⟩⟩

/-- A work calls `process_key` only while the other is not in it. -/
def Apart (t : Calls) : Event → Prop
  | .driver (.process _) => t.Quiet
  | _ => True

instance (t : Calls) : ∀ e, Decidable (t.Apart e)
  | .driver (.process _) => inferInstanceAs (Decidable t.Quiet)
  | .driver (.irq _) | .driver .handler | .driver (.start _) | .driver (.finish _) | .access _ =>
    inferInstanceAs (Decidable True)

/-- The scancode a step begins to process, and the work that does. -/
def keystroke (t : Calls) : Event → Option (Work × UInt8)
  | .driver (.process w) => some (w, (t.driver.state.work w).scancode)
  | _ => none

/-- The scancodes processed, in order, each with the work that did it. -/
def keystrokes (tr : List (Calls × Event)) : List (Work × UInt8) :=
  tr.filterMap fun p => p.1.keystroke p.2

end Calls

end OsLabs.Keyboard.Workq
