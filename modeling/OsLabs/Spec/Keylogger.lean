import Mathlib.Data.Int.Notation
import OsLabs.Spec.Workqueue

/-! Loading and unloading the workqueue driver: `keylogger_init` with its failures and
`keylogger_exit`, interleaved with interrupts and works. -/

namespace OsLabs.Keyboard.Workq

inductive Memory
  | null
  | allocated
  | initialised
  | freed
  deriving DecidableEq

inductive Queue
  | null
  | created
  | destroyed
  deriving DecidableEq

/-- What gives everything back: the last failure path of `keylogger_init`, or
`keylogger_exit`. The other failure path starts at its `free_irq`. -/
inductive Path
  | failed
  | exit
  deriving DecidableEq

/-- The call that comes next. -/
inductive Pc
  | requestIrq
  | allocWorkqueue
  | kmalloc (w : Work)
  | test
  | initWork (w : Work)
  | loaded
  | cancelWorkSync (w : Work)
  | kfree (p : Path) (w : Work)
  | destroyWorkqueue (p : Path)
  | synchronizeIrq
  | freeIrq (p : Path)
  /-- within `free_irq`: the handler is unregistered, and may still be running -/
  | awaitHandler (p : Path)
  | notLoaded (ret : ℤ)
  | unloaded
  deriving DecidableEq

def ENOMEM : ℤ := 12

def kfree : Memory → Memory
  | .null => .null
  | _ => .freed

structure Keylogger where
  pc : Pc
  registered : Bool
  keyWq : Queue
  memory : Work → Memory
  driver : Driver

namespace Keylogger

inductive Event
  /-- `request_irq` returns -/
  | requestIrq (ret : ℤ)
  /-- an allocation succeeds, or not -/
  | alloc (ok : Bool)
  /-- `rmmod` -/
  | unload
  | next
  | driver (e : Driver.Event)
  deriving DecidableEq

def insmod : Keylogger := ⟨.requestIrq, false, .null, fun _ => .null, .loaded⟩

/-- A work that is no longer, or not yet, queued. -/
def unqueue (s : Keylogger) (w : Work) : Driver :=
  { s.driver with
    state := s.driver.state.setWork { s.driver.state.work w with pending := false } w }

def drained (s : Keylogger) : Bool :=
  [Work.immediate, .delayed].all fun w =>
    !(s.driver.state.work w).pending && s.driver.stage w == .idle

/-- The calls that do not fail. Those that wait are taken when they need wait no longer. -/
def next (s : Keylogger) : Option Keylogger :=
  match s.pc with
  | .test =>
    if s.memory .immediate = .null ∨ s.memory .delayed = .null then
      some { s with pc := .kfree .failed .immediate }
    else some { s with pc := .initWork .immediate }
  | .initWork w =>
    some { s with
      memory := Function.update s.memory w .initialised
      driver := s.unqueue w
      pc := match w with
        | .immediate => .initWork .delayed
        | .delayed => .loaded }
  | .cancelWorkSync w =>
    if s.driver.stage w = .idle then
      some { s with
        driver := s.unqueue w
        pc := match w with
          | .immediate => .cancelWorkSync .delayed
          | .delayed => .kfree .exit .immediate }
    else none
  | .kfree p w =>
    some { s with
      memory := Function.update s.memory w (kfree (s.memory w))
      pc := match w with
        | .immediate => .kfree p .delayed
        | .delayed => .destroyWorkqueue p }
  | .destroyWorkqueue p =>
    let pc := match p with
      | .failed => .freeIrq .failed
      | .exit => .synchronizeIrq
    if s.keyWq = .null ∧ p = .exit then some { s with pc }
    else if s.drained then some { s with keyWq := .destroyed, pc }
    else none
  | .synchronizeIrq =>
    if s.driver.handler = .idle then some { s with pc := .freeIrq .exit } else none
  | .freeIrq p => some { s with registered := false, pc := .awaitHandler p }
  | .awaitHandler p =>
    if s.driver.handler = .idle then
      some { s with
        pc := match p with
          | .failed => .notLoaded (-ENOMEM)
          | .exit => .unloaded }
    else none
  | .requestIrq | .allocWorkqueue | .kmalloc _ | .loaded | .notLoaded _ | .unloaded => none

/-- An interrupt is taken while the handler is registered. The driver goes on whatever its
pointers point to. -/
def step (s : Keylogger) : Event → Option Keylogger
  | .requestIrq ret =>
    if s.pc = .requestIrq then
      if ret ≠ 0 then some { s with pc := .notLoaded ret }
      else some { s with registered := true, pc := .allocWorkqueue }
    else none
  | .alloc ok =>
    match s.pc with
    | .allocWorkqueue =>
      if ok then some { s with keyWq := .created, pc := .kmalloc .immediate }
      else some { s with pc := .freeIrq .failed }
    | .kmalloc w =>
      some { s with
        memory := Function.update s.memory w (if ok then .allocated else .null)
        pc := match w with
          | .immediate => .kmalloc .delayed
          | .delayed => .test }
    | _ => none
  | .unload => if s.pc = .loaded then some { s with pc := .cancelWorkSync .immediate } else none
  | .next => s.next
  | .driver e =>
    match e with
    | .irq _ =>
      if s.registered then (s.driver.step e).map fun driver => { s with driver } else none
    | _ => (s.driver.step e).map fun driver => { s with driver }

/-- The queue and both works are there, initialised, and not given back. -/
def Ready (s : Keylogger) : Prop := s.keyWq = .created ∧ ∀ w, s.memory w = .initialised

def HandlerSafe (s : Keylogger) : Prop := s.driver.handler ≠ .idle → s.Ready

/-- From the last `INIT_WORK` up to the first `kfree` of `keylogger_exit`. -/
def Live (s : Keylogger) : Prop :=
  match s.pc with
  | .loaded | .cancelWorkSync _ | .kfree .exit .immediate => True
  | _ => False

/-- Every interrupt falls into that time, and no handler is running when it ends. -/
def Timely (s : Keylogger) : Event → Prop
  | .driver (.irq _) => s.Live
  | .next => s.pc = .kfree .exit .immediate → s.driver.handler = .idle
  | _ => True

end Keylogger

end OsLabs.Keyboard.Workq
