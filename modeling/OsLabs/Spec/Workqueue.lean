import OsLabs.Lib.Mailbox
import OsLabs.Spec.Keyboard

/-! The workqueue driver with its interrupts and its two works interleaved. The handler
stores the scancode in both works and then queues them, `work_sleep_fn` sleeps before it
reads its scancode, and an interrupt may fall between any two steps of a work. -/

namespace OsLabs.Keyboard.Workq

inductive Work
  | immediate
  | delayed
  deriving DecidableEq

namespace State

def work (s : State) : Work → KeyWork
  | .immediate => s.workImmediate
  | .delayed => s.workDelayed

def setWork (s : State) (kw : KeyWork) : Work → State
  | .immediate => { s with workImmediate := kw }
  | .delayed => { s with workDelayed := kw }

/-- What follows the sleep, if there is one. -/
def workFn (s : State) : Work → State
  | .immediate => workNosleepFn s
  | .delayed => workSleepFn s

end State

inductive Handler
  | idle
  | store (w : Work) (code : UInt8)
  | queue (w : Work)
  deriving DecidableEq

/-- The driver, with the scancodes of all interrupts so far, those stored in each work and
those each work has processed, newest last. A work function that is `begun` has not read
its scancode yet. -/
structure Driver where
  state : State
  handler : Handler
  stage : Work → Stage
  arrived : List UInt8
  stored : Work → List UInt8
  processed : Work → List UInt8

namespace Driver

inductive Event
  | irq (code : UInt8)
  /-- the next step of the handler -/
  | handler
  | start (w : Work)
  | process (w : Work)
  | finish (w : Work)
  deriving DecidableEq

def loaded : Driver := ⟨init, .idle, fun _ => .idle, [], fun _ => [], fun _ => []⟩

/-- One scancode is put in the place of the one before, the works are queued in turn. -/
def handle (d : Driver) : Option Driver :=
  match d.handler with
  | .idle => none
  | .store w code =>
    some { d with
      state := d.state.setWork { d.state.work w with scancode := code } w
      stored := Function.update d.stored w (d.stored w ++ [code])
      handler := match w with
        | .immediate => .store .delayed code
        | .delayed => .queue .immediate }
  | .queue w =>
    some { d with
      state := d.state.setWork (queueWork (d.state.work w)) w
      handler := match w with
        | .immediate => .queue .delayed
        | .delayed => .idle }

/-- The handler does not interrupt itself, a work does not run beside itself. -/
def step (d : Driver) : Event → Option Driver
  | .irq code =>
    if d.handler = .idle then
      some { d with handler := .store .immediate code, arrived := d.arrived ++ [code] }
    else none
  | .handler => d.handle
  | .start w =>
    if (d.state.work w).pending ∧ d.stage w = .idle then
      some { d with
        state := d.state.setWork { d.state.work w with pending := false } w
        stage := Function.update d.stage w .begun }
    else none
  | .process w =>
    if d.stage w = .begun then
      some { d with
        state := d.state.workFn w
        processed := Function.update d.processed w
          (d.processed w ++ [(d.state.work w).scancode])
        stage := Function.update d.stage w .read }
    else none
  | .finish w =>
    if d.stage w = .read then some { d with stage := Function.update d.stage w .idle } else none

/-- The handler has stored the scancode in the work and not queued it yet. -/
def posted (d : Driver) : Work → Bool
  | .immediate =>
    match d.handler with
    | .store .delayed _ | .queue .immediate => true
    | _ => false
  | .delayed =>
    match d.handler with
    | .queue _ => true
    | _ => false

/-- A work as a mailbox from the handler to the work function. -/
def mailbox (d : Driver) (w : Work) : Mailbox UInt8 :=
  ⟨(d.state.work w).scancode, (d.state.work w).pending, d.stage w, d.posted w, d.stored w,
    d.processed w⟩

/-- What a step of the driver does to the mailbox of a work. -/
def delivery (d : Driver) (w : Work) : Event → Option (Mailbox.Event UInt8)
  | .irq _ => none
  | .handler =>
    match d.handler with
    | .idle => none
    | .store w' code => if w' = w then some (.put code) else none
    | .queue w' => if w' = w then some .ask else none
  | .start w' => if w' = w then some .start else none
  | .process w' => if w' = w then some .take else none
  | .finish w' => if w' = w then some .finish else none

/-- The scancode of the handler's interrupt where it is still to be stored. -/
def toStore (d : Driver) (w : Work) : List UInt8 :=
  match d.handler with
  | .store .immediate code => [code]
  | .store .delayed code => if w = .delayed then [code] else []
  | _ => []

def Idle (d : Driver) : Prop :=
  d.handler = .idle ∧ ∀ w, (d.state.work w).pending = false ∧ d.stage w = .idle

/-- Each work has processed the first of the scancodes in their order, each once, and when
nothing is left to be done it has processed them all. -/
def ExactlyOnce (d : Driver) : Prop :=
  ∀ w, d.processed w <+: d.arrived ∧ (d.Idle → d.processed w = d.arrived)

/-- The handler stores no other scancode in a work that still has to read the one before,
and queues no work that is still pending. -/
def Undisturbed (d : Driver) (e : Event) : Prop :=
  ∀ w, ∀ m ∈ d.delivery w e, (d.mailbox w).Undisturbed m

end Driver

end OsLabs.Keyboard.Workq
