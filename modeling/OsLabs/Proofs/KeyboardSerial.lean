import OsLabs.Proofs.Shift
import OsLabs.Proofs.Workqueue
import OsLabs.Spec.WorkqueueCalls

/-! The two works of the workqueue driver share Shift and CapsLock. However interrupts and works
are interleaved, the driver is one keyboard that takes the scancodes of both works in the order
in which they were processed, if each is processed in one go. -/

namespace OsLabs.Keyboard.Workq

/-! ### One keyboard -/

/-- Either of the Shift keys changed last by being pressed. -/
def shiftAfter (taken : List (Work × UInt8)) : Bool :=
  Held.flag codeOf (!release ·) shiftKeys (taken.map Prod.snd)

/-- CapsLock was pressed an odd number of times. -/
def capsAfter (taken : List (Work × UInt8)) : Bool := !decide (Even ((taken.map Prod.snd).count 58))

/-- What a keyboard logs that has taken these scancodes and takes one more. -/
def logged (taken : List (Work × UInt8)) (p : Work × UInt8) : List Printk :=
  (prints (shiftAfter taken) (capsAfter taken) p.2).map fun key => ⟨label p.1, key.1, key.2⟩

def serialLog (taken : List (Work × UInt8)) : List Printk :=
  (List.range taken.length).flatMap fun n => taken[n]?.toList.flatMap (logged (taken.take n))

theorem serialLog_snoc (taken : List (Work × UInt8)) (p : Work × UInt8) :
    serialLog (taken ++ [p]) = serialLog taken ++ logged taken p := by
  unfold serialLog
  rw [List.length_append, List.length_singleton, List.range_succ, List.flatMap_append,
    List.flatMap_singleton, List.getElem?_concat_length, List.take_left, Option.toList_some,
    List.flatMap_singleton]
  congr 1
  apply List.flatMap_congr
  intro n hn
  have hlt : n < taken.length := List.mem_range.1 hn
  rw [List.getElem?_append_left hlt, List.take_append_of_le_length (Nat.le_of_lt hlt)]

/-- The driver is where the one keyboard is. -/
structure Serial (taken : List (Work × UInt8)) (s : State) : Prop where
  shift : s.shiftPressed = shiftAfter taken
  caps : s.capsLockOn = capsAfter taken
  log : s.log = serialLog taken

theorem serial_init : Serial [] init := ⟨rfl, rfl, rfl⟩

variable {s : State} {taken : List (Work × UInt8)}

theorem Serial.setWork (h : Serial taken s) (kw : KeyWork) (w : Work) :
    Serial taken (s.setWork kw w) := by
  cases w <;> exact ⟨h.shift, h.caps, h.log⟩

theorem workFn_eq (s : State) (w : Work) : s.workFn w = processKey s (s.work w).scancode (label w) := by
  cases w <;> rfl

theorem capsAfter_snoc (taken : List (Work × UInt8)) (w : Work) (c : UInt8) :
    capsAfter (taken ++ [(w, c)]) = (kind c).capsLockOn (capsAfter taken) := by
  unfold capsAfter
  rw [List.map_append, List.count_append, List.map_singleton]
  by_cases hc : c = 58
  · rw [(kind_caps_iff c).2 hc, hc, List.count_singleton_self, Kind.capsLockOn]
    simp only [Nat.even_add_one, decide_not]
  · have hkind : kind c ≠ .caps := mt (kind_caps_iff c).1 hc
    rw [List.count_singleton, if_neg (by simpa using hc), Nat.add_zero]
    cases hk : kind c <;> simp_all [Kind.capsLockOn]

theorem Serial.workFn (h : Serial taken s) (w : Work) :
    Serial (taken ++ [(w, (s.work w).scancode)]) (s.workFn w) := by
  rw [workFn_eq, processKey_spec]
  refine ⟨?_, ?_, ?_⟩
  · show (kind _).shiftPressed s.shiftPressed = _
    rw [h.shift, kind_shiftPressed, shiftAfter, shiftAfter, List.map_append, List.map_singleton,
      Held.flag_snoc]
  · show (kind _).capsLockOn s.capsLockOn = _
    rw [h.caps, capsAfter_snoc]
  · show s.log ++ _ = _
    rw [h.log, serialLog_snoc, logged, h.shift, h.caps]

/-! ### The driver -/

namespace Driver

variable {d d' : Driver} {e : Event} {tr : List (Driver × Event)}

def keystroke (d : Driver) : Event → Option (Work × UInt8)
  | .process w => some (w, (d.state.work w).scancode)
  | .irq _ | .handler | .start _ | .finish _ => none

/-- The scancodes processed, in order, each with the work that did it. -/
def keystrokes (tr : List (Driver × Event)) : List (Work × UInt8) :=
  tr.filterMap fun p => p.1.keystroke p.2

theorem keystrokes_snoc (tr : List (Driver × Event)) (d : Driver) (e : Event) :
    keystrokes (tr ++ [(d, e)]) = keystrokes tr ++ (d.keystroke e).toList := by
  rw [keystrokes, keystrokes, List.filterMap_append]
  cases h : d.keystroke e <;> simp [h]

def processedBy (w : Work) (taken : List (Work × UInt8)) : List UInt8 :=
  (taken.filter (·.1 = w)).map Prod.snd

theorem processed_step (h : d.step e = some d') (w : Work) :
    d'.processed w = d.processed w ++ processedBy w (d.keystroke e).toList := by
  cases e with
  | process w' =>
    simp only [step] at h
    split_ifs at h
    obtain rfl := Option.some.inj h
    by_cases hw : w' = w
    · subst hw
      simp [keystroke, processedBy]
    · simp [keystroke, processedBy, hw, Function.update_of_ne (Ne.symm hw)]
  | handler =>
    simp only [step, handle] at h
    cases hh : d.handler <;> simp only [hh, reduceCtorEq, Option.some.injEq] at h
    · subst h
      simp [keystroke, processedBy]
    · subst h
      simp [keystroke, processedBy]
  | irq _ | start _ | finish _ =>
    simp only [step] at h
    split_ifs at h
    obtain rfl := Option.some.inj h
    simp [keystroke, processedBy]

theorem serial_step (hs : Serial taken d.state) (h : d.step e = some d') :
    Serial (taken ++ (d.keystroke e).toList) d'.state := by
  cases e with
  | process w =>
    simp only [step] at h
    split_ifs at h
    obtain rfl := Option.some.inj h
    exact hs.workFn w
  | handler =>
    rw [keystroke, Option.toList_none, List.append_nil]
    simp only [step, handle] at h
    cases hh : d.handler <;> simp only [hh, reduceCtorEq, Option.some.injEq] at h
    · subst h
      exact hs.setWork _ _
    · subst h
      exact hs.setWork _ _
  | start w =>
    rw [keystroke, Option.toList_none, List.append_nil]
    simp only [step] at h
    split_ifs at h
    obtain rfl := Option.some.inj h
    exact hs.setWork _ _
  | irq _ | finish _ =>
    rw [keystroke, Option.toList_none, List.append_nil]
    simp only [step] at h
    split_ifs at h
    obtain rfl := Option.some.inj h
    exact hs

theorem count_taken (taken : List (Work × UInt8)) (c : UInt8) :
    (taken.map Prod.snd).count c =
      (processedBy .immediate taken).count c + (processedBy .delayed taken).count c := by
  unfold processedBy
  induction taken with
  | nil => rfl
  | cons p taken ih =>
    obtain ⟨w, a⟩ := p
    rw [List.map_cons, List.count_cons, ih]
    cases w <;> simp [List.count_cons] <;> omega

/-- Each work has processed its part of one sequence of scancodes; Shift, CapsLock and the log
are those of a keyboard that takes this sequence. -/
theorem serial_run (h : Run step loaded tr d) :
    (∀ w, processedBy w (keystrokes tr) = d.processed w) ∧ Serial (keystrokes tr) d.state := by
  induction h with
  | nil => exact ⟨fun _ => rfl, serial_init⟩
  | snoc _ he ih =>
    obtain ⟨hprocessed, hserial⟩ := ih
    rw [keystrokes_snoc]
    refine ⟨?_, serial_step hserial he⟩
    intro w
    rw [processed_step he, ← hprocessed, processedBy, List.filter_append, List.map_append]
    rfl

/-- Both works have toggled CapsLock for each time it was pressed. -/
theorem ExactlyOnce.capsAfter (honce : d.ExactlyOnce) (hidle : d.Idle)
    {taken : List (Work × UInt8)} (h : ∀ w, processedBy w taken = d.processed w) :
    capsAfter taken = false := by
  have hall : ∀ w, processedBy w taken = d.arrived := fun w => (h w).trans ((honce w).2 hidle)
  rw [Workq.capsAfter, count_taken, hall, hall]
  simp

end Driver

end OsLabs.Keyboard.Workq
