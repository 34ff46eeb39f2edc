import OsLabs.Proofs.KeyboardSerial

/-! The two works taken access by access. While they keep out of each other's calls of
`process_key`, each call might as well be one step, and the driver is one keyboard. -/

namespace OsLabs.Keyboard.Workq

/-! ### One call -/

namespace Call

variable {c c' : Call} {s s' : State}

theorem isDone_iff : c.isDone = true ↔ c = .done := by
  cases c <;> simp [isDone]

/-- An access and what is left are the whole. -/
theorem run_step (h : c.step s = some (c', s')) : c'.run s' = c.run s := by
  cases c <;> simp only [step, reduceCtorEq, Option.some.injEq, Prod.mk.injEq] at h <;>
    (obtain ⟨rfl, rfl⟩ := h; rfl)

theorem run_work (c : Call) (s : State) (w : Work) : (c.run s).work w = s.work w := by
  induction c with
  | getShift rest ih => exact ih _
  | getCaps rest ih => exact ih _
  | done | setShift _ | setCaps _ | printk _ => cases w <;> rfl

/-- The handler, and the queue, touch nothing that a call does. -/
theorem run_setWork (c : Call) (s : State) (kw : KeyWork) (w : Work) :
    c.run (s.setWork kw w) = (c.run s).setWork kw w := by
  induction c with
  | getShift rest ih =>
    have hshift : (s.setWork kw w).shiftPressed = s.shiftPressed := by cases w <;> rfl
    rw [run, hshift]
    exact ih _
  | getCaps rest ih =>
    have hcaps : (s.setWork kw w).capsLockOn = s.capsLockOn := by cases w <;> rfl
    rw [run, hcaps]
    exact ih _
  | done | setShift _ | setCaps _ | printk _ => cases w <;> rfl

/-- Calls only add to the log. -/
theorem log_run (c : Call) (s : State) : s.log <+: (c.run s).log := by
  induction c with
  | getShift rest ih => exact ih _
  | getCaps rest ih => exact ih _
  | printk p => exact List.prefix_append _ _
  | done | setShift _ | setCaps _ => exact List.prefix_refl _

theorem resolveKey_run (code : UInt8) (rest : Option String → Call) (s : State) :
    (resolveKey code rest).run s = (rest (Workq.resolveKey s code)).run s := by
  unfold resolveKey Workq.resolveKey
  split
  · dsimp only
    split
    · rfl
    · rfl
  · rfl

/-- With nothing in between, a call is what `process_key` does. -/
theorem processKey_run (code : UInt8) (label : String) (s : State) :
    (processKey code label).run s = Workq.processKey s code label := by
  unfold processKey Workq.processKey
  dsimp only
  split
  · rfl
  · split
    · rfl
    · split
      · rfl
      · split
        · rw [resolveKey_run]
          cases Workq.resolveKey s (codeOf code) with
          | none => rfl
          | some key =>
            dsimp only
            split
            · rfl
            · rfl
        · rfl

end Call

/-- The driver with the rest of a call done. -/
def Driver.after (d : Driver) (c : Call) : Driver := { d with state := c.run d.state }

/-- The rest of a call and any step but the beginning of one can change places. -/
theorem Driver.after_step {d d' : Driver} {e : Driver.Event} (c : Call) (h : d.step e = some d')
    (hp : ∀ w, e ≠ .process w) : (d.after c).step e = some (d'.after c) := by
  cases e with
  | process w => exact absurd rfl (hp w)
  | handler =>
    simp only [step, handle, after] at h ⊢
    cases hh : d.handler <;> simp only [hh, reduceCtorEq, Option.some.injEq] at h ⊢
    · subst h
      simp only [Call.run_work, Call.run_setWork]
    · subst h
      simp only [Call.run_work, Call.run_setWork]
  | irq _ | start _ | finish _ =>
    simp only [step, after] at h ⊢
    split_ifs at h with hi
    obtain rfl := Option.some.inj h
    simp only [Call.run_work, Call.run_setWork, hi, if_true, and_self]

/-- Which steps move a work. -/
theorem Driver.stage_step {d d' : Driver} {e : Driver.Event} (h : d.step e = some d') (w : Work) :
    d'.stage w = d.stage w ∨ e = .process w ∨ e = .finish w ∨ (e = .start w ∧ d.stage w = .idle) := by
  cases e with
  | handler =>
    simp only [step, handle] at h
    cases hh : d.handler <;> simp only [hh, reduceCtorEq, Option.some.injEq] at h
    · exact .inl (h ▸ rfl)
    · exact .inl (h ▸ rfl)
  | irq c =>
    simp only [step] at h
    split_ifs at h
    exact .inl (Option.some.inj h ▸ rfl)
  | start w' | process w' | finish w' =>
    simp only [step] at h
    split_ifs at h with hs
    obtain rfl := Option.some.inj h
    by_cases hw : w = w'
    · simp [hw, hs]
    · simp [Function.update_of_ne hw]

/-! ### Both calls -/

namespace Calls

variable {t t' : Calls} {e : Event} {tr : List (Calls × Event)}

theorem step_cases (h : t.step e = some t') :
    (∃ w, e = .driver (.process w) ∧ t.driver.stage w = .begun ∧
      t' = {
        driver := { t.driver with
          processed := Function.update t.driver.processed w
            (t.driver.processed w ++ [(t.driver.state.work w).scancode])
          stage := Function.update t.driver.stage w .read }
        call := Function.update t.call w
          (.processKey (t.driver.state.work w).scancode (label w)) }) ∨
    (∃ e', e = .driver e' ∧ (∀ w, e' ≠ .process w) ∧
      (∀ w, e' = .finish w → (t.call w).isDone = true) ∧
      t.driver.step e' = some t'.driver ∧ t'.call = t.call) ∨
    (∃ w c s, e = .access w ∧ (t.call w).step t.driver.state = some (c, s) ∧
      t' = { driver := { t.driver with state := s }, call := Function.update t.call w c }) := by
  cases e with
  | access w =>
    obtain ⟨⟨c, s⟩, hcs, h⟩ := Option.map_eq_some_iff.1 h
    exact .inr (.inr ⟨w, c, s, rfl, hcs, h.symm⟩)
  | driver e =>
    cases e with
    | process w =>
      simp only [step] at h
      split_ifs at h with hs
      exact .inl ⟨w, rfl, hs, (Option.some.inj h).symm⟩
    | finish w =>
      simp only [step] at h
      split_ifs at h with hd
      obtain ⟨d, hd', rfl⟩ := Option.map_eq_some_iff.1 h
      refine .inr (.inl ⟨_, rfl, nofun, ?_, hd', rfl⟩)
      intro w' hw
      obtain rfl := Driver.Event.finish.inj hw
      exact hd
    | irq _ | handler | start _ =>
      obtain ⟨d, hd, rfl⟩ := Option.map_eq_some_iff.1 h
      exact .inr (.inl ⟨_, rfl, nofun, nofun, hd, rfl⟩)

def completed (t : Calls) : Driver := (t.driver.after (t.call .immediate)).after (t.call .delayed)

/-- All calls but that of one work are done, and a call is under way only where a work has
read its scancode and not finished. -/
structure Inv (t : Calls) : Prop where
  alone : ∃ w, ∀ w', w' ≠ w → (t.call w').isDone = true
  done : ∀ w, t.driver.stage w ≠ .read → (t.call w).isDone = true

theorem inv_loaded : Inv loaded := ⟨⟨.immediate, fun _ _ => rfl⟩, fun _ _ => rfl⟩

theorem completed_eq {w : Work} (h : ∀ w', w' ≠ w → (t.call w').isDone = true) :
    t.completed = t.driver.after (t.call w) := by
  cases w with
  | immediate =>
    rw [completed, Call.isDone_iff.1 (h .delayed (by decide))]
    rfl
  | delayed =>
    rw [completed, Call.isDone_iff.1 (h .immediate (by decide))]
    rfl

theorem Quiet.completed_eq (h : t.Quiet) : t.completed = t.driver := by
  rw [Calls.completed_eq (w := .immediate) fun w _ => h w, Call.isDone_iff.1 (h .immediate)]
  rfl

theorem log_le (t : Calls) : t.driver.state.log <+: t.completed.state.log :=
  (Call.log_run _ _).trans (Call.log_run _ _)

theorem completed_work (t : Calls) (w : Work) :
    t.completed.state.work w = t.driver.state.work w :=
  (Call.run_work _ _ _).trans (Call.run_work _ _ _)

theorem inv_step (hI : Inv t) (hc : t.Apart e) (h : t.step e = some t') : Inv t' := by
  obtain ⟨v, halone⟩ := hI.alone
  obtain ⟨w, rfl, hs, rfl⟩ | ⟨e', rfl, hp, hf, hd, hcall⟩ | ⟨w, c, s, rfl, hcs, rfl⟩ := step_cases h
  · have hothers : ∀ w', w' ≠ w → (Function.update t.call w (.processKey
        (t.driver.state.work w).scancode (label w)) w').isDone = true := by
      intro w' hw
      rw [Function.update_of_ne hw]
      exact hc w'
    refine ⟨⟨w, hothers⟩, fun w' hstage => hothers w' ?_⟩
    rintro rfl
    simp at hstage
  · refine ⟨⟨v, by rwa [hcall]⟩, ?_⟩
    intro w hstage
    rw [hcall]
    rcases Driver.stage_step hd w with hsame | hprocess | hfinish | ⟨-, hidle⟩
    · exact hI.done w (hsame ▸ hstage)
    · exact absurd hprocess (hp w)
    · exact hf w hfinish
    · exact hI.done w (by simp [hidle])
  · have hothers : ∀ w', (t.call w').isDone = true →
        (Function.update t.call w c w').isDone = true := by
      intro w' hdone
      -- a work that is done makes no access
      have hne : w' ≠ w := by
        rintro rfl
        rw [Call.isDone_iff.1 hdone] at hcs
        simp [Call.step] at hcs
      rwa [Function.update_of_ne hne]
    exact ⟨⟨v, fun w' hne => hothers w' (halone w' hne)⟩,
      fun w' hstage => hothers w' (hI.done w' hstage)⟩

/-- The beginning of a call is the driver's step; what is left of it stutters. -/
theorem follows_step (hI : Inv t) (hc : t.Apart e) (h : t.step e = some t') :
    (t.keystroke e = none ∧ t'.completed = t.completed) ∨
      ∃ e', t.completed.step e' = some t'.completed ∧
        t.completed.keystroke e' = t.keystroke e := by
  obtain ⟨w, rfl, hs, rfl⟩ | ⟨e', rfl, hp, -, hd, hcall⟩ | ⟨w, c, s, rfl, hcs, rfl⟩ := step_cases h
  · refine .inr ⟨.process w, ?_, ?_⟩
    · rw [hc.completed_eq, completed_eq (w := w) fun w' hw => ?_]
      · simp only [Driver.step, hs, if_true, Driver.after, Function.update_self,
          Call.processKey_run, workFn_eq]
      · simp only [Function.update_of_ne hw]
        exact hc w'
    · simp only [Driver.keystroke, keystroke, completed_work]
  · refine .inr ⟨e', ?_, ?_⟩
    · rw [completed, completed, hcall]
      exact Driver.after_step _ (Driver.after_step _ hd hp) hp
    · cases e' with
      | process w => exact absurd rfl (hp w)
      | irq _ | handler | start _ | finish _ => rfl
  · refine .inl ⟨rfl, ?_⟩
    obtain ⟨v, halone⟩ := hI.alone
    obtain rfl : w = v := by
      by_contra hne
      rw [Call.isDone_iff.1 (halone w hne)] at hcs
      simp [Call.step] at hcs
    rw [completed_eq halone, completed_eq (w := w) fun w' hw => ?_]
    · simp only [Driver.after, Function.update_self, Call.run_step hcs]
    · simp only [Function.update_of_ne hw]
      exact halone w' hw

theorem keystrokes_snoc (tr : List (Calls × Event)) (t : Calls) (e : Event) :
    keystrokes (tr ++ [(t, e)]) = keystrokes tr ++ (t.keystroke e).toList := by
  rw [keystrokes, keystrokes, List.filterMap_append]
  cases h : t.keystroke e <;> simp [h]

/-- A run in which the works keep apart is one of the driver with each call done in one step,
and processes the same scancodes in the same order. -/
theorem run_follows (h : Run step loaded tr t) (ha : EachStep Apart tr) :
    Inv t ∧ ∃ tr', Run Driver.step Driver.loaded tr' t.completed ∧
      Driver.keystrokes tr' = keystrokes tr := by
  induction h with
  | nil => exact ⟨inv_loaded, [], .nil, rfl⟩
  | @snoc tr t e t' _ he ih =>
    obtain ⟨ha, hapart⟩ := eachStep_snoc.1 ha
    obtain ⟨hI, tr', hrun, hkeys⟩ := ih ha
    refine ⟨inv_step hI hapart he, ?_⟩
    rcases follows_step hI hapart he with ⟨hnone, hsame⟩ | ⟨e', he', hkey⟩
    · refine ⟨tr', hsame ▸ hrun, ?_⟩
      rw [keystrokes_snoc, hnone, hkeys, Option.toList_none, List.append_nil]
    · refine ⟨_, hrun.snoc he', ?_⟩
      rw [keystrokes_snoc, Driver.keystrokes_snoc, hkeys, hkey]

theorem Inv.quiet (hI : Inv t) (hidle : t.driver.Idle) : t.Quiet := by
  intro w
  apply hI.done
  rw [(hidle.2 w).2]
  nofun

/-- Where the works keep out of each other's calls, each has processed its part of one sequence
of scancodes; Shift, CapsLock and the log are those of a keyboard that takes this sequence,
whose order decides what is logged under either label. Where all was done exactly once,
CapsLock is off again, however often it was pressed. -/
theorem serialised (h : Run step loaded tr t) (ha : EachStep Apart tr) :
    (∀ w, Driver.processedBy w (keystrokes tr) = t.driver.processed w) ∧
    t.driver.state.log <+: serialLog (keystrokes tr) ∧
    (t.Quiet → Serial (keystrokes tr) t.driver.state) ∧
    (t.driver.Idle → t.driver.ExactlyOnce → t.driver.state.capsLockOn = false) := by
  obtain ⟨hI, tr', hrun, hkeys⟩ := run_follows h ha
  obtain ⟨hprocessed, hserial⟩ := Driver.serial_run hrun
  rw [hkeys] at hprocessed hserial
  have hquiet : t.Quiet → Serial (keystrokes tr) t.driver.state := by
    intro hq
    rwa [hq.completed_eq] at hserial
  refine ⟨hprocessed, hserial.log ▸ t.log_le, hquiet, ?_⟩
  intro hidle honce
  rw [(hquiet (hI.quiet hidle)).caps]
  exact honce.capsAfter hidle hprocessed

/-- CapsLock is pressed, and q before the delayed work has woken up. -/
def capsAsleep : List Event :=
  [.driver (.irq 58), .driver .handler, .driver .handler, .driver .handler, .driver .handler,
    .driver (.start .immediate), .driver (.process .immediate), .access .immediate,
    .access .immediate, .driver (.finish .immediate), .driver (.start .delayed),
    .driver (.irq 16), .driver .handler, .driver .handler, .driver .handler, .driver .handler,
    .driver (.start .immediate), .driver (.process .immediate), .access .immediate,
    .access .immediate, .access .immediate, .driver (.process .delayed), .access .delayed]

theorem serialised_capsAsleep :
    let t := (exec step loaded capsAsleep).get (by decide +kernel)
    let tr := trace step loaded capsAsleep
    t.driver.state.log = [⟨"nosleep", "Q", 16⟩] ∧
    (∀ w, Driver.processedBy w (keystrokes tr) = t.driver.processed w) ∧
    t.driver.state.log <+: serialLog (keystrokes tr) ∧
    (t.Quiet → Serial (keystrokes tr) t.driver.state) ∧
    (t.driver.Idle → t.driver.ExactlyOnce → t.driver.state.capsLockOn = false) :=
  ⟨by decide +kernel, serialised (run_of_isSome loaded capsAsleep (by decide +kernel))
    (by decide +kernel)⟩

/-- CapsLock is pressed, and both works load the flag before either stores it. -/
def bothLoad : List Event :=
  [.driver (.irq 58), .driver .handler, .driver .handler, .driver .handler, .driver .handler,
    .driver (.start .immediate), .driver (.start .delayed), .driver (.process .immediate),
    .driver (.process .delayed), .access .immediate, .access .delayed, .access .immediate,
    .access .delayed, .driver (.finish .immediate), .driver (.finish .delayed)]

/-- Without that one of the two changes is lost, and CapsLock stays on. -/
theorem change_lost : ∃ tr t, Run step loaded tr t ∧ t.driver.Idle ∧ t.driver.ExactlyOnce ∧
    t.driver.state.capsLockOn = true := by
  refine ⟨_, _, run_of_isSome loaded bothLoad (by decide +kernel), ?_, ?_, by decide +kernel⟩
  · refine ⟨by decide +kernel, fun w => ?_⟩
    cases w <;> decide +kernel
  · intro w
    have hall : ∀ w, ((exec step loaded bothLoad).get (by decide +kernel)).driver.processed w =
        ((exec step loaded bothLoad).get (by decide +kernel)).driver.arrived := by
      intro w
      cases w <;> decide +kernel
    exact ⟨hall w ▸ List.prefix_refl _, fun _ => hall w⟩

end Calls

end OsLabs.Keyboard.Workq
