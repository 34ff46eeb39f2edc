import OsLabs.Proofs.Keyboard
import OsLabs.Spec.Workqueue

/-! When the two works of the workqueue driver process every scancode once and in order. -/

namespace OsLabs.Keyboard.Workq

namespace State

variable (s : State) (kw : KeyWork) (w w' : Work)

@[simp] theorem setWork_work : (s.setWork kw w).work w' = if w' = w then kw else s.work w' := by
  cases w <;> cases w' <;> rfl

@[simp] theorem workFn_work : (s.workFn w).work w' = s.work w' := by
  cases w <;> simp only [workFn, workNosleepFn, workSleepFn, processKey_spec] <;> cases w' <;> rfl

end State

namespace Driver

variable {d d' : Driver} {e : Event} {tr : List (Driver × Event)}

theorem mailbox_congr {w : Work} (hhandler : d'.handler = d.handler)
    (hwork : d'.state.work w = d.state.work w) (hstage : d'.stage w = d.stage w)
    (hstored : d'.stored w = d.stored w) (hprocessed : d'.processed w = d.processed w) :
    d'.mailbox w = d.mailbox w := by
  have hposted : d'.posted w = d.posted w := by
    unfold posted
    rw [hhandler]
  rw [mailbox, mailbox, hposted, hwork, hstage, hstored, hprocessed]

theorem mailbox_step (h : d.step e = some d') (w : Work) :
    (d.delivery w e = none ∧ d'.mailbox w = d.mailbox w) ∨
      ∃ m, d.delivery w e = some m ∧ (d.mailbox w).step m = some (d'.mailbox w) := by
  cases e with
  | irq code =>
    simp only [step] at h
    split_ifs at h with hi
    obtain rfl := Option.some.inj h
    refine .inl ⟨rfl, ?_⟩
    cases w <;> simp [mailbox, posted, hi]
  | handler =>
    simp only [step, handle] at h
    cases hh : d.handler with
    | idle => simp [hh] at h
    | store w' code =>
      simp only [hh, Option.some.injEq] at h
      subst h
      cases w <;> cases w' <;> simp [delivery, mailbox, posted, Mailbox.step, hh]
    | queue w' =>
      simp only [hh, Option.some.injEq] at h
      subst h
      cases w <;> cases w' <;> simp [delivery, mailbox, posted, Mailbox.step, queueWork, hh]
  | start w' =>
    simp only [step] at h
    split_ifs at h with hs
    obtain rfl := Option.some.inj h
    by_cases hw : w = w'
    · subst hw
      refine .inr ⟨.start, if_pos rfl, ?_⟩
      rw [Mailbox.step, mailbox, mailbox, if_pos hs]
      simp only [State.setWork_work, if_true, Function.update_self]
      cases w <;> rfl
    · refine .inl ⟨if_neg (Ne.symm hw), mailbox_congr rfl ?_ (Function.update_of_ne hw _ _) rfl rfl⟩
      rw [State.setWork_work, if_neg hw]
  | process w' =>
    simp only [step] at h
    split_ifs at h with hs
    obtain rfl := Option.some.inj h
    by_cases hw : w = w'
    · subst hw
      refine .inr ⟨.take, if_pos rfl, ?_⟩
      rw [Mailbox.step, mailbox, mailbox, if_pos hs]
      simp only [State.workFn_work, Function.update_self]
      cases w <;> rfl
    · exact .inl ⟨if_neg (Ne.symm hw), mailbox_congr rfl (State.workFn_work _ _ _)
        (Function.update_of_ne hw _ _) rfl (Function.update_of_ne hw _ _)⟩
  | finish w' =>
    simp only [step] at h
    split_ifs at h with hs
    obtain rfl := Option.some.inj h
    by_cases hw : w = w'
    · subst hw
      refine .inr ⟨.finish, if_pos rfl, ?_⟩
      rw [Mailbox.step, mailbox, mailbox, if_pos hs]
      simp only [Function.update_self]
      cases w <;> rfl
    · exact .inl ⟨if_neg (Ne.symm hw), mailbox_congr rfl rfl (Function.update_of_ne hw _ _) rfl rfl⟩

theorem work_frame (h : d.step e = some d') (hirq : ∀ code, e ≠ .irq code) (hh : e ≠ .handler) :
    d'.handler = d.handler ∧ d'.arrived = d.arrived ∧ d'.stored = d.stored := by
  cases e with
  | irq code => exact absurd rfl (hirq code)
  | handler => exact absurd rfl hh
  | start w | process w | finish w =>
    simp only [step] at h
    split_ifs at h
    obtain rfl := Option.some.inj h
    exact ⟨rfl, rfl, rfl⟩

theorem irq_handler {code : UInt8} (h : d.step (.irq code) = some d') : d'.handler ≠ .idle := by
  simp only [step] at h
  split_ifs at h
  obtain rfl := Option.some.inj h
  exact nofun

theorem step_handler (h : d.step e = some d') (hirq : ∀ code, e ≠ .irq code)
    (hi : d.handler = .idle) : d'.handler = .idle := by
  cases e with
  | irq code => exact absurd rfl (hirq code)
  | handler =>
    rw [step, handle, hi] at h
    contradiction
  | start w | process w | finish w => exact (work_frame h nofun nofun).1.trans hi

/-- Where the scancodes of all interrupts are: stored in the work, or still to be. -/
theorem arrived_step (h : d.step e = some d') {w : Work}
    (ha : d.stored w ++ d.toStore w = d.arrived) : d'.stored w ++ d'.toStore w = d'.arrived := by
  cases e with
  | irq code =>
    simp only [step] at h
    split_ifs at h with hi
    obtain rfl := Option.some.inj h
    rw [toStore, hi, List.append_nil] at ha
    rw [← ha]
    rfl
  | handler =>
    simp only [step, handle] at h
    cases hh : d.handler with
    | idle => simp [hh] at h
    | store w' code =>
      simp only [hh, Option.some.injEq] at h
      subst h
      rw [← ha]
      cases w <;> cases w' <;> simp [toStore, hh]
    | queue w' =>
      simp only [hh, Option.some.injEq] at h
      subst h
      rw [← ha]
      cases w' <;> simp [toStore, hh]
  | start w' | process w' | finish w' =>
    obtain ⟨hhandler, harrived, hstored⟩ := work_frame h nofun nofun
    have hto : d'.toStore w = d.toStore w := by rw [toStore, toStore, hhandler]
    rw [hstored, hto, harrived]
    exact ha

theorem arrived_eq (h : Run step loaded tr d) (w : Work) :
    d.stored w ++ d.toStore w = d.arrived :=
  h.invariant (I := fun d => d.stored w ++ d.toStore w = d.arrived) rfl
    fun _ _ _ ha he => arrived_step he ha

theorem ledger (h : Run step loaded tr d) (w : Work) : (d.mailbox w).Ledger := by
  refine h.invariant (I := fun d => (d.mailbox w).Ledger) ?_ ?_
  · cases w <;> exact Mailbox.ledger_init 0
  · intro d e d' hl he
    rcases mailbox_step he w with ⟨-, heq⟩ | ⟨m, -, hm⟩
    · rw [heq]
      exact hl
    · exact hl.step hm

def Faithful (d : Driver) : Prop := ∀ w, (d.mailbox w).Faithful

theorem faithful_step (hl : ∀ w, (d.mailbox w).Ledger) (h : d.step e = some d') :
    d'.Faithful ↔ d.Faithful ∧ d.Undisturbed e := by
  rw [Faithful, Faithful, Undisturbed, ← forall_and]
  refine forall_congr' fun w => ?_
  rcases mailbox_step h w with ⟨hnone, heq⟩ | ⟨m, hsome, hm⟩
  · simp [hnone, heq]
  · simp [hsome, (hl w).faithful_step hm]

/-- The run's steps are undisturbed exactly when it ends with both mailboxes faithful. -/
theorem faithful_iff (h : Run step loaded tr d) : d.Faithful ↔ EachStep Undisturbed tr := by
  induction h with
  | nil =>
    refine ⟨fun _ => eachStep_nil, fun _ w => ?_⟩
    cases w <;> exact Mailbox.faithful_init 0
  | snoc hr he ih => rw [faithful_step (ledger hr) he, ih, eachStep_snoc]

theorem Idle.toStore (h : d.Idle) (w : Work) : d.toStore w = [] := by
  rw [Driver.toStore, h.1]

theorem Idle.unread (h : d.Idle) (w : Work) : (d.mailbox w).unread = 0 := by
  obtain ⟨hh, hw⟩ := h
  cases w <;> simp [Mailbox.unread, mailbox, posted, hh, hw]

theorem Faithful.exactlyOnce (hf : d.Faithful) (h : Run step loaded tr d) : d.ExactlyOnce := by
  intro w
  have ha := arrived_eq h w
  refine ⟨?_, fun hi => ?_⟩
  · rw [← ha]
    exact (hf w).taken_left.trans (List.prefix_append _ _)
  · rw [hi.toStore w, List.append_nil] at ha
    rw [← ha]
    exact (hf w).taken_eq (hi.unread w)

theorem Idle.faithful (hi : d.Idle) (h : Run step loaded tr d) (he : d.ExactlyOnce) :
    d.Faithful := by
  intro w
  have ha := arrived_eq h w
  rw [hi.toStore w, List.append_nil] at ha
  rw [Mailbox.Faithful, hi.unread w, List.replicate_zero, List.append_nil]
  exact ha.trans ((he w).2 hi).symm

/-- In a run of undisturbed steps every scancode is processed once and in order, and a run
that leaves nothing to be done and has processed them so was undisturbed all the way. -/
theorem exactlyOnce_iff (h : Run step loaded tr d) :
    (EachStep Undisturbed tr → Always ExactlyOnce tr d) ∧
      (d.Idle → d.ExactlyOnce → EachStep Undisturbed tr) := by
  refine ⟨fun hu => ?_, fun hi he => (faithful_iff h).1 (hi.faithful h he)⟩
  induction h with
  | nil => exact always_nil.2 (((faithful_iff .nil).2 eachStep_nil).exactlyOnce .nil)
  | snoc hr he ih =>
    have h' := hr.snoc he
    exact always_snoc.2 ⟨ih (eachStep_snoc.1 hu).1, ((faithful_iff h').2 hu).exactlyOnce h'⟩

/-- The key q is pressed, and let go while the delayed work sleeps. -/
def whileAsleep : List Event :=
  [.irq 16, .handler, .handler, .handler, .handler, .start .immediate, .process .immediate,
    .finish .immediate, .start .delayed, .irq 144, .handler, .handler, .handler, .handler,
    .process .delayed, .finish .delayed, .start .immediate, .process .immediate,
    .finish .immediate, .start .delayed, .process .delayed, .finish .delayed]

/-- The delayed work processes the second scancode twice and the first one never. -/
theorem exactlyOnce_fails : ∃ tr d, Run step loaded tr d ∧ d.Idle ∧
    d.processed .delayed = [144, 144] ∧ ¬ d.ExactlyOnce := by
  have hrun : Run step loaded (trace step loaded whileAsleep) _ :=
    run_of_isSome _ _ (by decide +kernel)
  have hidle : ((exec step loaded whileAsleep).get (by decide +kernel)).Idle := by
    refine ⟨by decide +kernel, fun w => ?_⟩
    cases w <;> decide +kernel
  have hdone : ((exec step loaded whileAsleep).get (by decide +kernel)).processed .delayed =
      [144, 144] := by decide +kernel
  refine ⟨_, _, hrun, hidle, hdone, ?_⟩
  intro he
  have heq := (he .delayed).2 hidle
  rw [hdone] at heq
  revert heq
  decide +kernel

/-- The key q is pressed, both works are done, and it is let go. -/
def oneAfterAnother : List Event :=
  let works : List Event := [.start .immediate, .process .immediate, .finish .immediate,
    .start .delayed, .process .delayed, .finish .delayed]
  [.irq 16, .handler, .handler, .handler, .handler] ++ works ++
    [.irq 144, .handler, .handler, .handler, .handler] ++ works

theorem exactlyOnce_iff_oneAfterAnother : ∃ tr d, Run step loaded tr d ∧ d.Idle ∧
    d.arrived = [16, 144] ∧ EachStep Undisturbed tr ∧ Always ExactlyOnce tr d := by
  have hrun : Run step loaded (trace step loaded oneAfterAnother) _ :=
    run_of_isSome _ _ (by decide +kernel)
  obtain ⟨henough, hneeded⟩ := exactlyOnce_iff hrun
  have hidle : ((exec step loaded oneAfterAnother).get (by decide +kernel)).Idle := by
    refine ⟨by decide +kernel, fun w => ?_⟩
    cases w <;> decide +kernel
  have harrived : ((exec step loaded oneAfterAnother).get (by decide +kernel)).arrived =
      [16, 144] := by decide +kernel
  have hdone : ((exec step loaded oneAfterAnother).get (by decide +kernel)).ExactlyOnce := by
    intro w
    have hall : ((exec step loaded oneAfterAnother).get (by decide +kernel)).processed w =
        [16, 144] := by
      cases w <;> decide +kernel
    rw [hall, harrived]
    exact ⟨List.prefix_refl _, fun _ => rfl⟩
  have hundisturbed := hneeded hidle hdone
  exact ⟨_, _, hrun, hidle, harrived, hundisturbed, henough hundisturbed⟩

end Driver

end OsLabs.Keyboard.Workq
