import OsLabs.Proofs.Workqueue
import OsLabs.Spec.Keylogger

/-! When the handler of the workqueue driver finds its queue and its works. -/

namespace OsLabs.Keyboard.Workq

theorem kfree_ne (m : Memory) : kfree m ≠ .initialised := by cases m <;> exact nofun

namespace Keylogger

variable {s s' : Keylogger} {tr : List (Keylogger × Event)}

/-- What the pointers point to at each call. -/
def Place (s : Keylogger) : Prop :=
  match s.pc with
  | .kmalloc _ | .test | .initWork .immediate =>
    s.keyWq = .created ∧ s.memory .delayed ≠ .initialised
  | .initWork .delayed =>
    s.keyWq = .created ∧ s.memory .immediate = .initialised ∧ s.memory .delayed ≠ .initialised
  | .loaded | .cancelWorkSync _ | .kfree .exit .immediate => s.Ready
  | .requestIrq | .allocWorkqueue | .kfree .failed _ | .destroyWorkqueue .failed
  | .freeIrq .failed | .awaitHandler .failed | .notLoaded _ => s.memory .delayed ≠ .initialised
  | .kfree .exit .delayed | .destroyWorkqueue .exit | .synchronizeIrq | .freeIrq .exit
  | .awaitHandler .exit | .unloaded => s.memory .immediate ≠ .initialised

theorem ready_iff_both : s.Ready ↔ s.keyWq = .created ∧
    s.memory .immediate = .initialised ∧ s.memory .delayed = .initialised := by
  refine and_congr_right fun _ => ⟨fun h => ⟨h .immediate, h .delayed⟩, ?_⟩
  rintro ⟨hi, hd⟩ w
  cases w
  · exact hi
  · exact hd

theorem Place.ready_iff (h : s.Place) : s.Ready ↔ s.Live := by
  unfold Place at h
  unfold Live
  split at h <;> simp_all [ready_iff_both]

theorem driver_eq {e : Driver.Event} (h : s.step (.driver e) = some s') :
    ∃ d, s.driver.step e = some d ∧ s' = { s with driver := d } := by
  cases e with
  | irq code =>
    simp only [step] at h
    split_ifs at h
    obtain ⟨d, hd, rfl⟩ := Option.map_eq_some_iff.1 h
    exact ⟨d, hd, rfl⟩
  | handler | start w | process w | finish w =>
    obtain ⟨d, hd, rfl⟩ := Option.map_eq_some_iff.1 h
    exact ⟨d, hd, rfl⟩

/-- A call takes the pointers to the next place, does not touch the handler, and only the
first `kfree` of `keylogger_exit` ends the time the handler may run in. -/
theorem next_spec (h : s.next = some s') :
    (s.Place → s'.Place) ∧ s'.driver.handler = s.driver.handler ∧
      (s.Live → s.pc ≠ .kfree .exit .immediate → s'.Live) := by
  cases hpc : s.pc with
  | requestIrq | allocWorkqueue | kmalloc w | loaded | notLoaded ret | unloaded =>
    simp [next, hpc] at h
  | test =>
    simp only [next, hpc] at h
    split_ifs at h
    · obtain rfl := Option.some.inj h
      exact ⟨by simp_all [Place], rfl, by simp [Live, hpc]⟩
    · obtain rfl := Option.some.inj h
      exact ⟨by simp_all [Place], rfl, by simp [Live, hpc]⟩
  | initWork w =>
    simp only [next, hpc, Option.some.injEq] at h
    subst h
    refine ⟨fun hp => ?_, rfl, by simp [Live, hpc]⟩
    cases w <;> simp_all [Place, ready_iff_both]
  | cancelWorkSync w =>
    simp only [next, hpc] at h
    split_ifs at h
    obtain rfl := Option.some.inj h
    refine ⟨fun hp => ?_, rfl, fun _ _ => ?_⟩
    · cases w <;> simp_all [Place, ready_iff_both]
    · cases w <;> trivial
  | kfree p w =>
    simp only [next, hpc, Option.some.injEq] at h
    subst h
    refine ⟨fun hp => ?_, rfl, fun hl hne => ?_⟩
    · cases p <;> cases w <;> simp_all [Place, ready_iff_both, kfree_ne]
    · cases p <;> cases w <;> simp_all [Live]
  | destroyWorkqueue p =>
    simp only [next, hpc] at h
    split_ifs at h
    · obtain rfl := Option.some.inj h
      exact ⟨by cases p <;> simp_all [Place], rfl, by simp [Live, hpc]⟩
    · obtain rfl := Option.some.inj h
      exact ⟨by cases p <;> simp_all [Place], rfl, by simp [Live, hpc]⟩
  | synchronizeIrq =>
    simp only [next, hpc] at h
    split_ifs at h
    obtain rfl := Option.some.inj h
    exact ⟨by simp [Place, hpc], rfl, by simp [Live, hpc]⟩
  | freeIrq p =>
    simp only [next, hpc, Option.some.injEq] at h
    subst h
    exact ⟨by cases p <;> simp [Place, hpc], rfl, by simp [Live, hpc]⟩
  | awaitHandler p =>
    simp only [next, hpc] at h
    split_ifs at h
    obtain rfl := Option.some.inj h
    exact ⟨by cases p <;> simp [Place, hpc], rfl, by simp [Live, hpc]⟩

theorem place_step {e : Event} (hp : s.Place) (h : s.step e = some s') : s'.Place := by
  cases e with
  | requestIrq ret =>
    simp only [step] at h
    split_ifs at h with hpc hret
    · obtain rfl := Option.some.inj h
      simpa [Place, hpc] using hp
    · obtain rfl := Option.some.inj h
      simpa [Place, hpc] using hp
  | alloc ok =>
    simp only [step] at h
    split at h
    · rename_i hpc
      split_ifs at h
      · obtain rfl := Option.some.inj h
        simpa [Place, hpc] using hp
      · obtain rfl := Option.some.inj h
        simpa [Place, hpc] using hp
    · rename_i w hpc
      obtain rfl := Option.some.inj h
      cases w <;> cases ok <;> simp_all [Place]
    · contradiction
  | unload =>
    simp only [step] at h
    split_ifs at h with hpc
    obtain rfl := Option.some.inj h
    simpa [Place, hpc, Ready] using hp
  | next => exact (next_spec h).1 hp
  | driver e =>
    obtain ⟨driver, -, rfl⟩ := driver_eq h
    exact hp

def Within (s : Keylogger) : Prop := s.driver.handler ≠ .idle → s.Live

theorem Place.safe_iff_within (hp : s.Place) : s.HandlerSafe ↔ s.Within := by
  unfold HandlerSafe Within
  rw [hp.ready_iff]

theorem within_step {e : Event} (hw : s.Within) (ht : s.Timely e) (h : s.step e = some s') :
    s'.Within := by
  cases e with
  | requestIrq ret =>
    simp only [step] at h
    split_ifs at h with hpc hret
    · obtain rfl := Option.some.inj h
      intro hrun
      simpa [Live, hpc] using hw hrun
    · obtain rfl := Option.some.inj h
      intro hrun
      simpa [Live, hpc] using hw hrun
  | alloc ok =>
    simp only [step] at h
    split at h
    · rename_i hpc
      split_ifs at h
      · obtain rfl := Option.some.inj h
        intro hrun
        simpa [Live, hpc] using hw hrun
      · obtain rfl := Option.some.inj h
        intro hrun
        simpa [Live, hpc] using hw hrun
    · rename_i w hpc
      obtain rfl := Option.some.inj h
      intro hrun
      simpa [Live, hpc] using hw hrun
    · contradiction
  | unload =>
    simp only [step] at h
    split_ifs at h with hpc
    obtain rfl := Option.some.inj h
    exact fun _ => trivial
  | next =>
    obtain ⟨-, hsame, hlive⟩ := next_spec h
    intro hrun
    rw [hsame] at hrun
    exact hlive (hw hrun) fun hpc => hrun (ht hpc)
  | driver e =>
    obtain ⟨d, hd, rfl⟩ := driver_eq h
    intro hrun
    cases e with
    | irq code => exact ht
    | handler | start w | process w | finish w =>
      exact hw fun hi => hrun (Driver.step_handler hd nofun hi)

theorem not_within_step {e : Event} (ht : ¬ s.Timely e) (h : s.step e = some s') :
    ¬ s'.Within := by
  cases e with
  | requestIrq ret | alloc ok | unload => exact absurd trivial ht
  | next =>
    obtain ⟨hpc, hrun⟩ : s.pc = .kfree .exit .immediate ∧ s.driver.handler ≠ .idle :=
      Classical.not_imp.1 ht
    simp only [step, next, hpc, Option.some.injEq] at h
    subst h
    exact fun hw => hw hrun
  | driver e =>
    obtain ⟨d, hd, rfl⟩ := driver_eq h
    cases e with
    | irq code => exact fun hw => ht (hw (Driver.irq_handler hd))
    | handler | start w | process w | finish w => exact absurd trivial ht

/-- The handler finds everything it uses exactly in the runs whose interrupts come in time. -/
theorem handlerSafe_iff (h : Run step insmod tr s) :
    Always HandlerSafe tr s ↔ EachStep Timely tr := by
  refine h.always_iff (I := fun s => s.Place ∧ s.Within) ?_ ?_ ?_ ?_
  · exact ⟨nofun, fun h => absurd rfl h⟩
  · rintro s ⟨hp, hw⟩
    exact hp.safe_iff_within.2 hw
  · rintro s e s' ⟨hp, hw⟩ ht he
    exact ⟨place_step hp he, within_step hw ht he⟩
  · rintro s e s' ⟨hp, -⟩ ht he hsafe
    exact not_within_step ht he ((place_step hp he).safe_iff_within.1 hsafe)

def pressedEarly : List Event := [.requestIrq 0, .driver (.irq 16)]

/-- A key is pressed right after `request_irq`. -/
theorem handlerSafe_fails : ∃ tr s, Run step insmod tr s ∧ ¬ s.HandlerSafe := by
  have hrun : Run step insmod (trace step insmod pressedEarly) _ := run_of_isSome _ _ rfl
  refine ⟨_, _, hrun, fun hs => ?_⟩
  obtain ⟨hq, -⟩ := hs nofun
  contradiction

theorem handlerSafe_iff_early : ∃ tr s, Run step insmod tr s ∧
    (Always HandlerSafe tr s ↔ EachStep Timely tr) := by
  have hrun : Run step insmod (trace step insmod pressedEarly) _ := run_of_isSome _ _ rfl
  exact ⟨_, _, hrun, handlerSafe_iff hrun⟩

end Keylogger

end OsLabs.Keyboard.Workq
