import OsLabs.Proofs.Keyboard

/-! `shift_pressed` is one flag for two keys. Either driver sets it by the last scancode
of either key, so that letting go of one forgets the other. -/

namespace OsLabs.Keyboard

theorem kind_shiftPressed (scancode : UInt8) (b : Bool) :
    (kind scancode).shiftPressed b =
      if codeOf scancode ∈ shiftKeys then !release scancode else b := by
  have hmem : codeOf scancode ∈ shiftKeys ↔
      (codeOf scancode == 42 || codeOf scancode == 54) = true := by
    simp [shiftKeys]
  unfold kind
  by_cases h : (codeOf scancode == 42 || codeOf scancode == 54) = true
  · rw [if_pos h, if_pos (hmem.2 h)]
    rfl
  · rw [if_neg h, if_neg (mt hmem.1 h)]
    cases release scancode with
    | true => rfl
    | false => cases codeOf scancode == 58 <;> rfl

theorem Tasklet.shiftPressed_eq (cs : List UInt8) :
    (interrupts cs).shiftPressed = Held.flag codeOf (!release ·) shiftKeys cs := by
  induction cs using List.reverseRecOn with
  | nil => rfl
  | append_singleton cs c ih =>
    rw [Held.flag_snoc, ← ih, ← kind_shiftPressed c, ← (handler_spec _ c).1]
    simp only [interrupts, List.foldl_concat]

theorem Workq.shiftPressed_eq (cs : List UInt8) :
    (interrupts cs).shiftPressed = Held.flag codeOf (!release ·) shiftKeys cs := by
  rw [← Tasklet.shiftPressed_eq]
  exact (alike cs).shift

/-- Both drivers know whether Shift is held unless the last scancode of the two keys is
the break code of one while the other is down. -/
theorem shift_tracked_iff (cs : List UInt8) :
    ((Tasklet.interrupts cs).shiftPressed = shiftHeld cs ∧
        (Workq.interrupts cs).shiftPressed = shiftHeld cs) ↔
      ShiftReleasedAlone cs := by
  rw [Tasklet.shiftPressed_eq, Workq.shiftPressed_eq, and_self]
  exact Held.flag_iff shiftKeys cs

/-- The left key down, the right one down, the left one up. -/
theorem shift_tracked_fails :
    ¬ ∀ cs : List UInt8, (Tasklet.interrupts cs).shiftPressed = shiftHeld cs ∧
      (Workq.interrupts cs).shiftPressed = shiftHeld cs := by
  intro h
  have hflag : (Tasklet.interrupts [42, 54, 170]).shiftPressed = false := by decide +kernel
  have hheld : shiftHeld [42, 54, 170] = true := by decide +kernel
  have hboth := (h [42, 54, 170]).1
  rw [hflag, hheld] at hboth
  exact absurd hboth (by decide)

end OsLabs.Keyboard
