import OsLabs.Proofs.Bakery

/-! The index of a request goes to the tables unchecked: since nobody is ever found
choosing, no request gets by without using it. -/

namespace OsLabs.Bakery

variable {α : Type} {s : Server α}

theorem exists_slot {idx : ℤ} (h : InTable idx) : ∃ i : Slot, idx = i.val := by
  unfold InTable at h
  exact ⟨⟨idx.toNat, by omega⟩, (Int.toNat_of_nonneg h.1).symm⟩

theorem slot_outside {idx : ℤ} (h : ¬ InTable idx) : slot idx = .error (.outOfBounds idx) := by
  unfold InTable at h
  rw [slot, dif_neg h]

/-- The loop stops at the first ticket it has to compare with one outside. -/
theorem turnedAway_outside {idx : ℤ} {f : Fault} (hc : ∀ i, s.choosing i = false)
    (h : slot idx = .error f) : turnedAway s idx = .ok false ∨ turnedAway s idx = .error f := by
  unfold turnedAway
  induction List.finRange MAX_CLNT_CNT with
  | nil => exact .inl rfl
  | cons a l ih =>
    by_cases h0 : s.numbers a = 0
    · simpa [List.anyM, turnsAway, hc, h0, bind, Except.bind, pure, Except.pure] using ih
    · exact .inr (by simp [List.anyM, turnsAway, hc, h0, h, bind, Except.bind])

theorem getNumber1Svc_outside {argp : REQUEST α} (h : ¬ InTable argp.idx) :
    getNumber1Svc s argp = .error (.outOfBounds argp.idx) := by
  simp [getNumber1Svc, slot_outside h, bind, Except.bind]

variable [Number α]

theorem bakeryService1Svc_outside {argp : REQUEST α} (hc : ∀ i, s.choosing i = false)
    (h : ¬ InTable argp.idx) :
    bakeryService1Svc s argp = .error (.outOfBounds argp.idx) := by
  have hs := slot_outside h
  rcases turnedAway_outside hc hs with ht | ht <;>
    simp [bakeryService1Svc, hs, ht, bind, Except.bind]

/-- From a slot of the table a call can only fail because the tickets have run out. -/
theorem handle_inside {e : Request α} (hc : ∀ i, s.choosing i = false) (h : InTable e.idx)
    (idx : ℤ) : handle s e ≠ .error (.outOfBounds idx) := by
  obtain ⟨i, hi⟩ := exists_slot h
  cases e with
  | getNumber argp =>
    have hs : slot argp.idx = .ok i := slot_ok.2 hi
    by_cases hmax : INT_MAX < maxNumber s.numbers + 1
    · simp [handle, getNumber1Svc, hs, hmax, bind, Except.bind, throw, throwThe,
        MonadExceptOf.throw, Except.map]
    · simp [handle, getNumber1Svc, hs, hmax, bind, Except.bind, pure, Except.pure, Except.map]
  | bakeryService argp =>
    have hs : slot argp.idx = .ok i := slot_ok.2 hi
    obtain ⟨b, ht⟩ : ∃ b, turnedAway s argp.idx = .ok b := by
      rw [show argp.idx = i.val from hi]
      exact ⟨_, turnedAway_eq hc i⟩
    cases b <;> simp [handle, bakeryService1Svc, hs, ht, bind, Except.bind, pure, Except.pure,
      Except.map]

/-- A request is handled as it should be exactly when its index is one of the tables'. -/
theorem guarded_iff {tr : List (Server α × Request α)} (h : Run step init tr s)
    (e : Request α) : Guarded s e ↔ InTable e.idx := by
  have hc := (inv_run h).choosing
  refine ⟨?_, ?_⟩
  · intro hg
    by_contra hout
    refine hg.inBounds e.idx ?_
    cases e with
    | getNumber argp => rw [handle, getNumber1Svc_outside hout]; rfl
    | bakeryService argp => rw [handle, bakeryService1Svc_outside hc hout]; rfl
  · intro hin
    exact ⟨handle_inside hc hin, fun hout => absurd hin hout⟩

theorem guarded_iff_noTicket :
    Guarded ((exec step init noTicket).get (by decide +kernel)) (.getNumber (request 5 0)) ↔
      InTable 5 :=
  guarded_iff (run_of_isSome init noTicket (by decide +kernel)) (.getNumber (request 5 0))

theorem guarded_fails :
    ¬ ∀ (tr : List (Server (Option ℤ) × Request (Option ℤ))) (s : Server (Option ℤ)),
      Run step init tr s → ∀ e, Guarded s e := by
  intro h
  refine (h [] init .nil (.getNumber (request 128 0))).inBounds 128 ?_
  rw [handle, getNumber1Svc_outside (by rintro ⟨-, hlt⟩; exact absurd hlt (by decide))]
  rfl

end OsLabs.Bakery
