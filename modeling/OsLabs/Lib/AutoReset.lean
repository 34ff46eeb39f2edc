import OsLabs.Lib.Population

/-! Auto-reset events with the threads that wait for them. A signal given while
threads wait releases one of them; given while none waits it stays until one wait
takes it. -/

namespace OsLabs

variable {φ : Type*}

/-- `SetEvent`, with the threads afterwards. `waits` are those waiting for the event,
`release` lets a thread go, and `wake` is the one the system picks if any waits. -/
def setEvent (waits : φ → Bool) (release : φ → φ) (wake : Option ℕ) (ts : List φ) :
    Option (Bool × List φ) :=
  match wake with
  | none => if ts.any waits then none else some (true, ts)
  | some j =>
    match ts[j]? with
    | none => none
    | some t => if waits t then some (false, ts.set j (release t)) else none

/-- A signal does not change what waiting and having been released do not tell apart. -/
theorem map_setEvent {β : Type*} {waits : φ → Bool} {release : φ → φ} {wake : Option ℕ}
    {ts ts' : List φ} {signaled : Bool} (h : setEvent waits release wake ts = some (signaled, ts'))
    {f : φ → β} (hf : ∀ t, waits t = true → f (release t) = f t) : ts'.map f = ts.map f := by
  unfold setEvent at h
  split at h
  · split_ifs at h
    obtain ⟨-, rfl⟩ : true = signaled ∧ ts = ts' := by simpa using h
    rfl
  · rename_i j
    cases hj : ts[j]? with
    | none => simp [hj] at h
    | some t =>
      simp only [hj] at h
      split_ifs at h with hw
      obtain ⟨-, rfl⟩ : false = signaled ∧ ts.set j (release t) = ts' := by simpa using h
      exact map_set f hj (hf t hw)

theorem map_setEvent_eq {β : Type*} [BEq φ] [LawfulBEq φ] {w r : φ} {wake : Option ℕ}
    {ts ts' : List φ} {signaled : Bool}
    (h : setEvent (· == w) (fun _ => r) wake ts = some (signaled, ts')) {f : φ → β}
    (hf : f r = f w) : ts'.map f = ts.map f := by
  apply map_setEvent h
  intro t ht
  obtain rfl := beq_iff_eq.1 ht
  exact hf

theorem setEvent_cases [BEq φ] [LawfulBEq φ] {w r : φ} {wake : Option ℕ} {ts ts' : List φ}
    {signaled : Bool} (h : setEvent (· == w) (fun _ => r) wake ts = some (signaled, ts')) :
    (signaled = true ∧ ts' = ts ∧ w ∉ ts) ∨
      ∃ j, ts[j]? = some w ∧ signaled = false ∧ ts' = ts.set j r := by
  unfold setEvent at h
  split at h
  · split_ifs at h with hany
    obtain ⟨rfl, rfl⟩ : true = signaled ∧ ts = ts' := by simpa using h
    refine .inl ⟨rfl, rfl, ?_⟩
    intro hw
    exact hany (List.any_eq_true.2 ⟨w, hw, beq_self_eq_true w⟩)
  · rename_i j
    cases hj : ts[j]? with
    | none => simp [hj] at h
    | some t =>
      simp only [hj] at h
      split_ifs at h with hw
      obtain rfl := beq_iff_eq.1 hw
      obtain ⟨rfl, rfl⟩ : false = signaled ∧ ts.set j r = ts' := by simpa using h
      exact .inr ⟨j, hj, rfl, rfl⟩

/-- The system can always pick somebody, or nobody where nobody waits. -/
theorem exists_setEvent (waits : φ → Bool) (release : φ → φ) (ts : List φ) :
    ∃ wake p, setEvent waits release wake ts = some p := by
  by_cases hany : ts.any waits = true
  · obtain ⟨t, ht, hw⟩ := List.any_eq_true.1 hany
    obtain ⟨j, hj⟩ := List.mem_iff_getElem?.1 ht
    exact ⟨some j, (false, ts.set j (release t)), by simp [setEvent, hj, hw]⟩
  · exact ⟨none, (true, ts), by simp [setEvent, hany]⟩

end OsLabs
