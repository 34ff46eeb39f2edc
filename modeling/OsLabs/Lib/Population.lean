import Mathlib.Algebra.BigOperators.Group.List.Basic
import Mathlib.Tactic.Linarith

/-! A population of processes, a list of their local states: what they hold of
something together, how many of them are in some states, and how both change when
one of them moves. -/

namespace OsLabs

variable {ι φ : Type*}

/-- What a population holds of one semaphore. -/
def held (hold : φ → ι → ℤ) (ps : List φ) (i : ι) : ℤ := (ps.map fun p => hold p i).sum

@[simp] theorem held_nil (hold : φ → ι → ℤ) (i : ι) : held hold [] i = 0 := rfl

@[simp] theorem held_append (hold : φ → ι → ℤ) (ps qs : List φ) (i : ι) :
    held hold (ps ++ qs) i = held hold ps i + held hold qs i := by
  simp [held]

@[simp] theorem held_singleton (hold : φ → ι → ℤ) (p : φ) (i : ι) :
    held hold [p] i = hold p i := by
  simp [held]

theorem held_set (hold : φ → ι → ℤ) {ps : List φ} {k : ℕ} {p : φ} (hk : ps[k]? = some p)
    (q : φ) (i : ι) : held hold (ps.set k q) i = held hold ps i - hold p i + hold q i := by
  induction ps generalizing k with
  | nil => simp at hk
  | cons a ps ih =>
    cases k with
    | zero =>
      obtain rfl : a = p := by simpa using hk
      simp only [held, List.set_cons_zero, List.map_cons, List.sum_cons]
      omega
    | succ k =>
      have := ih (k := k) (by simpa using hk)
      simp only [held, List.set_cons_succ, List.map_cons, List.sum_cons] at this ⊢
      omega

theorem countP_set (f : φ → Bool) {ps : List φ} {k : ℕ} {p : φ} (hk : ps[k]? = some p) (q : φ) :
    (ps.set k q).countP f + (if f p then 1 else 0) = ps.countP f + (if f q then 1 else 0) := by
  induction ps generalizing k with
  | nil => simp at hk
  | cons a ps ih =>
    cases k with
    | zero =>
      obtain rfl : a = p := by simpa using hk
      simp only [List.set_cons_zero, List.countP_cons]
      omega
    | succ k =>
      have := ih (k := k) (by simpa using hk)
      simp only [List.set_cons_succ, List.countP_cons]
      omega

/-- Two processes in states of which there is at most one are the same. -/
theorem eq_of_countP_le_one {f : φ → Bool} {ps : List φ} (h : ps.countP f ≤ 1) {i j : ℕ} {p q : φ}
    (hi : ps[i]? = some p) (hj : ps[j]? = some q) (hp : f p = true) (hq : f q = true) : i = j := by
  induction ps generalizing i j with
  | nil => simp at hi
  | cons a ps ih =>
    have hnone : ∀ (k : ℕ) (b : φ), f a = true → ps[k]? = some b → f b ≠ true := by
      intro k b ha hk hb
      have hpos := List.countP_pos_iff.2 ⟨b, List.mem_of_getElem? hk, hb⟩
      rw [List.countP_cons, if_pos ha] at h
      omega
    cases i with
    | zero =>
      obtain rfl : a = p := by simpa using hi
      cases j with
      | zero => rfl
      | succ j => exact absurd hq (hnone j q hp (by simpa using hj))
    | succ i =>
      cases j with
      | zero =>
        obtain rfl : a = q := by simpa using hj
        exact absurd hp (hnone i p hq (by simpa using hi))
      | succ j =>
        rw [List.countP_cons] at h
        exact congrArg Nat.succ (ih (by omega) (by simpa using hi) (by simpa using hj))

theorem get_set {ps : List φ} {k : ℕ} {p : φ} (hk : ps[k]? = some p) (q : φ) :
    (ps.set k q)[k]? = some q := by
  have hlt := (List.getElem?_eq_some_iff.1 hk).1
  exact List.getElem?_set_self hlt

theorem get_snoc {ps : List φ} {k : ℕ} {p : φ} (hk : ps[k]? = some p) (q : φ) :
    (ps ++ [q])[k]? = some p := by
  have hlt := (List.getElem?_eq_some_iff.1 hk).1
  rw [List.getElem?_append_left hlt, hk]

/-- What a move does not change of the process is the same for the whole population. -/
theorem map_set {β : Type*} (f : φ → β) {ps : List φ} {k : ℕ} {p q : φ} (hk : ps[k]? = some p)
    (hf : f q = f p) : (ps.set k q).map f = ps.map f := by
  apply List.ext_getElem?
  intro i
  simp only [List.getElem?_map, List.getElem?_set]
  split_ifs with hik hlt
  · rw [← hik, hk, Option.map_some, Option.map_some, hf]
  · rw [← hik, List.getElem?_eq_none (Nat.le_of_not_lt hlt)]
  · rfl

/-- What holds of every process holds after one has moved, if it holds of that one. -/
theorem forall_set {P : ℕ → φ → Prop} {ps : List φ} {k : ℕ} {q : φ}
    (h : ∀ (i : ℕ) (p : φ), ps[i]? = some p → P i p) (hq : P k q) :
    ∀ (i : ℕ) (p : φ), (ps.set k q)[i]? = some p → P i p := by
  intro i p hp
  rw [List.getElem?_set] at hp
  split_ifs at hp with hki hlt
  · obtain rfl := Option.some.inj hp
    rw [← hki]
    exact hq
  · exact h i p hp

theorem forall_snoc {P : ℕ → φ → Prop} {ps : List φ} {q : φ}
    (h : ∀ (i : ℕ) (p : φ), ps[i]? = some p → P i p) (hq : ∀ i, P i q) :
    ∀ (i : ℕ) (p : φ), (ps ++ [q])[i]? = some p → P i p := by
  intro i p hp
  by_cases hlt : i < ps.length
  · rw [List.getElem?_append_left hlt] at hp
    exact h i p hp
  · rw [List.getElem?_append_right (Nat.le_of_not_lt hlt)] at hp
    obtain rfl := List.mem_singleton.1 (List.mem_of_getElem? hp)
    exact hq i

theorem held_nonneg {hold : φ → ι → ℤ} {i : ι} (h : ∀ p, 0 ≤ hold p i) (ps : List φ) :
    0 ≤ held hold ps i := by
  induction ps with
  | nil => simp
  | cons a ps ih =>
    have := h a
    simp only [held, List.map_cons, List.sum_cons] at ih ⊢
    omega

theorem countP_le_held {hold : φ → ι → ℤ} {i : ι} {f : φ → Bool}
    (h : ∀ p, (if f p then 1 else 0) ≤ hold p i) (ps : List φ) :
    (ps.countP f : ℤ) ≤ held hold ps i := by
  induction ps with
  | nil => simp
  | cons a ps ih =>
    have := h a
    simp only [held, List.map_cons, List.sum_cons, List.countP_cons, Nat.cast_add,
      Nat.cast_ite, Nat.cast_one, Nat.cast_zero] at ih ⊢
    omega

theorem hold_le_held {hold : φ → ι → ℤ} {i : ι} (h : ∀ p, 0 ≤ hold p i) {ps : List φ} {k : ℕ}
    {p : φ} (hk : ps[k]? = some p) : hold p i ≤ held hold ps i := by
  induction ps generalizing k with
  | nil => simp at hk
  | cons a ps ih =>
    have ha := h a
    have hps := held_nonneg h ps
    cases k with
    | zero =>
      obtain rfl : a = p := by simpa using hk
      simp only [held, List.map_cons, List.sum_cons] at hps ⊢
      omega
    | succ k =>
      have := ih (k := k) (by simpa using hk)
      simp only [held, List.map_cons, List.sum_cons] at this hps ⊢
      omega

end OsLabs
