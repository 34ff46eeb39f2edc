import Mathlib.Data.Fintype.Basic
import Mathlib.Logic.Function.Basic

/-! A tree of named entries, some of them inside of others, that are created and removed one
at a time. A name is taken once; an entry goes when nothing is inside of it. -/

namespace OsLabs.Entries

variable {κ : Type*} [DecidableEq κ]

abbrev Tree (κ : Type*) := κ → Bool

/-- The tree and whether the entry was created, for which its name has to be free. -/
def create (k : κ) (ok : Bool) (t : Tree κ) : Tree κ × Bool :=
  if ok && !t k then (Function.update t k true, true) else (t, false)

theorem create_cases (k : κ) (ok : Bool) (t : Tree κ) :
    create k ok t = (t, false) ∨ t k = false ∧ create k ok t = (Function.update t k true, true) := by
  unfold create
  cases hk : t k <;> cases ok <;> simp

variable [Fintype κ] {parent : κ → Option κ} {t : Tree κ} {k : κ}

def Vacant (parent : κ → Option κ) (k : κ) (t : Tree κ) : Prop :=
  ∀ c, parent c = some k → t c = false

instance : Decidable (Vacant parent k t) := inferInstanceAs (Decidable (∀ _, _ → _))

/-- `none` where there is no such entry, or something inside of it. -/
def remove (parent : κ → Option κ) (k : κ) (t : Tree κ) : Option (Tree κ) :=
  if t k = true ∧ Vacant parent k t then some (Function.update t k false) else none

omit [DecidableEq κ] [Fintype κ] in
/-- Only what is there has something inside of it. -/
def WellFormed (parent : κ → Option κ) (t : Tree κ) : Prop :=
  ∀ c p, parent c = some p → t c = true → t p = true

omit [DecidableEq κ] [Fintype κ] in
theorem WellFormed.vacant (h : WellFormed parent t) (hk : t k = false) : Vacant parent k t := by
  intro c hc
  by_contra hin
  have := h c k hc (by simpa using hin)
  rw [hk] at this
  contradiction

theorem remove_eq (hk : t k = true) (hv : Vacant parent k t) :
    remove parent k t = some (Function.update t k false) := if_pos ⟨hk, hv⟩

/-- An entry that was just created can be removed, which leaves the tree as it was. -/
theorem remove_update (hself : parent k ≠ some k) (hk : t k = false) (hv : Vacant parent k t) :
    remove parent k (Function.update t k true) = some t := by
  have hv' : Vacant parent k (Function.update t k true) := by
    intro c hc
    have hne : c ≠ k := by
      rintro rfl
      exact hself hc
    rw [Function.update_of_ne hne]
    exact hv c hc
  rw [remove_eq (Function.update_self k true t) hv', Function.update_idem, ← hk,
    Function.update_eq_self]

end OsLabs.Entries
