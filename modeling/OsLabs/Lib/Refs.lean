import Mathlib.Data.List.Count
import Mathlib.Logic.Function.Basic

/-! References to counted objects, taken and given back one at a time. -/

namespace OsLabs

variable {ι : Type*} [DecidableEq ι]

/-- Taking a reference to `i`, where `refs` are those held so far. -/
def getRef (refs : ι → ℕ) (i : ι) : ι → ℕ := Function.update refs i (refs i + 1)

def putRef (refs : ι → ℕ) (i : ι) : ι → ℕ := Function.update refs i (refs i - 1)

def getRefs (refs : ι → ℕ) (is : List ι) : ι → ℕ := is.foldl getRef refs

@[simp] theorem putRef_getRef (refs : ι → ℕ) (i : ι) : putRef (getRef refs i) i = refs := by
  funext j
  by_cases hj : j = i
  · subst hj
    simp [putRef, getRef]
  · simp [putRef, getRef, hj]

@[simp] theorem getRefs_nil (refs : ι → ℕ) : getRefs refs [] = refs := rfl

@[simp] theorem getRefs_cons (refs : ι → ℕ) (i : ι) (is : List ι) :
    getRefs refs (i :: is) = getRefs (getRef refs i) is := rfl

theorem getRefs_append (refs : ι → ℕ) (is js : List ι) :
    getRefs refs (is ++ js) = getRefs (getRefs refs is) js := List.foldl_append

theorem getRefs_apply (refs : ι → ℕ) (is : List ι) (j : ι) :
    getRefs refs is j = refs j + is.count j := by
  induction is generalizing refs with
  | nil => rfl
  | cons i is ih =>
    rw [getRefs_cons, ih, getRef, Function.update_apply, List.count_cons]
    by_cases hj : j = i
    · subst hj
      simp only [if_true, beq_self_eq_true]
      omega
    · simp [hj, Ne.symm hj]

theorem getRefs_eq_self_iff (refs : ι → ℕ) (is : List ι) : getRefs refs is = refs ↔ is = [] := by
  refine ⟨?_, ?_⟩
  · intro h
    cases is with
    | nil => rfl
    | cons i is =>
      have hi := congrFun h i
      rw [getRefs_apply, List.count_cons_self] at hi
      omega
  · rintro rfl
    rfl

end OsLabs
