import Mathlib.Data.List.Count

/-! A pool that hands out objects, takes them back and is destroyed in the end. -/

namespace OsLabs.Pool

/-- The calls made on a pool. A null pointer may be given back as well. -/
inductive Call (α : Type*)
  | alloc (a : α)
  | free (a : Option α)
  | destroy
  deriving DecidableEq

variable {α : Type*} [DecidableEq α]

/-- Every object handed out was given back exactly once, and before the pool was
destroyed. -/
def Returned (calls : List (Call α)) : Prop :=
  ∀ a, .alloc a ∈ calls →
    calls.count (.free (some a)) = 1 ∧ .free (some a) ∈ calls.takeWhile (· ≠ .destroy)

def Call.handsOut : Call α → Option α
  | .alloc a => some a
  | .free _ | .destroy => none

omit [DecidableEq α] in
theorem mem_handsOut {calls : List (Call α)} {a : α} :
    a ∈ calls.filterMap Call.handsOut ↔ .alloc a ∈ calls := by
  rw [List.mem_filterMap]
  constructor
  · rintro ⟨c, hc, hout⟩
    cases c with
    | alloc b =>
      obtain rfl := Option.some.inj hout
      exact hc
    | free => cases hout
    | destroy => cases hout
  · exact fun h => ⟨_, h, rfl⟩

instance (calls : List (Call α)) : Decidable (Returned calls) :=
  decidable_of_iff (∀ a ∈ calls.filterMap Call.handsOut,
      calls.count (.free (some a)) = 1 ∧ .free (some a) ∈ calls.takeWhile (· ≠ .destroy))
    (forall_congr' fun _ => imp_congr_left mem_handsOut)

theorem returned_of_no_alloc {calls : List (Call α)} (h : ∀ a, .alloc a ∉ calls) :
    Returned calls := by
  intro a ha
  exact absurd ha (h a)

theorem count_free (fs : List (Option α)) (a : Option α) :
    (fs.map Call.free).count (.free a) = fs.count a := by
  refine List.count_map_of_injective fs Call.free ?_ a
  intro f f' h
  exact Call.free.inj h

/-- Objects handed out, pointers given back, the pool destroyed. -/
theorem returned_iff (as : List α) (fs : List (Option α)) :
    Returned (as.map .alloc ++ fs.map .free ++ [.destroy]) ↔ ∀ a ∈ as, fs.count (some a) = 1 := by
  have halloc : ∀ a, Call.alloc a ∈ as.map Call.alloc ++ fs.map Call.free ++ [Call.destroy] ↔
      a ∈ as := by
    simp
  have hcount : ∀ a, (as.map Call.alloc ++ fs.map Call.free ++ [Call.destroy]).count
      (Call.free (some a)) = fs.count (some a) := by
    intro a
    have has : (as.map Call.alloc).count (Call.free (some a)) = 0 :=
      List.count_eq_zero.2 (by simp)
    rw [List.count_append, List.count_append, has, count_free]
    simp
  have htake : (as.map Call.alloc ++ fs.map Call.free ++ [Call.destroy]).takeWhile
      (· ≠ Call.destroy) = as.map Call.alloc ++ fs.map Call.free := by
    rw [List.takeWhile_append_of_pos]
    · simp
    · intro c hc
      rcases List.mem_append.1 hc with hc | hc <;> obtain ⟨_, -, rfl⟩ := List.mem_map.1 hc <;> rfl
  refine ⟨?_, ?_⟩
  · intro h a ha
    rw [← hcount]
    exact (h a ((halloc a).2 ha)).1
  · intro h a ha
    have hone := h a ((halloc a).1 ha)
    rw [hcount, htake]
    refine ⟨hone, List.mem_append_right _ ?_⟩
    rw [List.mem_map]
    exact ⟨some a, List.count_pos_iff.1 (by omega), rfl⟩

theorem returned_append_destroy {calls : List (Call α)} :
    Returned calls ↔ Returned (calls ++ [.destroy]) := by
  have htake : ∀ calls : List (Call α), (calls ++ [Call.destroy]).takeWhile (· ≠ Call.destroy) =
      calls.takeWhile (· ≠ Call.destroy) := by
    intro calls
    induction calls with
    | nil => simp
    | cons c calls ih =>
      rw [List.cons_append, List.takeWhile_cons, List.takeWhile_cons, ih]
  unfold Returned
  rw [htake]
  simp

theorem returned_all {as : List α} (h : as.Nodup) :
    Returned (as.map .alloc ++ (as.map some).map .free ++ [.destroy]) := by
  rw [returned_iff]
  intro a ha
  rw [List.count_map_of_injective as some fun _ _ => Option.some.inj]
  rw [h.count, if_pos ha]

end OsLabs.Pool
