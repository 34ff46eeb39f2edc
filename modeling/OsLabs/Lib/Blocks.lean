import Mathlib.Data.List.Basic
import Mathlib.Data.List.Range

/-! A list cut into blocks of one size, the last of which may be shorter, and every other
one of them. -/

namespace OsLabs

variable {α : Type*}

def block (size : ℕ) (l : List α) (j : ℕ) : List α := (l.drop (size * j)).take size

/-- The blocks `k`, `k + 2`, `k + 4`, and so on. -/
def everyOther (size : ℕ) (l : List α) (k : ℕ) : List α :=
  (List.range l.length).flatMap fun j => block size l (2 * j + k)

variable {size : ℕ}

@[simp] theorem block_zero (l : List α) : block size l 0 = l.take size := by
  rw [block, Nat.mul_zero, List.drop_zero]

theorem block_drop (l : List α) (j : ℕ) : block size (l.drop size) j = block size l (j + 1) := by
  rw [block, block, List.drop_drop, Nat.mul_succ, Nat.add_comm]

theorem block_eq_nil {l : List α} {j : ℕ} (hsize : 0 < size) (h : l.length ≤ j) :
    block size l j = [] := by
  have hle : l.length ≤ size * j := h.trans (Nat.le_mul_of_pos_left j hsize)
  rw [block, List.drop_eq_nil_of_le hle, List.take_nil]

/-- The first blocks, put together again. -/
theorem flatten_blocks (l : List α) (n : ℕ) :
    ((List.range n).map (block size l)).flatten = l.take (size * n) := by
  induction n with
  | zero => simp
  | succ n ih =>
    rw [List.range_succ, List.map_append, List.flatten_append, ih, Nat.mul_succ, List.take_add]
    simp [block]

/-- There are no more blocks than elements. -/
theorem everyOther_eq (hsize : 0 < size) (l : List α) (k : ℕ) {n : ℕ} (h : l.length ≤ n) :
    everyOther size l k = (List.range n).flatMap fun j => block size l (2 * j + k) := by
  obtain ⟨m, rfl⟩ := Nat.exists_eq_add_of_le h
  have hrest : ((List.range m).map (l.length + ·)).flatMap (fun j => block size l (2 * j + k)) =
      [] := by
    rw [List.flatMap_eq_nil_iff]
    intro j hj
    obtain ⟨i, -, rfl⟩ := List.mem_map.1 hj
    exact block_eq_nil hsize (by omega)
  rw [List.range_add, List.flatMap_append, hrest, List.append_nil, everyOther]

@[simp] theorem everyOther_nil (k : ℕ) : everyOther size ([] : List α) k = [] := rfl

/-- Who takes the odd blocks takes the even ones of what comes behind the first. -/
theorem everyOther_one (hsize : 0 < size) (l : List α) :
    everyOther size l 1 = everyOther size (l.drop size) 0 := by
  have hle : (l.drop size).length ≤ l.length := by simp
  rw [everyOther_eq hsize (l.drop size) 0 hle, everyOther]
  refine List.flatMap_congr fun j _ => ?_
  rw [block_drop]

theorem everyOther_zero (hsize : 0 < size) (l : List α) :
    everyOther size l 0 = l.take size ++ everyOther size (l.drop size) 1 := by
  have hle : (l.drop size).length ≤ l.length := by simp
  rw [everyOther_eq hsize l 0 (Nat.le_succ _), List.range_succ_eq_map, List.flatMap_cons,
    List.flatMap_map, block_zero, everyOther_eq hsize (l.drop size) 1 hle]
  congr 1
  refine List.flatMap_congr fun j _ => ?_
  rw [block_drop]
  rfl

/-- The even blocks and the odd ones are the whole list. -/
theorem everyOther_perm (hsize : 0 < size) (l : List α) :
    (everyOther size l 0 ++ everyOther size l 1).Perm l := by
  induction h : l.length using Nat.strong_induction_on generalizing l with
  | _ n ih =>
    cases l with
    | nil => exact .nil
    | cons a l =>
      have hlt : ((a :: l).drop size).length < n := by
        rw [List.length_drop, h, ← h, List.length_cons]
        omega
      have hrest := ih _ hlt _ rfl
      have hsplit := List.take_append_drop size (a :: l)
      rw [everyOther_zero hsize, everyOther_one hsize (a :: l), List.append_assoc]
      exact ((List.perm_append_comm.trans hrest).append_left _).trans (.of_eq hsplit)

end OsLabs
