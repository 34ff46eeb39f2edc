import Mathlib.Data.List.Basic
import Mathlib.Data.List.Nodup
import Mathlib.Order.Lattice

/-! A waiting line ordered by tickets: a customer joins at the end with a ticket
above all others and may leave from anywhere; the one in front has the least
ticket. Customers and tickets are arbitrary. -/

namespace OsLabs

variable {κ τ : Type*} [LinearOrder τ] {ticket : κ → τ} {q : List κ}

def InOrder (ticket : κ → τ) (q : List κ) : Prop := q.Pairwise fun a b => ticket a < ticket b

theorem InOrder.nodup (h : InOrder ticket q) : q.Nodup :=
  h.imp fun hab he => absurd hab (by rw [he]; exact lt_irrefl _)

theorem InOrder.injective (h : InOrder ticket q) {i j : κ} (hi : i ∈ q) (hj : j ∈ q)
    (he : ticket i = ticket j) : i = j := by
  have hd : (q.map ticket).Nodup := List.pairwise_map.2 (h.imp ne_of_lt)
  exact List.inj_on_of_nodup_map hd hi hj he

theorem InOrder.front_le (h : InOrder ticket q) {i j : κ} (hi : q.head? = some i) (hj : j ∈ q) :
    ticket i ≤ ticket j := by
  cases q with
  | nil => simp at hi
  | cons a q =>
    obtain rfl : a = i := by simpa using hi
    rcases List.mem_cons.1 hj with rfl | hj
    · exact le_rfl
    · exact le_of_lt ((List.pairwise_cons.1 h).1 j hj)

/-- A customer is in front exactly when nobody in line has a smaller ticket. -/
theorem InOrder.front_iff (h : InOrder ticket q) {i : κ} (hi : i ∈ q) :
    q.head? = some i ↔ ∀ j ∈ q, ticket i ≤ ticket j := by
  constructor
  · intro hh j hj
    exact h.front_le hh hj
  · intro hle
    cases q with
    | nil => simp at hi
    | cons a q =>
      have hai : ticket a ≤ ticket i := h.front_le rfl hi
      have hia : ticket i ≤ ticket a := hle a (by simp)
      have : a = i := h.injective (by simp) hi (le_antisymm hai hia)
      rw [this, List.head?_cons]

variable [DecidableEq κ]

theorem InOrder.leave (h : InOrder ticket q) (i : κ) : InOrder ticket (q.erase i) :=
  h.sublist List.erase_sublist

/-- A customer joins at the end with a ticket above all others, also when it was
in line already and gives its old place up. -/
theorem InOrder.join (h : InOrder ticket q) (i : κ) {t : τ} (ht : ∀ j ∈ q, ticket j < t) :
    InOrder (Function.update ticket i t) (q.erase i ++ [i]) := by
  have hne : ∀ j ∈ q.erase i, j ≠ i := fun j hj => ((List.Nodup.mem_erase_iff h.nodup).1 hj).1
  refine List.pairwise_append.2 ⟨?_, List.pairwise_singleton _ _, fun j hj a ha => ?_⟩
  · refine (h.leave i).imp_of_mem fun {a b} ha hb hab => ?_
    rw [Function.update_of_ne (hne a ha), Function.update_of_ne (hne b hb)]
    exact hab
  · obtain rfl := List.mem_singleton.1 ha
    rw [Function.update_of_ne (hne j hj), Function.update_self]
    exact ht j (List.mem_of_mem_erase hj)

theorem mem_join {i j : κ} : j ∈ q.erase i ++ [i] ↔ j ∈ q ∨ j = i := by
  by_cases he : j = i
  · simp [he]
  · simp [List.mem_erase_of_ne he, he]

theorem InOrder.mem_leave (h : InOrder ticket q) {i j : κ} : j ∈ q.erase i ↔ j ∈ q ∧ j ≠ i := by
  rw [List.Nodup.mem_erase_iff h.nodup, and_comm]

/-- Those who come before `i`. -/
def ahead (i : κ) (q : List κ) : List κ := q.takeWhile fun j => j ≠ i

omit [LinearOrder τ] in
theorem ahead_append {i : κ} {front : List κ} (hi : i ∉ front) (back : List κ) :
    ahead i (front ++ i :: back) = front := by
  have hfront : ∀ j ∈ front, (fun j => decide (j ≠ i)) j = true := by
    intro j hj
    exact decide_eq_true fun he => hi (he ▸ hj)
  rw [ahead, List.takeWhile_append_of_pos hfront, List.takeWhile_cons_of_neg (by simp),
    List.append_nil]

omit [LinearOrder τ] in
theorem ahead_cons {i a : κ} (ha : a ≠ i) (q : List κ) : ahead i (a :: q) = a :: ahead i q :=
  List.takeWhile_cons_of_pos (by simpa using ha)

omit [LinearOrder τ] in
/-- Whoever joins, or leaves and joins again, gets in front of nobody. -/
theorem ahead_join {i k : κ} (hi : i ∈ q) (hk : k ≠ i) :
    (ahead i (q.erase k ++ [k])).Sublist (ahead i q) := by
  obtain ⟨front, back, rfl, hfront⟩ := List.eq_append_cons_of_mem hi
  rw [ahead_append hfront, List.erase_append]
  split_ifs with hmem
  · have hgone : i ∉ front.erase k := fun h => hfront (List.mem_of_mem_erase h)
    rw [List.append_assoc, List.cons_append, ahead_append hgone]
    exact List.erase_sublist
  · rw [List.erase_cons_tail (by simpa using hk.symm), List.append_assoc, List.cons_append,
      ahead_append hfront]

theorem InOrder.lt_of_mem_ahead (h : InOrder ticket q) {i j : κ} (hi : i ∈ q)
    (hj : j ∈ ahead i q) : j ∈ q ∧ ticket j < ticket i := by
  obtain ⟨front, back, rfl, hfront⟩ := List.eq_append_cons_of_mem hi
  rw [ahead_append hfront] at hj
  refine ⟨List.mem_append_left _ hj, ?_⟩
  exact (List.pairwise_append.1 h).2.2 j hj i List.mem_cons_self

theorem InOrder.leave_update (h : InOrder ticket q) (i : κ) (t : τ) :
    InOrder (Function.update ticket i t) (q.erase i) := by
  refine (h.leave i).imp_of_mem fun {a b} ha hb hab => ?_
  rw [Function.update_of_ne (h.mem_leave.1 ha).2, Function.update_of_ne (h.mem_leave.1 hb).2]
  exact hab

end OsLabs
