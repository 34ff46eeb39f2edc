import OsLabs.Spec.Bakery
import OsLabs.Lib.Line
import Mathlib.Data.List.FinRange

/-! What the two calls of the bakery server do to its tables, and the invariant
of its reachable states: nobody is choosing, tickets are not negative and no two
of them agree, and the clients in line are the ticket holders in the order of
their tickets. -/

namespace OsLabs.Bakery

variable {α : Type}

theorem slot_ok {idx : ℤ} {i : Slot} : slot idx = .ok i ↔ idx = i.val := by
  unfold slot
  split_ifs with h
  · simp only [Except.ok.injEq, Fin.ext_iff]
    omega
  · have := i.isLt
    simp only [false_iff]
    omega

theorem foldl_max_ge (f : Slot → ℤ) (l : List Slot) (a : ℤ) :
    a ≤ l.foldl (fun res i => if f i > res then f i else res) a ∧
      ∀ i ∈ l, f i ≤ l.foldl (fun res i => if f i > res then f i else res) a := by
  induction l generalizing a with
  | nil => simp
  | cons b l ih =>
    obtain ⟨h0, hl⟩ := ih (if f b > a then f b else a)
    simp only [List.foldl_cons, List.mem_cons, forall_eq_or_imp]
    refine ⟨le_trans ?_ h0, le_trans ?_ h0, hl⟩ <;> split_ifs <;> omega

theorem le_maxNumber (numbers : Slot → ℤ) (i : Slot) : numbers i ≤ maxNumber numbers := by
  have hcons : List.finRange MAX_CLNT_CNT = 0 :: (List.finRange MAX_CLNT_CNT).tail := by decide
  have hi := List.mem_finRange i
  obtain ⟨h0, hl⟩ := foldl_max_ge numbers (List.finRange MAX_CLNT_CNT).tail (numbers 0)
  rw [hcons] at hi
  rcases List.mem_cons.1 hi with rfl | hi
  · exact h0
  · exact hl i hi

theorem getNumber1Svc_ok {s s' : Server α} {argp : REQUEST α} {t : ℤ}
    (h : getNumber1Svc s argp = .ok (s', t)) :
    ∃ i : Slot, argp.idx = i.val ∧ t = maxNumber s.numbers + 1 ∧ t ≤ INT_MAX ∧
      s'.numbers = Function.update s.numbers i t ∧
      s'.choosing = Function.update s.choosing i false ∧
      s'.pids = Function.update s.pids i argp.pid := by
  unfold getNumber1Svc at h
  cases hs : slot argp.idx with
  | error f => simp [hs, bind, Except.bind] at h
  | ok i =>
    simp only [hs, bind, Except.bind] at h
    split_ifs at h with hmax
    simp only [pure, Except.pure, Except.ok.injEq, Prod.mk.injEq] at h
    obtain ⟨rfl, rfl⟩ := h
    exact ⟨i, slot_ok.1 hs, rfl, not_lt.1 hmax, rfl, by simp, rfl⟩

variable [Number α] {s s' : Server α}

omit [Number α] in
/-- With nobody choosing, the loop turns slot `j` away when another ticket comes
before its own in the table's order. -/
theorem turnedAway_eq (hc : ∀ i, s.choosing i = false) (j : Slot) :
    turnedAway s j.val = .ok ((List.finRange MAX_CLNT_CNT).any fun i =>
      s.numbers i ≠ 0 && (s.numbers i < s.numbers j ||
        (s.numbers i = s.numbers j && s.pids i < s.pids j))) := by
  unfold turnedAway
  induction List.finRange MAX_CLNT_CNT with
  | nil => rfl
  | cons a l ih =>
    have hj : slot (j.val : ℤ) = .ok j := slot_ok.2 rfl
    simp only [List.anyM, turnsAway, hc, hj, ih, List.any_cons, Bool.false_eq_true, if_false]
    by_cases h0 : s.numbers a = 0
    · simp [h0, pure, bind, Except.pure, Except.bind]
    · simp only [h0, if_false, ne_eq, not_false_eq_true, decide_true, Bool.true_and, pure, bind,
        Except.pure, Except.bind]
      split <;> simp_all

/-- A caller turned away changes no table; one that passes gives its ticket up. -/
theorem bakeryService1Svc_ok {argp : REQUEST α} {r : α}
    (h : bakeryService1Svc s argp = .ok (s', r)) :
    (turnedAway s argp.idx = .ok true ∧ s'.numbers = s.numbers ∧ s'.choosing = s.choosing ∧
      s'.pids = s.pids) ∨
    ∃ i : Slot, argp.idx = i.val ∧ Passes s i ∧ s'.numbers = Function.update s.numbers i 0 ∧
      s'.choosing = Function.update s.choosing i false ∧ s'.pids = s.pids := by
  unfold bakeryService1Svc at h
  cases ht : turnedAway s argp.idx with
  | error f => simp [ht, bind, Except.bind] at h
  | ok b =>
    simp only [ht, bind, Except.bind] at h
    cases b with
    | true =>
      simp only [if_true, pure, Except.pure, Except.ok.injEq, Prod.mk.injEq] at h
      obtain ⟨rfl, -⟩ := h
      exact .inl ⟨rfl, rfl, rfl, rfl⟩
    | false =>
      simp only [Bool.false_eq_true, if_false] at h
      cases hs : slot argp.idx with
      | error f => simp [hs] at h
      | ok i =>
        simp only [hs, pure, Except.pure, Except.ok.injEq, Prod.mk.injEq] at h
        obtain ⟨rfl, -⟩ := h
        have hi := slot_ok.1 hs
        exact .inr ⟨i, hi, by rw [Passes, ← hi]; exact ht, rfl, rfl, rfl⟩

/-- Everything a request can do to the server and to the line. -/
theorem step_cases {e : Request α} (h : step s e = some s') (q : List Slot) :
    (∃ argp i, e = .getNumber argp ∧ argp.idx = i.val ∧
      s'.numbers = Function.update s.numbers i (maxNumber s.numbers + 1) ∧
      s'.choosing = Function.update s.choosing i false ∧ lineStep q s e = q.erase i ++ [i]) ∨
    (∃ argp, e = .bakeryService argp ∧ turnedAway s argp.idx = .ok true ∧
      s'.numbers = s.numbers ∧ s'.choosing = s.choosing ∧ lineStep q s e = q) ∨
    (∃ argp i, e = .bakeryService argp ∧ argp.idx = i.val ∧ Passes s i ∧
      s'.numbers = Function.update s.numbers i 0 ∧
      s'.choosing = Function.update s.choosing i false ∧ lineStep q s e = q.erase i) := by
  cases e with
  | getNumber argp =>
    simp only [step, Option.map_eq_some_iff] at h
    obtain ⟨⟨s₁, t⟩, h, rfl⟩ := h
    obtain ⟨i, hi, rfl, -, hn, hc, -⟩ := getNumber1Svc_ok (toOption_eq_some.1 h)
    exact .inl ⟨argp, i, rfl, hi, hn, hc, by simp [lineStep, slot_ok.2 hi]⟩
  | bakeryService argp =>
    simp only [step, Option.map_eq_some_iff] at h
    obtain ⟨⟨s₁, r⟩, h, rfl⟩ := h
    rcases bakeryService1Svc_ok (toOption_eq_some.1 h) with
      ⟨ht, hn, hc, -⟩ | ⟨i, hi, hp, hn, hc, -⟩
    · refine .inr (.inl ⟨argp, rfl, ht, hn, hc, ?_⟩)
      cases hs : slot argp.idx <;> simp [lineStep, hs, ht]
    · refine .inr (.inr ⟨argp, i, rfl, hi, hp, hn, hc, ?_⟩)
      have ht : turnedAway s argp.idx = .ok false := by rw [hi]; exact hp
      simp [lineStep, slot_ok.2 hi, ht]

/-- The invariant, for the server and the line of its ticket holders. -/
structure Inv (s : Server α) (q : List Slot) : Prop where
  choosing : ∀ i, s.choosing i = false
  nonneg : ∀ i, 0 ≤ s.numbers i
  mem : ∀ i, i ∈ q ↔ s.numbers i ≠ 0
  inOrder : InOrder s.numbers q

omit [Number α] in
theorem not_choosing_update {choosing : Slot → Bool} (h : ∀ j, choosing j = false) (i j : Slot) :
    Function.update choosing i false j = false := by
  rw [Function.update_apply]
  split_ifs
  · rfl
  · exact h j

theorem inv_init : Inv (init : Server α) [] where
  choosing _ := rfl
  nonneg _ := le_rfl
  mem i := by simp [init]
  inOrder := List.Pairwise.nil

theorem inv_step {e : Request α} {q : List Slot} (hi : Inv s q) (h : step s e = some s') :
    Inv s' (lineStep q s e) := by
  rcases step_cases h q with ⟨argp, i, -, -, hn, hc, hq⟩ | ⟨argp, -, -, hn, hc, hq⟩ |
    ⟨argp, i, -, -, -, hn, hc, hq⟩ <;> rw [hq]
  · have hmax : ∀ j, s.numbers j < maxNumber s.numbers + 1 := fun j =>
      Int.lt_add_one_of_le (le_maxNumber s.numbers j)
    have hpos : 0 < maxNumber s.numbers + 1 := lt_of_le_of_lt (hi.nonneg i) (hmax i)
    refine ⟨fun j => ?_, fun j => ?_, fun j => ?_, ?_⟩
    · rw [hc]
      exact not_choosing_update hi.choosing i j
    · rw [hn, Function.update_apply]
      split_ifs
      · exact hpos.le
      · exact hi.nonneg j
    · rw [mem_join, hn, Function.update_apply]
      split_ifs with hj
      · simp [hj, hpos.ne']
      · simp [hj, hi.mem]
    · rw [hn]
      exact hi.inOrder.join i fun j _ => hmax j
  · refine ⟨fun j => ?_, fun j => ?_, fun j => ?_, ?_⟩
    · rw [hc, hi.choosing]
    · rw [hn]
      exact hi.nonneg j
    · rw [hn, hi.mem]
    · rw [hn]
      exact hi.inOrder
  · refine ⟨fun j => ?_, fun j => ?_, fun j => ?_, ?_⟩
    · rw [hc]
      exact not_choosing_update hi.choosing i j
    · rw [hn, Function.update_apply]
      split_ifs
      · exact le_rfl
      · exact hi.nonneg j
    · rw [hi.inOrder.mem_leave, hn, Function.update_apply, hi.mem]
      split_ifs with hj <;> simp [hj]
    · rw [hn]
      exact hi.inOrder.leave_update i 0

theorem inv_run {tr : List (Server α × Request α)} (h : Run step init tr s) :
    Inv s (line tr) := by
  induction h with
  | nil => exact inv_init
  | @snoc tr s e s' _ he ih =>
    have hl : line (tr ++ [(s, e)]) = lineStep (line tr) s e := by simp [line]
    rw [hl]
    exact inv_step ih he

omit [Number α] in
/-- Who gets past the loop: a slot no other ticket comes before. -/
theorem Inv.passes_iff {q : List Slot} (hi : Inv s q) (i : Slot) :
    Passes s i ↔ ∀ j, s.numbers j ≠ 0 → s.numbers i ≤ s.numbers j := by
  rw [Passes, turnedAway_eq hi.choosing, Except.ok.injEq, List.any_eq_false]
  constructor
  · intro h j hj
    have := h j (List.mem_finRange j)
    simp only [ne_eq, hj, not_false_eq_true, decide_true, Bool.true_and, Bool.or_eq_true,
      decide_eq_true_eq, not_or, not_lt] at this
    exact this.1
  · intro h j _
    simp only [ne_eq, Bool.and_eq_true, Bool.or_eq_true, decide_eq_true_eq, not_and, not_or, not_lt]
    intro hj
    refine ⟨h j hj, fun he => ?_⟩
    -- equal tickets are the same client's, which does not come before itself
    have hij : j = i :=
      hi.inOrder.injective ((hi.mem j).2 hj) ((hi.mem i).2 (he ▸ hj)) he
    rw [hij]

omit [Number α] in
/-- A ticket holder gets past the loop exactly when it is in front of the line. -/
theorem Inv.passes_iff_front {q : List Slot} (hi : Inv s q) {i : Slot} (h0 : s.numbers i ≠ 0) :
    Passes s i ↔ q.head? = some i := by
  rw [hi.passes_iff, hi.inOrder.front_iff ((hi.mem i).2 h0)]
  simp only [hi.mem]

end OsLabs.Bakery
