import OsLabs.Proofs.Replies

/-! How large the tickets of the bakery server get. The largest one outstanding counts
the tickets issued since the table was last empty, and clients that overlap keep it from
ever being empty. -/

namespace OsLabs.Bakery

theorem foldl_max_mem (f : Slot → ℤ) (l : List Slot) (a : ℤ) :
    l.foldl (fun res i => if f i > res then f i else res) a = a ∨
      ∃ i ∈ l, f i = l.foldl (fun res i => if f i > res then f i else res) a := by
  induction l generalizing a with
  | nil => exact .inl rfl
  | cons b l ih =>
    rw [List.foldl_cons]
    rcases ih (if f b > a then f b else a) with h | ⟨i, hi, h⟩
    · rw [h]
      split_ifs
      · exact .inr ⟨b, List.mem_cons_self, rfl⟩
      · exact .inl rfl
    · exact .inr ⟨i, List.mem_cons_of_mem b hi, h⟩

theorem exists_maxNumber (numbers : Slot → ℤ) : ∃ i, numbers i = maxNumber numbers := by
  rcases foldl_max_mem numbers (List.finRange MAX_CLNT_CNT).tail (numbers 0) with h | ⟨i, -, h⟩
  · exact ⟨0, h.symm⟩
  · exact ⟨i, h⟩

theorem maxNumber_eq {numbers : Slot → ℤ} {m : ℤ} {i : Slot} (hi : numbers i = m)
    (hle : ∀ j, numbers j ≤ m) : maxNumber numbers = m := by
  obtain ⟨k, hk⟩ := exists_maxNumber numbers
  have hik := le_maxNumber numbers i
  have hkm := hle k
  omega

theorem drained_iff {numbers : Slot → ℤ} : drained numbers = true ↔ ∀ i, numbers i = 0 := by
  simp [drained]

variable {α : Type}

def Tally (n : ℕ) (s : Server α) : Prop :=
  maxNumber s.numbers = if drained s.numbers then 0 else (n : ℤ)

theorem tally_init [Number α] : Tally 0 (init : Server α) := by
  rw [Tally, Nat.cast_zero, ite_self]
  exact maxNumber_eq (i := 0) rfl fun _ => le_rfl

variable {s s' : Server α}

theorem tally_getNumber {n : ℕ} {i : Slot} (ht : Tally n s) (hnonneg : ∀ j, 0 ≤ s.numbers j)
    (hn : s'.numbers = Function.update s.numbers i (maxNumber s.numbers + 1)) :
    Tally ((if drained s.numbers then 0 else n) + 1) s' := by
  have hle := le_maxNumber s.numbers
  have hmax : maxNumber s'.numbers = maxNumber s.numbers + 1 := by
    rw [hn]
    refine maxNumber_eq (Function.update_self i _ _) ?_
    intro j
    rw [Function.update_apply]
    split_ifs
    · exact le_rfl
    · exact (hle j).trans (Int.le_add_one le_rfl)
  have hnot : ¬ drained s'.numbers = true := by
    rw [drained_iff]
    intro hall
    have hi := hall i
    rw [hn, Function.update_self] at hi
    have h0 := (hnonneg i).trans (hle i)
    omega
  rw [Tally, hmax, if_neg hnot, ht]
  split_ifs <;> simp

/-- The ticket given up is the smallest, so another client's is the largest unless
nobody else has one. -/
theorem tally_served {n : ℕ} {i : Slot} (ht : Tally n s)
    (hfirst : ∀ j, s.numbers j ≠ 0 → s.numbers i ≤ s.numbers j)
    (hnonneg : ∀ j, 0 ≤ s.numbers j)
    (hn : s'.numbers = Function.update s.numbers i 0) : Tally n s' := by
  by_cases hd : drained s'.numbers = true
  · rw [Tally, if_pos hd]
    exact maxNumber_eq (i := i) (drained_iff.1 hd i) fun j => (drained_iff.1 hd j).le
  · obtain ⟨j, hj⟩ := not_forall.1 (mt drained_iff.2 hd)
    have hji : j ≠ i := by
      rintro rfl
      rw [hn, Function.update_self] at hj
      exact hj rfl
    rw [hn, Function.update_of_ne hji] at hj
    have hds : ¬ drained s.numbers = true := fun hall => hj (drained_iff.1 hall j)
    rw [Tally, if_neg hds] at ht
    rw [Tally, if_neg hd, ← ht]
    -- the largest ticket is another slot's than `i`
    obtain ⟨k, hki, hk⟩ : ∃ k ≠ i, s.numbers k = maxNumber s.numbers := by
      obtain ⟨k, hk⟩ := exists_maxNumber s.numbers
      by_cases hki : k = i
      · have hle := le_maxNumber s.numbers j
        have hij := hfirst j hj
        rw [← hki, hk] at hij
        exact ⟨j, hji, le_antisymm hle hij⟩
      · exact ⟨k, hki, hk⟩
    refine maxNumber_eq (i := k) (by rw [hn, Function.update_of_ne hki, hk]) ?_
    intro l
    rw [hn, Function.update_apply]
    split_ifs
    · exact (hnonneg k).trans hk.le
    · exact le_maxNumber s.numbers l

variable [Number α]

theorem tally_step {n : ℕ} {q : List Slot} {e : Request α} (hi : Inv s q) (ht : Tally n s)
    (h : step s e = some s') : Tally (issuedStep n s e) s' := by
  rcases step_cases h q with ⟨argp, i, rfl, -, hn, -, -⟩ | ⟨argp, rfl, -, hn, -, -⟩ |
    ⟨argp, i, rfl, -, hpass, hn, -, -⟩
  · exact tally_getNumber ht hi.nonneg hn
  · rw [issuedStep, Tally, hn]
    exact ht
  · exact tally_served ht ((hi.passes_iff i).1 hpass) hi.nonneg hn

theorem tally_run {tr : List (Server α × Request α)} (h : Run step init tr s) :
    Tally (issued tr) s := by
  induction h with
  | nil => exact tally_init
  | @snoc tr s e s' hr he ih =>
    have hl : issued (tr ++ [(s, e)]) = issuedStep (issued tr) s e := by simp [issued]
    rw [hl]
    exact tally_step (inv_run hr) ih he

/-- The next ticket fits as long as the table is empty or has not stayed in use for
`INT_MAX` tickets. -/
theorem ticketFits_iff {tr : List (Server α × Request α)} (h : Run step init tr s) :
    TicketFits s ↔ drained s.numbers = true ∨ (issued tr : ℤ) < INT_MAX := by
  have ht := tally_run h
  rw [TicketFits, ht]
  split_ifs with hd
  · simp [hd, INT_MAX, INT_MIN]
  · simp only [hd, false_or, INT_MAX, INT_MIN, Bool.false_eq_true]
    omega

def oneInLine : List (Request (Option ℤ)) := [.getNumber (noOperation 0)]

theorem ticketFits_oneInLine :
    TicketFits ((exec step init oneInLine).get (by decide +kernel)) ↔
      drained ((exec step init oneInLine).get (by decide +kernel)).numbers = true ∨
        (issued (trace step init oneInLine) : ℤ) < INT_MAX :=
  ticketFits_iff (run_of_isSome init oneInLine (by decide +kernel))

/-- Slot `i` alone has a ticket, and it is `n`. -/
structure Alone (i : Slot) (n : ℤ) (s : Server α) : Prop where
  own : s.numbers i = n
  others : ∀ j, j ≠ i → s.numbers j = 0

theorem step_numbered (argp : REQUEST α) {i : Slot} (hi : argp.idx = i.val)
    (hmax : maxNumber s.numbers + 1 ≤ INT_MAX) :
    step s (.getNumber argp) = some { s with
      choosing := Function.update s.choosing i false
      numbers := Function.update s.numbers i (maxNumber s.numbers + 1)
      pids := Function.update s.pids i argp.pid } := by
  have hs : slot argp.idx = .ok i := slot_ok.2 hi
  have hlt : ¬ INT_MAX < maxNumber s.numbers + 1 := not_lt.2 hmax
  simp [step, getNumber1Svc, hs, hlt, bind, Except.bind, pure, Except.pure, Except.toOption]

/-- Some run of clients that wait leads to a ticket `n` that is alone. -/
def Reached (α : Type) [Number α] (i : Slot) (n : ℤ) : Prop :=
  ∃ (tr : List (Server α × Request α)) (s : Server α),
    Run step init tr s ∧ EachStep Waits tr ∧ Alone i n s

theorem reached_one : Reached α 0 1 := by
  have hmax : maxNumber (init : Server α).numbers = 0 :=
    maxNumber_eq (i := 0) rfl fun _ => le_rfl
  have hstep := step_numbered (s := (init : Server α)) (noOperation 0) (i := 0) rfl
    (by rw [hmax]; decide)
  refine ⟨_, _, Run.nil.snoc hstep, eachStep_snoc.2 ⟨eachStep_nil, 0, rfl, rfl⟩, ?_, ?_⟩
  · rw [hmax]
    rfl
  · intro j hj
    exact Function.update_of_ne hj _ _

/-- Another client takes the next ticket before the one that is alone is served. -/
theorem Reached.overlap {i j : Slot} {n : ℤ} (h : Reached α i n) (hij : j ≠ i) (hn : 0 < n)
    (hmax : n + 1 ≤ INT_MAX) : Reached α j (n + 1) := by
  obtain ⟨tr, s, hrun, hw, ha⟩ := h
  have hnumbers : maxNumber s.numbers = n := by
    refine maxNumber_eq ha.own fun k => ?_
    by_cases hk : k = i
    · rw [hk, ha.own]
    · rw [ha.others k hk]
      exact hn.le
  have htake := step_numbered (s := s) (noOperation j) (i := j) rfl
    (by rw [hnumbers]; exact hmax)
  rw [hnumbers] at htake
  have hrun' := hrun.snoc htake
  have hpass := ((inv_run hrun').passes_iff i).2 fun k hk => by
    simp only [Function.update_apply, if_neg hij.symm, ha.own] at hk ⊢
    split_ifs at hk ⊢
    · omega
    · by_cases hki : k = i
      · rw [hki, ha.own]
      · exact absurd (ha.others k hki) hk
  have hserve := step_served (noOperation i) rfl hpass
  refine ⟨_, _, hrun'.snoc hserve, ?_, ?_, ?_⟩
  · exact eachStep_snoc.2 ⟨eachStep_snoc.2 ⟨hw, j, rfl, ha.others j hij⟩, i, rfl⟩
  · simp [hij]
  · intro k hk
    simp only [Function.update_apply, if_neg hk]
    split_ifs with hki
    · rfl
    · exact ha.others k hki

theorem exists_other (i : Slot) : ∃ j, j ≠ i := by
  by_cases h : i = 0
  · exact ⟨1, by rw [h]; decide⟩
  · exact ⟨0, Ne.symm h⟩

theorem reached (n : ℕ) (hmax : (n : ℤ) + 1 ≤ INT_MAX) : ∃ i, Reached α i (n + 1) := by
  induction n with
  | zero => exact ⟨0, reached_one⟩
  | succ n ih =>
    obtain ⟨i, h⟩ := ih (by push_cast at hmax; omega)
    obtain ⟨j, hj⟩ := exists_other i
    exact ⟨j, by exact_mod_cast h.overlap hj (by omega) (by exact_mod_cast hmax)⟩

/-- Two clients that take turns overlap until one of them holds `INT_MAX`. -/
theorem ticketFits_fails :
    ¬ ∀ (tr : List (Server (Option ℤ) × Request (Option ℤ))) (s : Server (Option ℤ)),
      Run step init tr s → EachStep Waits tr →
      ∀ argp, Waits s (.getNumber argp) → TicketFits s := by
  intro h
  obtain ⟨i, tr, s, hrun, hw, ha⟩ := reached (α := Option ℤ) (INT_MAX - 1).toNat (by decide)
  obtain ⟨j, hj⟩ := exists_other i
  have hfits := h tr s hrun hw (noOperation j) ⟨j, rfl, ha.others j hj⟩
  have hle := le_maxNumber s.numbers i
  rw [ha.own] at hle
  have hlast : ((INT_MAX - 1).toNat : ℤ) + 1 = INT_MAX := by decide
  have hover := hfits.2
  omega

end OsLabs.Bakery
