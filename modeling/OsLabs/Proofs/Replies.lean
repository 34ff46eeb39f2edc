import OsLabs.Proofs.Bakery
import OsLabs.Spec.Calculator

/-! Replies and histories. Both servers reply through a static variable, and the
operations that do not assign it send what an earlier request has left there. -/

namespace OsLabs.Bakery

variable {α : Type} [Number α] {s t : Server α} {argp : REQUEST α}

def reply (s : Server α) (argp : REQUEST α) : Except Fault α :=
  (bakeryService1Svc s argp).map Prod.snd

def Server.withResult (s : Server α) (r : α) : Server α := { s with result := r }

structure SameTickets (s t : Server α) : Prop where
  choosing : t.choosing = s.choosing
  numbers : t.numbers = s.numbers
  pids : t.pids = s.pids

def Assigns (argp : REQUEST α) : Prop :=
  argp.op = 0 ∨ argp.op = 1 ∨ argp.op = 2 ∨ argp.op = 3 ∧ ¬ argp.arg2 == 0

theorem compute_assigns (h : Assigns argp) (r r' : α) : compute r argp = compute r' argp := by
  rcases h with h | h | h | ⟨h, h0⟩
  · simp [compute, h]
  · simp [compute, h]
  · simp [compute, h]
  · simp [compute, h, h0]

theorem compute_keeps (h : ¬ Assigns argp) (r : α) : compute r argp = r := by
  unfold compute
  split
  · rename_i hop
    exact absurd (.inl hop) h
  · rename_i hop
    exact absurd (.inr (.inl hop)) h
  · rename_i hop
    exact absurd (.inr (.inr (.inl hop))) h
  · rename_i hop
    rw [if_pos]
    by_contra h0
    exact h (.inr (.inr (.inr ⟨hop, h0⟩)))
  · rfl

omit [Number α] in
theorem SameTickets.eq (h : SameTickets s t) : t = s.withResult t.result := by
  obtain ⟨hc, hn, hp⟩ := h
  rw [Server.withResult, ← hc, ← hn, ← hp]

omit [Number α] in
theorem turnedAway_result (r : α) (idx : ℤ) :
    turnedAway (s.withResult r) idx = turnedAway s idx := rfl

theorem reply_eq (s : Server α) (argp : REQUEST α) :
    reply s argp = match turnedAway s argp.idx, slot argp.idx with
      | .error f, _ => .error f
      | .ok true, _ => .ok Number.infinity
      | .ok false, .error f => .error f
      | .ok false, .ok _ => .ok (compute s.result argp) := by
  unfold reply bakeryService1Svc
  cases turnedAway s argp.idx with
  | error f => rfl
  | ok b =>
    cases b with
    | true => rfl
    | false => cases slot argp.idx <;> rfl

omit [Number α] in
theorem getNumber1Svc_result (r : α) (s : Server α) (argp : REQUEST α) :
    getNumber1Svc (s.withResult r) argp =
      (getNumber1Svc s argp).map fun p => (p.1.withResult r, p.2) := by
  unfold getNumber1Svc
  cases slot argp.idx with
  | error f => rfl
  | ok i =>
    by_cases hmax : INT_MAX < maxNumber s.numbers + 1
    · simp [Server.withResult, hmax, bind, Except.bind, throw, throwThe, MonadExceptOf.throw,
        Except.map]
    · simp [Server.withResult, hmax, bind, Except.bind, pure, Except.pure, Except.map]

theorem step_getNumber {s' : Server α} (h : step s (.getNumber argp) = some s') (r : α) :
    step (s.withResult r) (.getNumber argp) = some (s'.withResult r) := by
  obtain ⟨p, hp, rfl⟩ := Option.map_eq_some_iff.1 h
  rw [step, getNumber1Svc_result, toOption_eq_some.1 hp]
  rfl

theorem step_served (argp : REQUEST α) {i : Slot} (hi : argp.idx = i.val) (hp : Passes s i) :
    step s (.bakeryService argp) = some { s with
      choosing := Function.update s.choosing i false
      numbers := Function.update s.numbers i 0
      result := compute s.result argp } := by
  have hs : slot argp.idx = .ok i := slot_ok.2 hi
  have ht : turnedAway s argp.idx = .ok false := by rw [hi]; exact hp
  simp [step, bakeryService1Svc, hs, ht, bind, Except.bind, pure, Except.pure, Except.toOption]

theorem step_turnedAway (ht : turnedAway s argp.idx = .ok true) :
    step s (.bakeryService argp) = some (s.withResult Number.infinity) := by
  simp [step, bakeryService1Svc, Server.withResult, ht, bind, Except.bind, pure, Except.pure, Except.toOption]

def noOperation (i : Slot) : REQUEST α := ⟨0, i.val, 0, 4, 0, 0⟩

/-- The tickets of a reachable state are also reached by a history that never
assigns `result`: its requests ask for an unknown operation, and those that were
turned away are left out. -/
theorem unassigned_run {tr : List (Server α × Request α)} (h : Run step init tr s) :
    ∃ tr', Run step init tr' (s.withResult 0) := by
  induction h with
  | nil => exact ⟨[], .nil⟩
  | @snoc tr s e s' _ he ih =>
    obtain ⟨tr', hr⟩ := ih
    cases e with
    | getNumber argp => exact ⟨_, hr.snoc (step_getNumber he 0)⟩
    | bakeryService argp =>
      obtain ⟨p, hb, rfl⟩ := Option.map_eq_some_iff.1 he
      rcases bakeryService1Svc_ok (toOption_eq_some.1 hb) with
        ⟨-, hn, hc, hp⟩ | ⟨i, hi, hp, hn, hc, hpids⟩
      · have hsame : p.1.withResult 0 = s.withResult 0 := by
          rw [Server.withResult, hn, hc, hp, Server.withResult]
        exact ⟨tr', by rw [hsame]; exact hr⟩
      · refine ⟨_, hr.snoc (e := .bakeryService (noOperation i)) ?_⟩
        rw [step_served (s := s.withResult 0) (noOperation i) rfl hp]
        simp only [Server.withResult, hn, hc, hpids]
        rfl

/-- Where a slot without a ticket, or a caller that has to wait, can leave something
else than 0 behind and all tickets as they are. -/
theorem assigned_run {tr : List (Server α × Request α)} (h : Run step init tr s)
    (hinf : (Number.infinity : α) ≠ 0) (hadd : ∃ x y : α, x + y ≠ 0) :
    ∃ tr' r, Run step init tr' (s.withResult r) ∧ r ≠ 0 := by
  have hinv := inv_run h
  obtain ⟨x, y, hxy⟩ := hadd
  by_cases hfree : ∃ i, s.numbers i = 0
  · obtain ⟨i, hi⟩ := hfree
    have hp : Passes s i := by
      rw [hinv.passes_iff]
      intro j _
      rw [hi]
      exact hinv.nonneg j
    have hstep := step_served ⟨0, i.val, 0, 0, x, y⟩ rfl hp
    refine ⟨_, x + y, h.snoc (e := .bakeryService ⟨0, i.val, 0, 0, x, y⟩) ?_, hxy⟩
    rw [hstep, Function.update_eq_self_iff.2 (hinv.choosing i).symm,
      Function.update_eq_self_iff.2 hi.symm]
    rfl
  · -- of two ticket holders the later one is turned away
    rw [not_exists] at hfree
    have hne : s.numbers 0 ≠ s.numbers 1 := by
      intro he
      have h01 := hinv.inOrder.injective ((hinv.mem 0).2 (hfree 0)) ((hinv.mem 1).2 (hfree 1)) he
      exact absurd h01 (by decide)
    have hlt : ∃ i j, s.numbers j < s.numbers i := by
      rcases lt_or_gt_of_ne hne with hlt | hlt
      · exact ⟨1, 0, hlt⟩
      · exact ⟨0, 1, hlt⟩
    obtain ⟨i, j, hlt⟩ := hlt
    have ht : turnedAway s (noOperation i : REQUEST α).idx = .ok true := by
      have hp : ¬ Passes s i := by
        intro hp
        exact absurd ((hinv.passes_iff i).1 hp j (hfree j)) (not_le.2 hlt)
      show turnedAway s i.val = .ok true
      rw [Passes, turnedAway_eq hinv.choosing, Except.ok.injEq, Bool.not_eq_false] at hp
      rw [turnedAway_eq hinv.choosing, hp]
    exact ⟨_, _, h.snoc (step_turnedAway ht), hinf⟩

/-- The reply to `argp` is the same after every history with these tickets. -/
def Determined (s : Server α) (argp : REQUEST α) : Prop :=
  ∀ tr t, Run step init tr t → SameTickets s t → reply t argp = reply s argp

/-- A request that gets past the loop asks for an operation that assigns `result`. -/
def Settled (s : Server α) (argp : REQUEST α) : Prop :=
  ∀ i : Slot, argp.idx = i.val → Passes s i → Assigns argp

theorem determined_of_settled (h : Settled s argp) : Determined s argp := by
  intro tr t _ hst
  rw [hst.eq, reply_eq, reply_eq, turnedAway_result]
  cases ht : turnedAway s argp.idx with
  | error f => rfl
  | ok b =>
    cases b with
    | true => rfl
    | false =>
      cases hs : slot argp.idx with
      | error f => rfl
      | ok i =>
        have hi := slot_ok.1 hs
        have hassigns := h i hi (by rw [Passes, ← hi]; exact ht)
        simp only [compute_assigns hassigns (s.withResult t.result).result s.result]

theorem settled_of_determined {tr : List (Server α × Request α)} (h : Run step init tr s)
    (hinf : (Number.infinity : α) ≠ 0) (hadd : ∃ x y : α, x + y ≠ 0)
    (hdet : Determined s argp) : Settled s argp := by
  intro i hi hp
  by_contra hnot
  have hreply : ∀ r, reply (s.withResult r) argp = .ok r := by
    intro r
    have ht : turnedAway s argp.idx = .ok false := by rw [hi]; exact hp
    rw [reply_eq, turnedAway_result, ht, slot_ok.2 hi]
    simp only [compute_keeps hnot, Server.withResult]
  obtain ⟨tr₀, h₀⟩ := unassigned_run h
  obtain ⟨tr₁, r, h₁, hr⟩ := assigned_run h hinf hadd
  have e₀ := hdet tr₀ _ h₀ ⟨rfl, rfl, rfl⟩
  have e₁ := hdet tr₁ _ h₁ ⟨rfl, rfl, rfl⟩
  rw [hreply] at e₀ e₁
  rw [← e₀, Except.ok.injEq] at e₁
  exact hr e₁

end OsLabs.Bakery

namespace OsLabs.Calculator

variable {α : Type} [Bakery.Number α]

def Known (argp : CALCULATOR α) : Prop :=
  argp.op = 0 ∨ argp.op = 1 ∨ argp.op = 2 ∨ argp.op = 3

def Determined (argp : CALCULATOR α) : Prop := ∀ before before', reply before argp = reply before' argp

theorem determined_of_known {argp : CALCULATOR α} (h : Known argp) : Determined argp := by
  intro before before'
  rcases h with h | h | h | h
  · simp [reply, calculatorProc1Svc, h]
  · simp [reply, calculatorProc1Svc, h]
  · simp [reply, calculatorProc1Svc, h]
  · simp only [reply, calculatorProc1Svc, h]
    split <;> rfl

theorem known_of_determined {argp : CALCULATOR α} (hadd : ∃ x y : α, x + y ≠ 0)
    (hdet : Determined argp) : Known argp := by
  by_contra hnot
  have hkeep : ∀ before, reply before argp = (served before).result := by
    intro before
    unfold reply calculatorProc1Svc
    unfold Known at hnot
    split <;> tauto
  obtain ⟨x, y, hxy⟩ := hadd
  have h := hdet [] [⟨0, x, y, 0⟩]
  rw [hkeep, hkeep] at h
  exact hxy h.symm

end OsLabs.Calculator

namespace OsLabs

open Bakery Calculator

/-- A reply of the bakery depends on the request and the tickets alone when the request
has to wait or asks for an operation that assigns the result, and one of the calculator
when it asks for a known operation. Both are also necessary, in numbers where `INFINITY`
is not 0 and neither is every sum. -/
theorem replies_determined_iff {α : Type} [Number α] :
    (∀ tr (s : Server α), Run step Bakery.init tr s → ∀ argp,
      (Settled s argp → Bakery.Determined s argp) ∧
      ((Number.infinity : α) ≠ 0 → (∃ x y : α, x + y ≠ 0) →
        Bakery.Determined s argp → Settled s argp)) ∧
    ∀ argp : CALCULATOR α,
      (Known argp → Calculator.Determined argp) ∧
      ((∃ x y : α, x + y ≠ 0) → Calculator.Determined argp → Known argp) := by
  refine ⟨?_, ?_⟩
  · intro tr s h argp
    exact ⟨determined_of_settled, settled_of_determined h⟩
  · intro argp
    exact ⟨determined_of_known, known_of_determined⟩

def divZero : REQUEST (Option ℤ) := ⟨7, 0, 0, 3, some 2, some 0⟩

def addBefore : List (Request (Option ℤ)) := [.bakeryService (request 0 0)]

theorem replies_determined_iff_divZero :
    Bakery.Determined Bakery.init (request 0 0) ∧ ¬ Bakery.Determined Bakery.init divZero := by
  refine ⟨?_, ?_⟩
  · apply (replies_determined_iff.1 [] Bakery.init .nil (request 0 0)).1
    intro _ _ _
    exact .inl rfl
  · intro h
    have hs := (replies_determined_iff.1 [] Bakery.init .nil divZero).2 (by decide)
      ⟨some 2, some 3, by decide⟩ h
    have hassigns := hs 0 rfl (show turnedAway _ _ = _ by decide +kernel)
    exact absurd hassigns (by unfold Assigns; decide)

/-- A division by zero gets 0 from a fresh server and 5 after the addition; an unknown
operation of the calculator likewise. -/
theorem replies_determined_fails :
    (¬ ∀ tr (s : Server (Option ℤ)), Run step Bakery.init tr s →
      ∀ argp, Bakery.Determined s argp) ∧
    ¬ ∀ argp : CALCULATOR (Option ℤ), Calculator.Determined argp := by
  refine ⟨?_, ?_⟩
  · intro h
    have hr : Run step Bakery.init _ _ := run_of_isSome Bakery.init addBefore (by decide +kernel)
    have he := h [] Bakery.init .nil divZero _ _ hr
      ⟨by funext i; revert i; decide +kernel, by funext i; revert i; decide +kernel, rfl⟩
    exact absurd he (by decide +kernel)
  · intro h
    have he := h ⟨4, some 2, some 3, some 0⟩ [] [⟨0, some 2, some 3, some 0⟩]
    exact absurd he (by decide)

end OsLabs
