import Mathlib.Data.List.Basic

/-! Runs of a labelled system with a partial step function. A run carries its
trace, the states it left with the event taken there, so that a property can be
asked of every state visited and of every step taken. -/

namespace OsLabs

variable {σ ε : Type*}

/-- `Run step s₀ tr s`: from `s₀` the steps of `tr`, in order, lead to `s`. -/
inductive Run (step : σ → ε → Option σ) (s₀ : σ) : List (σ × ε) → σ → Prop
  | nil : Run step s₀ [] s₀
  | snoc {tr s e s'} : Run step s₀ tr s → step s e = some s' → Run step s₀ (tr ++ [(s, e)]) s'

/-- Every state visited, the last one included, satisfies `P`. -/
def Always (P : σ → Prop) (tr : List (σ × ε)) (s : σ) : Prop := (∀ p ∈ tr, P p.1) ∧ P s

/-- Every step taken satisfies `C`, which may look at the state before it. -/
def EachStep (C : σ → ε → Prop) (tr : List (σ × ε)) : Prop := ∀ p ∈ tr, C p.1 p.2

theorem always_nil {P : σ → Prop} {s : σ} : Always P ([] : List (σ × ε)) s ↔ P s := by
  simp [Always]

theorem always_snoc {P : σ → Prop} {tr : List (σ × ε)} {s s' : σ} {e : ε} :
    Always P (tr ++ [(s, e)]) s' ↔ Always P tr s ∧ P s' := by
  simp only [Always, List.mem_append, List.mem_singleton]
  refine ⟨?_, ?_⟩
  · intro hall
    obtain ⟨h, hs'⟩ := hall
    exact ⟨⟨fun p hp => h p (.inl hp), h (s, e) (.inr rfl)⟩, hs'⟩
  · rintro ⟨⟨h, hs⟩, hs'⟩
    refine ⟨fun p hp => ?_, hs'⟩
    rcases hp with hp | rfl
    · exact h p hp
    · exact hs

theorem Always.append {P : σ → Prop} {tr tr' : List (σ × ε)} {s t : σ} (h : Always P tr s)
    (h' : Always P tr' t) : Always P (tr ++ tr') t := by
  refine ⟨?_, h'.2⟩
  intro p hp
  rcases List.mem_append.1 hp with hp | hp
  · exact h.1 p hp
  · exact h'.1 p hp

theorem Always.imp {P Q : σ → Prop} {tr : List (σ × ε)} {s : σ} (h : ∀ s, P s → Q s)
    (hp : Always P tr s) : Always Q tr s := by
  refine ⟨?_, h s hp.2⟩
  intro p hmem
  exact h p.1 (hp.1 p hmem)

theorem Always.congr {P Q : σ → Prop} {tr : List (σ × ε)} {s : σ}
    (h : Always (fun s => P s ↔ Q s) tr s) : Always P tr s ↔ Always Q tr s := by
  refine and_congr ?_ h.2
  exact forall₂_congr h.1

theorem eachStep_nil {C : σ → ε → Prop} : EachStep C [] := by simp [EachStep]

theorem eachStep_snoc {C : σ → ε → Prop} {tr : List (σ × ε)} {s : σ} {e : ε} :
    EachStep C (tr ++ [(s, e)]) ↔ EachStep C tr ∧ C s e := by
  simp only [EachStep, List.mem_append, List.mem_singleton]
  refine ⟨?_, ?_⟩
  · intro h
    exact ⟨fun p hp => h p (.inl hp), h (s, e) (.inr rfl)⟩
  · rintro ⟨h, hc⟩ p (hp | rfl)
    · exact h p hp
    · exact hc

theorem snoc_eq_split {α : Type*} {l before after : List α} {a x : α} :
    l ++ [a] = before ++ x :: after ↔
      (l = before ∧ a = x ∧ after = []) ∨ ∃ rest, l = before ++ x :: rest ∧ after = rest ++ [a] := by
  refine ⟨?_, ?_⟩
  · intro h
    rcases after.eq_nil_or_concat with rfl | ⟨rest, z, rfl⟩
    · obtain ⟨hl, ha⟩ := List.append_inj' h rfl
      exact .inl ⟨hl, List.singleton_inj.1 ha, rfl⟩
    · rw [List.concat_eq_append, ← List.cons_append, ← List.append_assoc] at h
      obtain ⟨hl, ha⟩ := List.append_inj' h rfl
      rw [List.concat_eq_append, List.singleton_inj.1 ha]
      exact .inr ⟨rest, hl, rfl⟩
  · rintro (⟨rfl, rfl, rfl⟩ | ⟨rest, rfl, rfl⟩)
    · rfl
    · rw [List.append_assoc, List.cons_append]

theorem forall_split_snoc {α : Type*} {P : List α → α → Prop} {l : List α} {a : α} :
    (∀ xs x ys, l ++ [a] = xs ++ x :: ys → P xs x) ↔
      (∀ xs x ys, l = xs ++ x :: ys → P xs x) ∧ P l a := by
  refine ⟨?_, ?_⟩
  · intro h
    refine ⟨?_, h l a [] rfl⟩
    intro xs x ys hl
    exact h xs x (ys ++ [a]) (by rw [hl, List.append_assoc, List.cons_append])
  · intro h xs x ys hl
    obtain ⟨hinit, hlast⟩ := h
    obtain ⟨rfl, rfl, -⟩ | ⟨zs, hl, -⟩ := snoc_eq_split.1 hl
    · exact hlast
    · exact hinit xs x zs hl

namespace Run

variable {step : σ → ε → Option σ} {s₀ s : σ} {tr : List (σ × ε)}

theorem append {tr' : List (σ × ε)} {t : σ} (h : Run step s₀ tr s) (h' : Run step s tr' t) :
    Run step s₀ (tr ++ tr') t := by
  induction h' with
  | nil =>
    rw [List.append_nil]
    exact h
  | snoc _ he ih =>
    rw [← List.append_assoc]
    exact ih.snoc he

/-- The invariant rule: what holds at the start and is kept by every step holds
of every state visited. -/
theorem always {I : σ → Prop} (h0 : I s₀)
    (hstep : ∀ s e s', I s → step s e = some s' → I s') (h : Run step s₀ tr s) :
    Always I tr s := by
  induction h with
  | nil => exact always_nil.2 h0
  | snoc _ he ih => exact always_snoc.2 ⟨ih, hstep _ _ _ ih.2 he⟩

theorem invariant {I : σ → Prop} (h0 : I s₀)
    (hstep : ∀ s e s', I s → step s e = some s' → I s') (h : Run step s₀ tr s) : I s :=
  (h.always h0 hstep).2

/-- The invariant rule under a condition on the steps: `I` need only be kept by
the steps that meet `C`, and then holds throughout a run all of whose steps do. -/
theorem always_of_eachStep {I : σ → Prop} {C : σ → ε → Prop} (h0 : I s₀)
    (hstep : ∀ s e s', I s → C s e → step s e = some s' → I s')
    (h : Run step s₀ tr s) (hc : EachStep C tr) : Always I tr s := by
  induction h with
  | nil => exact always_nil.2 h0
  | snoc _ he ih =>
    obtain ⟨hc, hce⟩ := eachStep_snoc.1 hc
    have hI := ih hc
    exact always_snoc.2 ⟨hI, hstep _ _ _ hI.2 hce he⟩

/-- When exactly a run is good. `I` is the invariant of the good runs: a step
meeting `C` keeps it and is itself good, a step violating `C` is bad or leads to
a bad state. Then the good runs are those all of whose steps meet `C`. -/
theorem good_iff {I P : σ → Prop} {C Q : σ → ε → Prop} (h0 : I s₀) (hP : ∀ s, I s → P s)
    (hgood : ∀ s e s', I s → C s e → step s e = some s' → Q s e ∧ I s')
    (hbad : ∀ s e s', I s → ¬ C s e → step s e = some s' → ¬ (Q s e ∧ P s'))
    (h : Run step s₀ tr s) : EachStep Q tr ∧ Always P tr s ↔ EachStep C tr := by
  refine ⟨?_, ?_⟩
  · intro hgs
    induction h with
    | nil => exact eachStep_nil
    | snoc hr he ih =>
      obtain ⟨hq, hp⟩ := hgs
      obtain ⟨hq, hqe⟩ := eachStep_snoc.1 hq
      obtain ⟨hp, hps⟩ := always_snoc.1 hp
      have hc := ih ⟨hq, hp⟩
      -- the steps before the last one met `C`, so the invariant holds where it starts
      have hI := (hr.always_of_eachStep h0 (fun s e s' hi hc he => (hgood s e s' hi hc he).2) hc).2
      refine eachStep_snoc.2 ⟨hc, ?_⟩
      by_contra hn
      exact hbad _ _ _ hI hn he ⟨hqe, hps⟩
  · intro hc
    induction h with
    | nil => exact ⟨eachStep_nil, always_nil.2 (hP _ h0)⟩
    | snoc hr he ih =>
      obtain ⟨hc', hce⟩ := eachStep_snoc.1 hc
      obtain ⟨hq, hp⟩ := ih hc'
      have hI := (hr.always_of_eachStep h0 (fun s e s' hi hc he => (hgood s e s' hi hc he).2) hc').2
      obtain ⟨hqe, hI'⟩ := hgood _ _ _ hI hce he
      exact ⟨eachStep_snoc.2 ⟨hq, hqe⟩, always_snoc.2 ⟨hp, hP _ hI'⟩⟩

/-- What every step keeps holds from the first state that has it on. -/
theorem stays {P : σ → Prop} (hstep : ∀ s e s', P s → step s e = some s' → P s')
    (h : Run step s₀ tr s) {before after : List (σ × ε)} {t : σ} {e : ε}
    (hsplit : tr = before ++ (t, e) :: after) (ht : P t) : Always P after s := by
  induction h generalizing after with
  | nil => simp at hsplit
  | @snoc tr s e' s' hr he ih =>
    obtain ⟨-, heq, rfl⟩ | ⟨rest, hinit, rfl⟩ := snoc_eq_split.1 hsplit
    · obtain ⟨rfl, rfl⟩ := Prod.mk.inj heq
      exact always_nil.2 (hstep s e' s' ht he)
    · have hafter := ih hinit
      exact always_snoc.2 ⟨hafter, hstep s e' s' hafter.2 he⟩

/-- `good_iff` where only the states visited matter. -/
theorem always_iff {I P : σ → Prop} {C : σ → ε → Prop} (h0 : I s₀) (hP : ∀ s, I s → P s)
    (hgood : ∀ s e s', I s → C s e → step s e = some s' → I s')
    (hbad : ∀ s e s', I s → ¬ C s e → step s e = some s' → ¬ P s')
    (h : Run step s₀ tr s) : Always P tr s ↔ EachStep C tr := by
  have := good_iff (Q := fun _ _ => True) h0 hP
    (fun s e s' hi hc he => ⟨trivial, hgood s e s' hi hc he⟩)
    (fun s e s' hi hc he hq => hbad s e s' hi hc he hq.2) h
  rw [← this]
  exact ⟨fun hp => ⟨fun _ _ => trivial, hp⟩, And.right⟩

/-- The simulation rule. `f` takes the states of one system to those of another, in which
a step of the first is any number of steps. What these keep holds throughout the run that
simulates, if it follows from what holds throughout the first. -/
theorem simulates {σ' ε' : Type*} {step' : σ' → ε' → Option σ'} {P : σ → Prop} {Q : σ' → Prop}
    (f : σ → σ') (hQ : ∀ s, P s → Q (f s))
    (hstep : ∀ s e s', step s e = some s' →
      ∃ tr, Run step' (f s) tr (f s') ∧ ∀ p ∈ tr, Q (f s) → Q p.1)
    (h : Run step s₀ tr s) :
    ∃ tr', Run step' (f s₀) tr' (f s) ∧ (Always P tr s → Always Q tr' (f s)) := by
  induction h with
  | nil => exact ⟨[], .nil, fun hp => always_nil.2 (hQ _ (always_nil.1 hp))⟩
  | snoc _ he ih =>
    obtain ⟨tr', hrun, hkept⟩ := ih
    obtain ⟨new, hnew, hsame⟩ := hstep _ _ _ he
    refine ⟨tr' ++ new, hrun.append hnew, ?_⟩
    intro hp
    obtain ⟨hp, hlast⟩ := always_snoc.1 hp
    have hbefore := hkept hp
    exact hbefore.append ⟨fun p hmem => hsame p hmem hbefore.2, hQ _ hlast⟩

/-- Where every step lowers a measure, a run is no longer than the measure it starts with. -/
theorem length_le {μ : σ → ℕ} (hlow : ∀ s e s', step s e = some s' → μ s' < μ s)
    (h : Run step s₀ tr s) : tr.length + μ s ≤ μ s₀ := by
  induction h with
  | nil => simp
  | snoc _ he ih =>
    have hlt := hlow _ _ _ he
    rw [List.length_append, List.length_singleton]
    omega

end Run

/-- The same system with nothing but steps that meet `A`. -/
def restrict (A : σ → ε → Prop) [∀ s e, Decidable (A s e)] (step : σ → ε → Option σ) (s : σ)
    (e : ε) : Option σ :=
  if A s e then step s e else none

theorem restrict_eq_some {A : σ → ε → Prop} [∀ s e, Decidable (A s e)]
    {step : σ → ε → Option σ} {s s' : σ} {e : ε} :
    restrict A step s e = some s' ↔ A s e ∧ step s e = some s' := by
  unfold restrict
  split_ifs with h <;> simp [h]

theorem Run.restrict {A : σ → ε → Prop} [∀ s e, Decidable (A s e)] {step : σ → ε → Option σ}
    {s₀ s : σ} {tr : List (σ × ε)} (h : Run step s₀ tr s) (ha : EachStep A tr) :
    Run (OsLabs.restrict A step) s₀ tr s := by
  induction h with
  | nil => exact .nil
  | snoc _ he ih =>
    obtain ⟨ha, hae⟩ := eachStep_snoc.1 ha
    exact (ih ha).snoc (restrict_eq_some.2 ⟨hae, he⟩)

instance {C : σ → ε → Prop} [∀ s e, Decidable (C s e)] (tr : List (σ × ε)) :
    Decidable (EachStep C tr) :=
  inferInstanceAs (Decidable (∀ p ∈ tr, C p.1 p.2))

/-- A call that may fail, as a step: it is taken exactly when the call comes back. -/
theorem toOption_eq_some {α : Type*} {x : Except ε α} {a : α} :
    x.toOption = some a ↔ x = .ok a := by
  cases x <;> simp [Except.toOption]

/-- The state reached by a list of events, when each of them is enabled in turn. -/
def exec (step : σ → ε → Option σ) : σ → List ε → Option σ
  | s, [] => some s
  | s, e :: es => (step s e).bind fun s' => exec step s' es

/-- The trace of the same execution, up to the first event that is not enabled. -/
def trace (step : σ → ε → Option σ) : σ → List ε → List (σ × ε)
  | _, [] => []
  | s, e :: es => (s, e) :: ((step s e).map fun s' => trace step s' es).getD []

theorem eachStep_trace_cons {step : σ → ε → Option σ} {C : σ → ε → Prop} {s : σ} {e : ε}
    {es : List ε} : EachStep C (trace step s (e :: es)) ↔
      C s e ∧ ∀ s', step s e = some s' → EachStep C (trace step s' es) := by
  cases h : step s e <;> simp [trace, EachStep, h]

theorem eachStep_trace {step : σ → ε → Option σ} {C : ε → Prop} {es : List ε} (s : σ)
    (h : ∀ e ∈ es, C e) : EachStep (fun _ e => C e) (trace step s es) := by
  induction es generalizing s with
  | nil => exact eachStep_nil
  | cons e es ih =>
    rw [eachStep_trace_cons]
    refine ⟨h e List.mem_cons_self, ?_⟩
    intro s' _
    apply ih
    intro e' he'
    exact h e' (List.mem_cons_of_mem e he')

theorem Run.cons {step : σ → ε → Option σ} {s s' t : σ} {e : ε} {tr : List (σ × ε)}
    (he : step s e = some s') (h : Run step s' tr t) : Run step s ((s, e) :: tr) t := by
  induction h with
  | nil => exact Run.snoc (.nil : Run step s [] s) he
  | snoc _ he' ih => exact Run.snoc ih he'

theorem run_of_exec {step : σ → ε → Option σ} {es : List ε} {s t : σ}
    (h : exec step s es = some t) : Run step s (trace step s es) t := by
  induction es generalizing s with
  | nil =>
    obtain rfl : s = t := by simpa [exec] using h
    exact .nil
  | cons e es ih =>
    obtain ⟨s', he, h'⟩ := Option.bind_eq_some_iff.1 h
    simpa [trace, he] using Run.cons he (ih h')

/-- A schedule that runs through gives a run; `decide` checks the premise on a
concrete system. -/
theorem run_of_isSome {step : σ → ε → Option σ} (s : σ) (es : List ε)
    (h : (exec step s es).isSome) : Run step s (trace step s es) ((exec step s es).get h) :=
  run_of_exec (Option.some_get h).symm

end OsLabs
