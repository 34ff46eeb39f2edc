import Mathlib.Data.List.Basic

/-! A component that answers requests one after the other, each answer depending
on its state, and the simulation rule for two such components. -/

namespace OsLabs

variable {σ τ ι κ ο φ : Type*}

/-- The final state and the answers to `is`, or the first fault. -/
def serve (f : σ → ι → Except φ (σ × ο)) : σ → List ι → Except φ (σ × List ο)
  | s, [] => .ok (s, [])
  | s, i :: is => do
    let (s, o) ← f s i
    let (s, os) ← serve f s is
    return (s, o :: os)

def answers (g : τ → ι → τ × ο) : τ → List ι → List ο
  | _, [] => []
  | t, i :: is => (g t i).2 :: answers g (g t i).1 is

/-- The simulation rule, `k` turning the requests of the one component into those
of the other. `R s t is` relates the states while the requests `is` are still to
come, so that it can bound what these may add up to. -/
theorem serve_sim {f : σ → κ → Except φ (σ × ο)} {g : τ → ι → τ × ο} {k : ι → κ}
    {R : σ → τ → List ι → Prop}
    (hstep : ∀ s t i is, R s t (i :: is) →
      ∃ s', f s (k i) = .ok (s', (g t i).2) ∧ R s' (g t i).1 is)
    {s : σ} {t : τ} {is : List ι} (h : R s t is) :
    ∃ s', serve f s (is.map k) = .ok (s', answers g t is) := by
  induction is generalizing s t with
  | nil => exact ⟨s, rfl⟩
  | cons i is ih =>
    obtain ⟨s₁, hf, hR⟩ := hstep s t i is h
    obtain ⟨s₂, hs⟩ := ih hR
    refine ⟨s₂, ?_⟩
    simp only [List.map_cons, serve, hf, hs, answers, bind, Except.bind, pure, Except.pure]

/-- Every request meets `C` in the state it finds. -/
def EachRequest (f : σ → ι → Except φ (σ × ο)) (C : σ → ι → Prop) : σ → List ι → Prop
  | _, [] => True
  | s, i :: is => C s i ∧ ∀ s' o, f s i = .ok (s', o) → EachRequest f C s' is

variable {f : σ → ι → Except φ (σ × ο)}

theorem serve_cons_ok {s t : σ} {i : ι} {is : List ι} {os : List ο} :
    serve f s (i :: is) = .ok (t, os) ↔
      ∃ s' o os', f s i = .ok (s', o) ∧ serve f s' is = .ok (t, os') ∧ os = o :: os' := by
  simp only [serve, bind, Except.bind, pure, Except.pure]
  rcases f s i with e | ⟨s', o⟩
  · simp
  · rcases hs : serve f s' is with e | ⟨t', os'⟩ <;> simp [hs, eq_comm]

theorem map_eq_ok {α β : Type*} {x : Except φ α} {g : α → β} {b : β} :
    x.map g = .ok b ↔ ∃ a, x = .ok a ∧ g a = b := by
  cases x <;> simp [Except.map]

theorem map_isOk {α β γ : Type*} {x : Except φ α} {g : α → β × γ} :
    (∃ b c, x.map g = .ok (b, c)) ↔ ∃ a, x = .ok a := by
  constructor
  · rintro ⟨b, c, h⟩
    obtain ⟨a, ha, -⟩ := map_eq_ok.1 h
    exact ⟨a, ha⟩
  · rintro ⟨a, rfl⟩
    exact ⟨_, _, rfl⟩

theorem serve_snoc {s t t' : σ} {is : List ι} {os : List ο} {i : ι} {o : ο}
    (h : serve f s is = .ok (t, os)) (hi : f t i = .ok (t', o)) :
    serve f s (is ++ [i]) = .ok (t', os ++ [o]) := by
  induction is generalizing s os with
  | nil =>
    obtain ⟨rfl, rfl⟩ : s = t ∧ [] = os := by simpa [serve] using h
    exact serve_cons_ok.2 ⟨t', o, [], hi, rfl, rfl⟩
  | cons j is ih =>
    obtain ⟨s', o', os', hj, hs, rfl⟩ := serve_cons_ok.1 h
    exact serve_cons_ok.2 ⟨s', o', os' ++ [o], hj, ih hs, rfl⟩

theorem serve_invariant {I : σ → Prop} (hstep : ∀ s i s' o, I s → f s i = .ok (s', o) → I s')
    {s t : σ} {is : List ι} {os : List ο} (h0 : I s) (h : serve f s is = .ok (t, os)) : I t := by
  induction is generalizing s os with
  | nil =>
    obtain ⟨rfl, -⟩ : s = t ∧ [] = os := by simpa [serve] using h
    exact h0
  | cons i is ih =>
    obtain ⟨s', o, os', hi, hs, -⟩ := serve_cons_ok.1 h
    exact ih (hstep s i s' o h0 hi) hs

/-- When exactly all requests are answered, if `C` says in every state of the invariant
when the next one is. -/
theorem serve_ok_iff {I : σ → Prop} {C : σ → ι → Prop}
    (hstep : ∀ s i s' o, I s → f s i = .ok (s', o) → I s')
    (hok : ∀ s i, I s → ((∃ s' o, f s i = .ok (s', o)) ↔ C s i)) {s : σ} (h0 : I s)
    (is : List ι) : (∃ t os, serve f s is = .ok (t, os)) ↔ EachRequest f C s is := by
  induction is generalizing s with
  | nil => exact ⟨fun _ => trivial, fun _ => ⟨s, [], rfl⟩⟩
  | cons i is ih =>
    constructor
    · rintro ⟨t, os, h⟩
      obtain ⟨s', o, os', hi, hs, -⟩ := serve_cons_ok.1 h
      refine ⟨(hok s i h0).1 ⟨s', o, hi⟩, ?_⟩
      intro s'' o' hi'
      obtain ⟨rfl, rfl⟩ : s' = s'' ∧ o = o' := by simpa [hi] using hi'
      exact (ih (hstep s i s' o h0 hi)).1 ⟨t, os', hs⟩
    · rintro ⟨hc, hrest⟩
      obtain ⟨s', o, hi⟩ := (hok s i h0).2 hc
      obtain ⟨t, os, hs⟩ := (ih (hstep s i s' o h0 hi)).2 (hrest s' o hi)
      exact ⟨t, o :: os, serve_cons_ok.2 ⟨s', o, os, hi, hs, rfl⟩⟩

theorem eachRequest_left {C : σ → ι → Prop} {s : σ} {is js : List ι}
    (h : EachRequest f C s (is ++ js)) : EachRequest f C s is := by
  induction is generalizing s with
  | nil => trivial
  | cons i is ih => exact ⟨h.1, fun s' o hi => ih (h.2 s' o hi)⟩

def replies (f : σ → ι → Except φ (σ × ο)) (s : σ) (is : List ι) : Except φ (List ο) :=
  (serve f s is).map Prod.snd

theorem replies_cons {s s' : σ} {i : ι} {o : ο} (h : f s i = .ok (s', o)) (is : List ι) :
    replies f s (i :: is) = (replies f s' is).map (o :: ·) := by
  simp only [replies, serve, h, bind, Except.bind]
  rcases serve f s' is with e | ⟨t, os⟩ <;> rfl

theorem replies_ne {s t s' t' : σ} {i : ι} {o o' : ο} (hs : f s i = .ok (s', o))
    (ht : f t i = .ok (t', o')) (hne : o ≠ o') : replies f s [i] ≠ replies f t [i] := by
  rw [replies_cons hs, replies_cons ht]
  intro h
  simp [replies, serve, Except.map] at h
  exact hne h

theorem replies_ne_cons {s t s' t' : σ} {i : ι} {o : ο} {is : List ι} (hs : f s i = .ok (s', o))
    (ht : f t i = .ok (t', o)) (hne : replies f s' is ≠ replies f t' is) :
    replies f s (i :: is) ≠ replies f t (i :: is) := by
  rw [replies_cons hs, replies_cons ht]
  intro h
  apply hne
  rcases hs' : replies f s' is with e | os <;> rcases ht' : replies f t' is with e' | os' <;>
    simp_all [Except.map]

/-- Two states that answer every request alike, and stay so related, cannot be told apart. -/
theorem replies_congr {R : σ → σ → Prop}
    (hstep : ∀ s t i, R s t → (∃ e, f s i = .error e ∧ f t i = .error e) ∨
      ∃ s' t' o, f s i = .ok (s', o) ∧ f t i = .ok (t', o) ∧ R s' t')
    {s t : σ} (h : R s t) (is : List ι) : replies f s is = replies f t is := by
  induction is generalizing s t with
  | nil => rfl
  | cons i is ih =>
    simp only [replies, serve, bind, Except.bind]
    obtain ⟨e, hs, ht⟩ | ⟨s', t', o, hs, ht, hR⟩ := hstep s t i h
    · rw [hs, ht]
    · have hrest := ih hR
      simp only [replies] at hrest
      rw [hs, ht]
      rcases h₁ : serve f s' is with e | ⟨u, os⟩ <;>
        rcases h₂ : serve f t' is with e' | ⟨u', os'⟩ <;>
        simp_all [Except.map, pure, Except.pure]

end OsLabs
