import Mathlib.Data.List.Basic

/-! Working off a stack of items, each of which may put new items on top of the
stack. `act s a s' new` says that the item `a`, taken in the state `s`, leads to
`s'` and puts `new` on the stack. -/

namespace OsLabs

variable {σ α β : Type*} {act : σ → α → σ → List α → Prop}

/-- Working off `as`, and all that they put on the stack, leads from `s` to `s'`. -/
inductive WorksOff (act : σ → α → σ → List α → Prop) : List α → σ → σ → Prop
  | nil {s} : WorksOff act [] s s
  | cons {a as new s s₁ s₂} : act s a s₁ new → WorksOff act (new ++ as) s₁ s₂ →
      WorksOff act (a :: as) s s₂

namespace WorksOff

variable {s s₁ s₂ : σ} {as bs : List α}

/-- What lies deeper in the stack waits. -/
theorem append (h : WorksOff act as s s₁) (h' : WorksOff act bs s₁ s₂) :
    WorksOff act (as ++ bs) s s₂ := by
  induction h with
  | nil => exact h'
  | cons ha _ ih =>
    rw [List.cons_append]
    refine .cons ha ?_
    rw [← List.append_assoc]
    exact ih h'

theorem single {a : α} (h : act s a s₁ []) : WorksOff act [a] s s₁ := .cons h .nil

/-- Items that one by one do what `f` says, under an invariant that `f` keeps, do
together what folding `f` over them says. -/
theorem fold (item : β → α) (f : σ → β → σ) {I : σ → Prop} {l : List β}
    (hitem : ∀ b ∈ l, ∀ s, I s → WorksOff act [item b] s (f s b) ∧ I (f s b)) (hs : I s) :
    WorksOff act (l.map item) s (l.foldl f s) ∧ I (l.foldl f s) := by
  induction l generalizing s with
  | nil => exact ⟨.nil, hs⟩
  | cons b l ih =>
    obtain ⟨hb, hIb⟩ := hitem b List.mem_cons_self s hs
    obtain ⟨hl, hIl⟩ := ih (fun b hb => hitem b (List.mem_cons_of_mem _ hb)) hIb
    exact ⟨hb.append hl, hIl⟩

end WorksOff

/-- Working off `as` from `s` comes to an item that cannot be taken, for which `bad` stands. -/
inductive Stops (act : σ → α → σ → List α → Prop) (bad : σ → α → Prop) : List α → σ → Prop
  | here {a as s} : bad s a → Stops act bad (a :: as) s
  | later {a as new s s₁} : act s a s₁ new → Stops act bad (new ++ as) s₁ →
      Stops act bad (a :: as) s

namespace Stops

variable {bad : σ → α → Prop} {s s₁ : σ} {as bs : List α}

theorem append (h : Stops act bad as s) : Stops act bad (as ++ bs) s := by
  induction h with
  | here hbad => exact .here hbad
  | later ha _ ih =>
    rw [List.append_assoc] at ih
    exact .later ha ih

theorem after (h : WorksOff act as s s₁) (h' : Stops act bad bs s₁) :
    Stops act bad (as ++ bs) s := by
  induction h with
  | nil => exact h'
  | cons ha _ ih =>
    have hrest := ih h'
    rw [List.append_assoc] at hrest
    exact .later ha hrest

/-- Of several items the first that is no good stops. -/
theorem fold (item : β → α) (f : σ → β → σ) {I : σ → Prop} {good : β → Prop} {l : List β}
    (hgood : ∀ b ∈ l, good b → ∀ s, I s → WorksOff act [item b] s (f s b) ∧ I (f s b))
    (hbad : ∀ b ∈ l, ¬ good b → ∀ s, I s → Stops act bad [item b] s) (hs : I s)
    (h : ¬ ∀ b ∈ l, good b) : Stops act bad (l.map item) s := by
  induction l generalizing s with
  | nil => exact absurd nofun h
  | cons b l ih =>
    by_cases hb : good b
    · obtain ⟨hworks, hI⟩ := hgood b List.mem_cons_self hb s hs
      refine after hworks (ih (fun b hb => hgood b (List.mem_cons_of_mem _ hb))
        (fun b hb => hbad b (List.mem_cons_of_mem _ hb)) hI ?_)
      intro hall
      exact h (List.forall_mem_cons.2 ⟨hb, hall⟩)
    · exact append (hbad b List.mem_cons_self hb s hs)

end Stops

end OsLabs
