import OsLabs.Lib.Run
import OsLabs.Lib.Serve

/-! A system in which each request takes effect at one of the steps taken for it, its point:
when it answers as if it took the requests one after the other, in the order of their points. -/

namespace OsLabs

variable {σ ε τ ι ο : Type*}

def after (g : τ → ι → τ × ο) (t : τ) (is : List ι) : τ := is.foldl (fun t i => (g t i).1) t

theorem after_snoc (g : τ → ι → τ × ο) (t : τ) (is : List ι) (i : ι) :
    after g t (is ++ [i]) = (g (after g t is) i).1 := List.foldl_concat ..

theorem answers_snoc (g : τ → ι → τ × ο) (t : τ) (is : List ι) (i : ι) :
    answers g t (is ++ [i]) = answers g t is ++ [(g (after g t is) i).2] := by
  induction is generalizing t with
  | nil => rfl
  | cons j is ih =>
    rw [List.cons_append, answers, ih]
    rfl

/-- The requests in the order of their points, with what was decided there. -/
def effects (point : σ → ε → Option (ι × ο)) (tr : List (σ × ε)) : List (ι × ο) :=
  tr.filterMap fun p => point p.1 p.2

theorem effects_append (point : σ → ε → Option (ι × ο)) (tr tr' : List (σ × ε)) :
    effects point (tr ++ tr') = effects point tr ++ effects point tr' :=
  List.filterMap_append ..

theorem effects_snoc (point : σ → ε → Option (ι × ο)) (tr : List (σ × ε)) (s : σ) (e : ε) :
    effects point (tr ++ [(s, e)]) = effects point tr ++ (point s e).toList := by
  rw [effects_append]
  cases h : point s e <;> simp [effects, h]

/-- `f` is the state the requests see. A step that is no point leaves it and meets `C`; at a
point the answer is the one due in this state just when `C` is met. -/
theorem Run.one_after_another {step : σ → ε → Option σ} (point : σ → ε → Option (ι × ο))
    (g : τ → ι → τ × ο) (f : σ → τ) {I : σ → Prop} {C : σ → ε → Prop} {s₀ s : σ}
    {tr : List (σ × ε)} (h0 : I s₀) (hstep : ∀ s e s', I s → step s e = some s' → I s')
    (hquiet : ∀ s e s', I s → step s e = some s' → point s e = none → f s' = f s ∧ C s e)
    (hpoint : ∀ s e s' i o, I s → step s e = some s' → point s e = some (i, o) →
      f s' = (g (f s) i).1 ∧ ((g (f s) i).2 = o ↔ C s e))
    (h : Run step s₀ tr s) :
    f s = after g (f s₀) ((effects point tr).map Prod.fst) ∧
      (answers g (f s₀) ((effects point tr).map Prod.fst) = (effects point tr).map Prod.snd ↔
        EachStep C tr) := by
  induction h with
  | nil => exact ⟨rfl, iff_of_true rfl eachStep_nil⟩
  | @snoc tr s e s' hr he ih =>
    have hI := hr.invariant h0 hstep
    obtain ⟨hstate, hanswers⟩ := ih
    rw [effects_snoc, eachStep_snoc]
    cases hp : point s e with
    | none =>
      obtain ⟨hsame, hc⟩ := hquiet s e s' hI he hp
      rw [Option.toList_none, List.append_nil, hsame, hanswers, and_iff_left hc]
      exact ⟨hstate, Iff.rfl⟩
    | some p =>
      obtain ⟨i, o⟩ := p
      obtain ⟨hnext, hc⟩ := hpoint s e s' i o hI he hp
      rw [Option.toList_some, List.map_append, List.map_append, List.map_singleton,
        List.map_singleton, after_snoc, answers_snoc, ← hstate]
      refine ⟨hnext, ?_⟩
      rw [← hanswers, ← hc]
      constructor
      · intro heq
        obtain ⟨hinit, hlast⟩ := List.append_inj' heq rfl
        exact ⟨hinit, List.singleton_inj.1 hlast⟩
      · intro hboth
        rw [hboth.1, hboth.2]

end OsLabs
