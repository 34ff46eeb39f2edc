import Mathlib.Data.List.Induction
import OsLabs.Lib.Run

/-! Keys that are pressed and released, several of them tracked by one flag that takes
over the state of whichever of them changed last. -/

namespace OsLabs.Held

variable {ε κ : Type*} [DecidableEq κ] (key : ε → κ) (down : ε → Bool)

def held (es : List ε) (k : κ) : Bool := (es.filter (key · = k)).getLast?.any down

/-- The flag, which events of other keys leave alone. -/
def flag (keys : List κ) (es : List ε) : Bool :=
  es.foldl (fun b e => if key e ∈ keys then down e else b) false

/-- The last event of these keys, if it is a release, comes when the others are up. -/
def ReleasedAlone (keys : List κ) (es : List ε) : Prop :=
  ∀ before e after, es = before ++ e :: after → key e ∈ keys → (∀ a ∈ after, key a ∉ keys) →
    down e = false → ∀ k ∈ keys, k ≠ key e → held key down before k = false

variable {key down}

@[simp] theorem held_snoc (es : List ε) (e : ε) (k : κ) :
    held key down (es ++ [e]) k = if key e = k then down e else held key down es k := by
  by_cases h : key e = k <;> simp [held, h]

@[simp] theorem flag_snoc (keys : List κ) (es : List ε) (e : ε) :
    flag key down keys (es ++ [e]) = if key e ∈ keys then down e else flag key down keys es := by
  simp [flag]

/-- An event of another key changes nothing that is held. -/
theorem any_held_other {keys : List κ} (es : List ε) {e : ε} (h : key e ∉ keys) :
    keys.any (held key down (es ++ [e])) = keys.any (held key down es) := by
  rw [Bool.eq_iff_iff, List.any_eq_true, List.any_eq_true]
  refine exists_congr fun k => and_congr_right ?_
  intro hk
  have hne : key e ≠ k := by
    rintro rfl
    exact h hk
  rw [held_snoc, if_neg hne]

theorem releasedAlone_other {keys : List κ} (es : List ε) {e : ε} (h : key e ∉ keys) :
    ReleasedAlone key down keys (es ++ [e]) ↔ ReleasedAlone key down keys es := by
  refine ⟨?_, ?_⟩
  · intro hall before e' after hes he' hafter
    refine hall before e' (after ++ [e]) (by simp [hes]) he' ?_
    intro a ha
    rcases List.mem_append.1 ha with ha | ha
    · exact hafter a ha
    · rw [List.mem_singleton.1 ha]
      exact h
  · intro hall before e' after hes he' hafter
    obtain ⟨-, rfl, -⟩ | ⟨rest, hinit, rfl⟩ := snoc_eq_split.1 hes
    · -- the last event would be one of the keys
      exact absurd he' h
    · exact hall before e' rest hinit he' fun a ha => hafter a (by simp [ha])

/-- After an event of one of the keys only this last event counts. -/
theorem releasedAlone_own {keys : List κ} (es : List ε) {e : ε} (h : key e ∈ keys) :
    ReleasedAlone key down keys (es ++ [e]) ↔
      (down e = false → ∀ k ∈ keys, k ≠ key e → held key down es k = false) := by
  refine ⟨?_, ?_⟩
  · intro hall
    exact hall es e [] rfl h (by simp)
  · intro hlast before e' after hes he' hafter
    obtain ⟨rfl, rfl, -⟩ | ⟨rest, -, rfl⟩ := snoc_eq_split.1 hes
    · exact hlast
    · exact absurd h (hafter e (by simp))

/-- The flag says whether one of its keys is held unless the last of their events was
the release of one while another stayed down. -/
theorem flag_iff (keys : List κ) (es : List ε) :
    flag key down keys es = keys.any (held key down es) ↔ ReleasedAlone key down keys es := by
  induction es using List.reverseRecOn with
  | nil => simp [flag, held, ReleasedAlone]
  | append_singleton es e ih =>
    by_cases h : key e ∈ keys
    · rw [releasedAlone_own es h, flag_snoc, if_pos h]
      cases hd : down e with
      | true =>
        have hheld : keys.any (held key down (es ++ [e])) = true :=
          List.any_eq_true.2 ⟨key e, h, by simp [hd]⟩
        simp [hheld]
      | false =>
        rw [eq_comm, List.any_eq_false]
        refine ⟨?_, ?_⟩
        · intro hall _ k hk hne
          simpa [hne.symm] using hall k hk
        · intro hall k hk
          by_cases hke : key e = k
          · simp [hke, hd]
          · simp [hke, hall rfl k hk (Ne.symm hke)]
    · rw [releasedAlone_other es h, flag_snoc, if_neg h, any_held_other es h]
      exact ih

end OsLabs.Held
