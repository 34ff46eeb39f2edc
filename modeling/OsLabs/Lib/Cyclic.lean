import Mathlib.Data.List.Basic

/-! A list that is read round and round while it grows at its end. -/

namespace OsLabs

/-- `before` has been read since the last time round, `after` is yet to be read. -/
structure Cyclic (α : Type*) where
  before : List α
  after : List α

namespace Cyclic

variable {α : Type*}

def empty : Cyclic α := ⟨[], []⟩

def items (c : Cyclic α) : List α := c.before ++ c.after

def add (c : Cyclic α) (a : α) : Cyclic α := { c with after := c.after ++ [a] }

/-- The next element. Past the last one it is the first again. -/
def next (c : Cyclic α) : Option (α × Cyclic α) :=
  match c.after, c.before with
  | a :: as, before => some (a, ⟨before ++ [a], as⟩)
  | [], b :: bs => some (b, ⟨[b], bs⟩)
  | [], [] => none

theorem items_add (c : Cyclic α) (a : α) : (c.add a).items = c.items ++ [a] := by
  simp [items, add]

theorem next_eq_none {c : Cyclic α} : c.next = none ↔ c.items = [] := by
  obtain ⟨before, after⟩ := c
  cases after <;> cases before <;> simp [next, items]

theorem next_eq_some {c c' : Cyclic α} {a : α} (h : c.next = some (a, c')) :
    c'.items = c.items ∧ ∃ rest, c'.before = rest ++ [a] ∧
      (rest = c.before ∨ rest = [] ∧ c.after = []) := by
  obtain ⟨before, after⟩ := c
  cases after with
  | cons b bs =>
    obtain ⟨rfl, rfl⟩ : b = a ∧ ⟨before ++ [b], bs⟩ = c' := by simpa [next] using h
    exact ⟨by simp [items], before, rfl, .inl rfl⟩
  | nil =>
    cases before with
    | nil => simp [next] at h
    | cons b bs =>
      obtain ⟨rfl, rfl⟩ : b = a ∧ ⟨[b], bs⟩ = c' := by simpa [next] using h
      exact ⟨by simp [items], [], rfl, .inr ⟨rfl, rfl⟩⟩

end Cyclic

end OsLabs
