import Mathlib.Data.List.Basic

/-! A pipe: what is written comes out in the order in which it went in, and a read of an empty
pipe waits as long as somebody may still write. -/

namespace OsLabs

variable {α : Type*}

/-- What was read, and what is still in the pipe. -/
structure Pipe (α : Type*) where
  received : List α
  queue : List α
  deriving DecidableEq

namespace Pipe

def empty : Pipe α := ⟨[], []⟩

def sent (p : Pipe α) : List α := p.received ++ p.queue

def write (p : Pipe α) (bytes : List α) : Pipe α := { p with queue := p.queue ++ bytes }

/-- At most `n` of the bytes; `none` while the pipe is empty and has a writer. -/
def read (p : Pipe α) (writers : Bool) (n : ℕ) : Option (List α × Pipe α) :=
  if p.queue.isEmpty && writers then none
  else some (p.queue.take n, ⟨p.received ++ p.queue.take n, p.queue.drop n⟩)

@[simp] theorem sent_empty : (empty : Pipe α).sent = [] := rfl

@[simp] theorem received_write (p : Pipe α) (bytes : List α) :
    (p.write bytes).received = p.received := rfl

@[simp] theorem sent_write (p : Pipe α) (bytes : List α) :
    (p.write bytes).sent = p.sent ++ bytes := by
  rw [sent, sent, write, List.append_assoc]

theorem received_prefix (p : Pipe α) : p.received <+: p.sent := List.prefix_append _ _

variable {p p' : Pipe α} {writers : Bool} {n : ℕ} {bytes : List α}

theorem read_received (h : p.read writers n = some (bytes, p')) :
    p'.received = p.received ++ bytes := by
  unfold read at h
  split_ifs at h
  obtain ⟨rfl, rfl⟩ := Prod.mk.inj (Option.some.inj h)
  rfl

theorem read_sent (h : p.read writers n = some (bytes, p')) : p'.sent = p.sent := by
  unfold read at h
  split_ifs at h
  obtain ⟨rfl, rfl⟩ := Prod.mk.inj (Option.some.inj h)
  rw [sent, sent, List.append_assoc, List.take_append_drop]

/-- A read that gives nothing: there are no writers left, and all was read. -/
theorem read_eof (hn : 0 < n) (h : p.read writers n = some ([], p')) :
    writers = false ∧ p.received = p.sent ∧ p' = p := by
  unfold read at h
  split_ifs at h with hempty
  obtain ⟨htake, rfl⟩ := Prod.mk.inj (Option.some.inj h)
  have hqueue : p.queue = [] := by
    rcases List.take_eq_nil_iff.1 htake with h0 | hq
    · omega
    · exact hq
  refine ⟨?_, by rw [sent, hqueue, List.append_nil], ?_⟩
  · simpa [hqueue] using hempty
  · obtain ⟨received, queue⟩ := p
    simp_all

theorem read_queue (hn : 0 < n) (h : p.read writers n = some (bytes, p')) (hne : bytes ≠ []) :
    p'.queue.length < p.queue.length := by
  unfold read at h
  split_ifs at h
  obtain ⟨rfl, rfl⟩ := Prod.mk.inj (Option.some.inj h)
  rw [List.length_drop]
  have hpos : p.queue.length ≠ 0 := by
    rw [ne_eq, List.length_eq_zero_iff]
    rintro hnil
    rw [hnil, List.take_nil] at hne
    exact hne rfl
  omega

/-- Only an empty pipe with writers makes a reader wait. -/
theorem read_isSome : (p.read writers n).isSome ↔ p.queue ≠ [] ∨ writers = false := by
  unfold read
  split_ifs with h
  · simp only [Bool.and_eq_true, List.isEmpty_iff] at h
    simp [h]
  · simp only [Bool.and_eq_true, List.isEmpty_iff, not_and, Bool.not_eq_true] at h
    simp only [Option.isSome_some, ne_eq, true_iff]
    tauto

end Pipe

end OsLabs
