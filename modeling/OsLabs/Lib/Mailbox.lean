import Mathlib.Data.List.Basic
import OsLabs.Lib.Run

/-! A mailbox with one place. The sender stores a value and then asks for a run of the
receiver; an ask while another one is waiting is dropped. The receiver starts, reads the
value that is there by then, and finishes. -/

namespace OsLabs

inductive Stage
  | idle
  /-- started, the value not read yet -/
  | begun
  | read
  deriving DecidableEq

/-- `posted` tells that the sender has stored a value and not asked yet; `put` and `taken`
are all the values stored and read so far, newest last. -/
structure Mailbox (α : Type*) where
  value : α
  pending : Bool
  stage : Stage
  posted : Bool
  put : List α
  taken : List α

namespace Mailbox

inductive Event (α : Type*)
  | put (a : α)
  | ask
  | start
  | take
  | finish

variable {α : Type*} {m m' : Mailbox α} {e : Event α}

def init (a : α) : Mailbox α := ⟨a, false, .idle, false, [], []⟩

def step (m : Mailbox α) : Event α → Option (Mailbox α)
  | .put a =>
    if m.posted then none else some { m with value := a, posted := true, put := m.put ++ [a] }
  | .ask => if m.posted then some { m with posted := false, pending := true } else none
  | .start =>
    if m.pending ∧ m.stage = .idle then some { m with pending := false, stage := .begun } else none
  | .take =>
    if m.stage = .begun then some { m with taken := m.taken ++ [m.value], stage := .read } else none
  | .finish => if m.stage = .read then some { m with stage := .idle } else none

/-- The reads still to come: of the value not yet asked for, of the run that is waiting,
of the run that has started. -/
def unread (m : Mailbox α) : ℕ :=
  m.posted.toNat + m.pending.toNat + if m.stage = .begun then 1 else 0

/-- Every value stored was read, or will be, as it is the one in the mailbox. -/
def Faithful (m : Mailbox α) : Prop := m.put = m.taken ++ List.replicate m.unread m.value

/-- The step overwrites no value that is still to be read, and its ask is not dropped. -/
def Undisturbed (m : Mailbox α) : Event α → Prop
  | .put a => m.unread = 0 ∨ a = m.value
  | .ask => m.pending = false
  | .start | .take | .finish => True

/-- What is true however it is used: there are no more reads than values, and the value in
the mailbox is the last one. -/
structure Ledger (m : Mailbox α) : Prop where
  count : m.taken.length + m.unread ≤ m.put.length
  last : m.put = [] ∨ m.put.getLast? = some m.value

theorem ledger_init (a : α) : (init a).Ledger := ⟨Nat.le_refl _, .inl rfl⟩

theorem faithful_init (a : α) : (init a).Faithful := rfl

theorem step_cases (h : m.step e = some m') :
    (∃ a, e = .put a ∧ m.posted = false ∧
      m' = { m with value := a, posted := true, put := m.put ++ [a] }) ∨
    (e = .ask ∧ m.posted = true ∧ m' = { m with posted := false, pending := true }) ∨
    (e = .start ∧ m.pending = true ∧ m.stage = .idle ∧
      m' = { m with pending := false, stage := .begun }) ∨
    (e = .take ∧ m.stage = .begun ∧
      m' = { m with taken := m.taken ++ [m.value], stage := .read }) ∨
    (e = .finish ∧ m.stage = .read ∧ m' = { m with stage := .idle }) := by
  cases e with
  | put a =>
    simp only [step] at h
    split_ifs at h with hp
    exact .inl ⟨a, rfl, by simpa using hp, (Option.some.inj h).symm⟩
  | ask =>
    simp only [step] at h
    split_ifs at h with hp
    exact .inr (.inl ⟨rfl, hp, (Option.some.inj h).symm⟩)
  | start =>
    simp only [step] at h
    split_ifs at h with hp
    exact .inr (.inr (.inl ⟨rfl, hp.1, hp.2, (Option.some.inj h).symm⟩))
  | take =>
    simp only [step] at h
    split_ifs at h with hp
    exact .inr (.inr (.inr (.inl ⟨rfl, hp, (Option.some.inj h).symm⟩)))
  | finish =>
    simp only [step] at h
    split_ifs at h with hp
    exact .inr (.inr (.inr (.inr ⟨rfl, hp, (Option.some.inj h).symm⟩)))

theorem Ledger.step (hl : m.Ledger) (h : m.step e = some m') : m'.Ledger := by
  have hcount := hl.count
  obtain ⟨a, -, hp, rfl⟩ | ⟨-, hp, rfl⟩ | ⟨-, hp, hs, rfl⟩ | ⟨-, hs, rfl⟩ | ⟨-, hs, rfl⟩ :=
    step_cases h
  · refine ⟨?_, .inr List.getLast?_concat⟩
    simp only [unread, hp, Bool.toNat_false, Bool.toNat_true, List.length_append,
      List.length_singleton] at hcount ⊢
    omega
  · refine ⟨?_, hl.last⟩
    simp only [unread, hp, Bool.toNat_false, Bool.toNat_true] at hcount ⊢
    omega
  · refine ⟨?_, hl.last⟩
    simp [unread, hp, hs] at hcount ⊢
    omega
  · refine ⟨?_, hl.last⟩
    simp [unread, hs] at hcount ⊢
    omega
  · refine ⟨?_, hl.last⟩
    simp [unread, hs] at hcount ⊢
    omega

/-- A step keeps the mailbox faithful exactly when it was and the step disturbs nothing. -/
theorem Ledger.faithful_step (hl : m.Ledger) (h : m.step e = some m') :
    m'.Faithful ↔ m.Faithful ∧ m.Undisturbed e := by
  have hcount := hl.count
  obtain ⟨a, rfl, hp, rfl⟩ | ⟨rfl, hp, rfl⟩ | ⟨rfl, hp, hs, rfl⟩ | ⟨rfl, hs, rfl⟩ |
    ⟨rfl, hs, rfl⟩ := step_cases h
  · have hunread : ({ m with value := a, posted := true, put := m.put ++ [a] } :
        Mailbox α).unread = m.unread + 1 := by
      simp only [unread, hp, Bool.toNat_false, Bool.toNat_true]
      omega
    rw [Faithful, hunread, List.replicate_succ', ← List.append_assoc, List.append_left_inj]
    constructor
    · intro hput
      have hsame : m.unread = 0 ∨ a = m.value := by
        rcases hl.last with hnil | hlast
        · left
          rw [hnil, List.length_nil] at hcount
          omega
        · rcases Nat.eq_zero_or_pos m.unread with h0 | hpos
          · exact .inl h0
          · -- the last value stored is the last of those still to be read
            right
            obtain ⟨n, hn⟩ := Nat.exists_eq_succ_of_ne_zero (Nat.ne_of_gt hpos)
            rw [hput, hn, List.replicate_succ', ← List.append_assoc, List.getLast?_concat] at hlast
            exact Option.some.inj hlast
      refine ⟨?_, hsame⟩
      rcases hsame with h0 | rfl
      · rw [Faithful, hput, h0]
        rfl
      · exact hput
    · rintro ⟨hf, h0 | rfl⟩
      · rw [hf, h0]
        rfl
      · exact hf
  · cases hpend : m.pending with
    | false =>
      have hunread :
          ({ m with posted := false, pending := true } : Mailbox α).unread = m.unread := by
        simp only [unread, hp, hpend, Bool.toNat_false, Bool.toNat_true]
      rw [Faithful, hunread]
      exact ⟨fun hf => ⟨hf, hpend⟩, fun hf => hf.1⟩
    | true =>
      -- one read less is to come than there are values
      have hunread : ({ m with posted := false, pending := true } :
          Mailbox α).unread + 1 = m.unread := by
        simp only [unread, hp, hpend, Bool.toNat_false, Bool.toNat_true]
        omega
      constructor
      · intro hf
        have hlen := congrArg List.length hf
        simp only [List.length_append, List.length_replicate] at hlen
        omega
      · rintro ⟨-, hu⟩
        rw [Undisturbed, hpend] at hu
        contradiction
  · have hunread :
        ({ m with pending := false, stage := .begun } : Mailbox α).unread = m.unread := by
      simp [unread, hp, hs]
    rw [Faithful, hunread]
    exact ⟨fun hf => ⟨hf, trivial⟩, fun hf => hf.1⟩
  · have hunread : m.unread =
        ({ m with taken := m.taken ++ [m.value], stage := .read } : Mailbox α).unread + 1 := by
      simp [unread, hs]
    have hiff : ({ m with taken := m.taken ++ [m.value], stage := .read } : Mailbox α).Faithful ↔
        m.Faithful := by
      rw [Faithful, Faithful, hunread, List.replicate_succ, List.append_assoc,
        List.singleton_append]
    rw [hiff]
    exact ⟨fun hf => ⟨hf, trivial⟩, fun hf => hf.1⟩
  · have hunread : ({ m with stage := .idle } : Mailbox α).unread = m.unread := by
      simp [unread, hs]
    rw [Faithful, hunread]
    exact ⟨fun hf => ⟨hf, trivial⟩, fun hf => hf.1⟩

theorem Faithful.taken_left (h : m.Faithful) : m.taken <+: m.put := ⟨_, h.symm⟩

theorem Faithful.taken_eq (h : m.Faithful) (h0 : m.unread = 0) : m.taken = m.put := by
  rw [Faithful, h0] at h
  simpa using h.symm

end Mailbox

end OsLabs
