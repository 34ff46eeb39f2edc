import OsLabs.Lib.Population
import Mathlib.Logic.Function.Basic

/-! System V semaphore sets and the atomic `semop` call, for any index type of
semaphores, and the ledger argument: when the semaphores together with what the
processes hold of them add up to a fixed total, every `semop` that changes a
process's holdings by the opposite of its own effect keeps the total. -/

namespace OsLabs

def SEMVMX : ℕ := 32767

/-- One `struct sembuf` with `sem_flg = 0`. -/
structure Sembuf (ι : Type*) where
  sem_num : ι
  sem_op : ℤ

/-- What a `semop` call comes to: all of its operations done, the caller put to
sleep with nothing changed, or the error `ERANGE` with nothing changed. -/
inductive Semop (ι : Type*)
  | done (val : ι → ℕ)
  | sleep
  | erange

section
variable {ι : Type*} [DecidableEq ι]

/-- The operations are tried in array order on the running values; the first
one that cannot be done makes the call as a whole change nothing. -/
def semop (val : ι → ℕ) : List (Sembuf ι) → Semop ι
  | [] => .done val
  | b :: bs =>
    if b.sem_op = 0 then
      if val b.sem_num = 0 then semop val bs else .sleep
    else if (val b.sem_num : ℤ) + b.sem_op < 0 then .sleep
    else if (SEMVMX : ℤ) < val b.sem_num + b.sem_op then .erange
    else semop (Function.update val b.sem_num ((val b.sem_num : ℤ) + b.sem_op).toNat) bs

theorem semop_nil_done {val val' : ι → ℕ} : semop val [] = .done val' ↔ val = val' := by
  simp [semop]

/-- When a call goes through: a test finds zero, a change stays in range, and
the rest goes through after it. -/
theorem semop_cons_done {val val' : ι → ℕ} {b : Sembuf ι} {bs : List (Sembuf ι)} :
    semop val (b :: bs) = .done val' ↔
      if b.sem_op = 0 then val b.sem_num = 0 ∧ semop val bs = .done val'
      else 0 ≤ val b.sem_num + b.sem_op ∧ val b.sem_num + b.sem_op ≤ SEMVMX ∧
        semop (Function.update val b.sem_num ((val b.sem_num : ℤ) + b.sem_op).toNat) bs =
          .done val' := by
  rw [semop]
  split_ifs with h0 h1 h2 h3
  · simp [h1]
  · simp [h1]
  · simp [h2]
  · simp [h3]
  · simp [not_lt.1 h2, not_lt.1 h3]

def Completes (val : ι → ℕ) (bs : List (Sembuf ι)) : Prop := ∃ val', semop val bs = .done val'

@[simp] theorem completes_nil (val : ι → ℕ) : Completes val [] := ⟨val, rfl⟩

@[simp] theorem completes_cons {val : ι → ℕ} {b : Sembuf ι} {bs : List (Sembuf ι)} :
    Completes val (b :: bs) ↔
      if b.sem_op = 0 then val b.sem_num = 0 ∧ Completes val bs
      else 0 ≤ val b.sem_num + b.sem_op ∧ val b.sem_num + b.sem_op ≤ SEMVMX ∧
        Completes (Function.update val b.sem_num ((val b.sem_num : ℤ) + b.sem_op).toNat) bs := by
  simp only [Completes, semop_cons_done]
  split_ifs
  · simp
  · simp

/-- The change a list makes to one semaphore when it goes through. -/
def net (bs : List (Sembuf ι)) (i : ι) : ℤ :=
  (bs.map fun b => if b.sem_num = i then b.sem_op else 0).sum

@[simp] theorem net_nil (i : ι) : net ([] : List (Sembuf ι)) i = 0 := rfl

@[simp] theorem net_cons (b : Sembuf ι) (bs : List (Sembuf ι)) (i : ι) :
    net (b :: bs) i = (if b.sem_num = i then b.sem_op else 0) + net bs i := by
  simp [net]

/-- A completed call changes every semaphore by exactly its list's net effect. -/
theorem semop_done {val val' : ι → ℕ} {bs : List (Sembuf ι)} (h : semop val bs = .done val')
    (i : ι) : (val' i : ℤ) = val i + net bs i := by
  induction bs generalizing val with
  | nil =>
    obtain rfl : val = val' := by simpa [semop] using h
    simp
  | cons b bs ih =>
    unfold semop at h
    split_ifs at h with h0 _ hneg hmax
    · rw [ih h, net_cons, h0]; simp
    · rw [ih h, net_cons, Function.update_apply]
      by_cases hi : b.sem_num = i
      · subst hi
        simp only [if_true]
        omega
      · simp only [if_neg hi, if_neg (Ne.symm hi), zero_add]

theorem semop_le {val val' : ι → ℕ} {bs : List (Sembuf ι)} (h0 : ∀ i, val i ≤ SEMVMX)
    (h : semop val bs = .done val') (i : ι) : val' i ≤ SEMVMX := by
  induction bs generalizing val with
  | nil =>
    obtain rfl := semop_nil_done.1 h
    exact h0 i
  | cons b bs ih =>
    rw [semop_cons_done] at h
    split_ifs at h
    · exact ih h0 h.2
    · refine ih ?_ h.2.2
      intro j
      have hb := h.2.1
      rw [Function.update_apply]
      split_ifs
      · omega
      · exact h0 j

end

def Semop.result {ι : Type*} : Semop ι → Option (ι → ℕ)
  | .done val => some val
  | .sleep => none
  | .erange => none

theorem Semop.result_eq_some {ι : Type*} {r : Semop ι} {val : ι → ℕ} :
    r.result = some val ↔ r = .done val := by
  cases r <;> simp [Semop.result]

/-! Holdings. `hold p i` is what a process in local state `p` has taken of
semaphore `i` (negative when it has added to it). -/

section
variable {ι φ : Type*}

/-- The books balance: semaphore values and holdings add up to `total`. -/
def Balanced (hold : φ → ι → ℤ) (total : ι → ℤ) (val : ι → ℕ) (ps : List φ) : Prop :=
  ∀ i, (val i : ℤ) + held hold ps i = total i

variable {hold : φ → ι → ℤ} {total : ι → ℤ} {val val' : ι → ℕ} {ps : List φ} {k : ℕ} {p : φ}

/-- The ledger rule for a `semop` by process `k`. -/
theorem Balanced.semop [DecidableEq ι] (h : Balanced hold total val ps) {bs : List (Sembuf ι)}
    (hs : semop val bs = .done val') (hk : ps[k]? = some p) {q : φ}
    (hq : ∀ i, hold q i = hold p i - net bs i) : Balanced hold total val' (ps.set k q) := by
  intro i
  rw [semop_done hs, held_set hold hk, hq]
  have := h i
  omega

/-- The ledger rule for any other step: a process may change state, and the
total with it. -/
theorem Balanced.move (h : Balanced hold total val ps) (hk : ps[k]? = some p) {q : φ}
    {total' : ι → ℤ} (hq : ∀ i, total' i - total i = hold q i - hold p i) :
    Balanced hold total' val (ps.set k q) := by
  intro i
  rw [held_set hold hk]
  have := h i
  have := hq i
  omega

theorem Balanced.spawn (h : Balanced hold total val ps) (hp : ∀ i, hold p i = 0) :
    Balanced hold total val (ps ++ [p]) := by
  intro i
  rw [held_append, held_singleton, hp, add_zero]
  exact h i

end

end OsLabs
