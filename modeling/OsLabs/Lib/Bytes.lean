import Mathlib.Algebra.Order.Ring.Int
import Mathlib.Data.List.Basic
import Mathlib.Data.List.TakeWhile

/-! Byte arrays of a fixed length. What C leaves undefined, a store or a read past
the end of the array, has no result. -/

namespace OsLabs

structure Region (n : ℕ) where
  bytes : List UInt8
  length_eq : bytes.length = n
  deriving DecidableEq

namespace Region

variable {n : ℕ}

def zeros (n : ℕ) : Region n := ⟨List.replicate n 0, List.length_replicate⟩

theorem exists_bytes {bs : List UInt8} (h : bs.length = n) : ∃ r : Region n, r.bytes = bs :=
  ⟨⟨bs, h⟩, rfl⟩

def store (r : Region n) (i : ℤ) (bs : List UInt8) : Option (Region n) :=
  if h : 0 ≤ i ∧ i + bs.length ≤ n then
    some ⟨r.bytes.take i.toNat ++ bs ++ r.bytes.drop (i.toNat + bs.length), by
      have := r.length_eq
      simp only [List.length_append, List.length_take, List.length_drop]
      omega⟩
  else none

def load (r : Region n) (k : ℕ) : Option (List UInt8) :=
  if k ≤ n then some (r.bytes.take k) else none

/-- The string that starts at position `i`, up to and without its NUL. -/
def str (r : Region n) (i : ℕ) : Option (List UInt8) :=
  if 0 ∈ r.bytes.drop i then some ((r.bytes.drop i).takeWhile (· ≠ 0)) else none

/-- `snprintf` of the text `s` into the whole array: as much of it as fits is
stored with a NUL after it, and the length of all of it is returned. -/
def snprintf (r : Region n) (s : List UInt8) : Region n × ℕ :=
  ((r.store 0 (s.take (n - 1) ++ [0])).getD r, s.length)

theorem store_append {r : Region n} {a b bs : List UInt8} (hr : r.bytes = a ++ b)
    (hfit : bs.length ≤ b.length) :
    ∃ r' : Region n, r.store a.length bs = some r' ∧ r'.bytes = a ++ bs ++ b.drop bs.length := by
  have hn : a.length + b.length = n := by
    rw [← List.length_append, ← hr]
    exact r.length_eq
  have hin : (0 : ℤ) ≤ a.length ∧ (a.length : ℤ) + bs.length ≤ n := by omega
  refine ⟨_, dif_pos hin, ?_⟩
  simp [hr, List.drop_append]

theorem store_eq_some {r r' : Region n} {i : ℤ} {bs : List UInt8} :
    r.store i bs = some r' ↔ (0 ≤ i ∧ i + bs.length ≤ n) ∧
      r'.bytes = r.bytes.take i.toNat ++ bs ++ r.bytes.drop (i.toNat + bs.length) := by
  obtain ⟨bytes, hlen⟩ := r'
  unfold store
  split_ifs with h
  · simp [h, eq_comm]
  · simp [h]

theorem store_isSome {r : Region n} {i : ℤ} {bs : List UInt8} :
    (∃ r', r.store i bs = some r') ↔ 0 ≤ i ∧ i + bs.length ≤ n := by
  unfold store
  split_ifs with h <;> simp [h]

theorem str_append {r : Region n} {a s b : List UInt8} (hr : r.bytes = a ++ (s ++ 0 :: b))
    (hs : 0 ∉ s) : r.str a.length = some s := by
  have hd : r.bytes.drop a.length = s ++ 0 :: b := by rw [hr, List.drop_left]
  have hall : ∀ x ∈ s, decide (x ≠ 0) = true := by
    intro x hx
    exact decide_eq_true fun h0 => hs (h0 ▸ hx)
  unfold str
  rw [hd, if_pos (by simp), List.takeWhile_append_of_pos hall]
  simp

/-- A NUL further on ends every string that starts before it. -/
theorem str_of_nul {r : Region n} {i j : ℕ} (hj : r.bytes[j]? = some 0) (hij : i ≤ j) :
    ∃ s, r.str i = some s ∧ s = (r.bytes.drop i).takeWhile (· ≠ 0) ∧ i + s.length ≤ j := by
  have hget : (r.bytes.drop i)[j - i]? = some 0 := by
    rw [List.getElem?_drop, show i + (j - i) = j by omega, hj]
  refine ⟨_, if_pos (List.mem_of_getElem? hget), rfl, ?_⟩
  by_contra hlt
  have hpre := List.takeWhile_prefix (l := r.bytes.drop i) (p := (· ≠ 0))
  have hmem : (0 : UInt8) ∈ (r.bytes.drop i).takeWhile (· ≠ 0) := by
    apply List.mem_of_getElem? (i := j - i)
    rw [List.prefix_iff_eq_take.1 hpre, List.getElem?_take_of_lt (by omega), hget]
  simpa using List.mem_takeWhile_imp hmem

theorem load_snprintf (r : Region n) {s : List UInt8} {k : ℕ} (hk : k ≤ s.length) (hkn : k ≤ n) :
    (r.snprintf s).1.load k = some ((s.take (n - 1) ++ [0]).take k) := by
  have hlen := r.length_eq
  unfold load snprintf
  rw [if_pos hkn]
  cases hst : r.store 0 (s.take (n - 1) ++ [0]) with
  | none =>
    -- only an array of no bytes has no room for the NUL
    have hn : n = 0 := by
      by_contra hn
      simp [store] at hst
      omega
    obtain rfl : k = 0 := by omega
    simp
  | some r' =>
    obtain ⟨-, hb⟩ := store_eq_some.1 hst
    rw [Option.getD_some, hb]
    simp only [Int.toNat_zero, List.take_zero, List.nil_append]
    rw [List.take_append_of_le_length]
    simp
    omega

theorem snprintf_of_lt {r : Region n} {s : List UInt8} (hfit : s.length < n) :
    ∃ r', r.snprintf s = (r', s.length) ∧ r'.load s.length = some s := by
  have ht : s.take (n - 1) = s := List.take_of_length_le (by omega)
  have hlen := r.length_eq
  have hfit' : (s ++ [0]).length ≤ r.bytes.length := by
    rw [List.length_append, List.length_singleton]
    omega
  obtain ⟨r', hr', hb⟩ := store_append (List.nil_append r.bytes).symm hfit'
  have hst : r.store 0 (s ++ [0]) = some r' := by simpa using hr'
  refine ⟨r', ?_, ?_⟩
  · unfold snprintf
    rw [ht, hst, Option.getD_some]
  · unfold load
    rw [if_pos (Nat.le_of_lt hfit), hb]
    simp

end Region

end OsLabs
