import Mathlib.Algebra.Order.Ring.Int
import Mathlib.Logic.Equiv.Defs

/-! XDR streams in memory: 32-bit units, the most significant byte first, written, read or
freed by the same routines, each of which does what the stream is for. `XDR_INLINE` may hand
out a piece of the stream at once, or nothing, as it does for a buffer that is not aligned. -/

namespace OsLabs.Xdr

def BYTES_PER_XDR_UNIT : ℕ := 4

def putUnit (n : ℕ) : List UInt8 :=
  [UInt8.ofNat (n / 2 ^ 24), UInt8.ofNat (n / 2 ^ 16), UInt8.ofNat (n / 2 ^ 8), UInt8.ofNat n]

def unitOf (a b c d : UInt8) : ℕ :=
  a.toNat * 2 ^ 24 + b.toNat * 2 ^ 16 + c.toNat * 2 ^ 8 + d.toNat

def getUnit : List UInt8 → Option (ℕ × List UInt8)
  | a :: b :: c :: d :: rest => some (unitOf a b c d, rest)
  | _ => none

@[simp] theorem length_putUnit (n : ℕ) : (putUnit n).length = 4 := rfl

theorem unitOf_lt (a b c d : UInt8) : unitOf a b c d < 2 ^ 32 := by
  have ha := a.toNat_lt
  have hb := b.toNat_lt
  have hc := c.toNat_lt
  have hd := d.toNat_lt
  unfold unitOf
  omega

theorem putUnit_unitOf (a b c d : UInt8) : putUnit (unitOf a b c d) = [a, b, c, d] := by
  have ha := a.toNat_lt
  have hb := b.toNat_lt
  have hc := c.toNat_lt
  have hd := d.toNat_lt
  simp only [putUnit, unitOf, List.cons.injEq, ← UInt8.toNat_inj, UInt8.toNat_ofNat', and_true]
  omega

theorem getUnit_putUnit {n : ℕ} (h : n < 2 ^ 32) (rest : List UInt8) :
    getUnit (putUnit n ++ rest) = some (n, rest) := by
  simp only [putUnit, getUnit, unitOf, List.cons_append, List.nil_append, UInt8.toNat_ofNat',
    Option.some.injEq, Prod.mk.injEq, and_true]
  omega

/-- What is read is what was written, and nothing else is read as it. -/
theorem getUnit_eq_some {bytes rest : List UInt8} {n : ℕ} :
    getUnit bytes = some (n, rest) ↔ n < 2 ^ 32 ∧ bytes = putUnit n ++ rest := by
  refine ⟨?_, ?_⟩
  · intro h
    unfold getUnit at h
    split at h
    · obtain ⟨rfl, rfl⟩ := Prod.mk.inj (Option.some.inj h)
      exact ⟨unitOf_lt _ _ _ _, by rw [putUnit_unitOf]; rfl⟩
    · cases h
  · rintro ⟨hlt, rfl⟩
    exact getUnit_putUnit hlt rest

theorem getUnit_eq_none {bytes : List UInt8} : getUnit bytes = none ↔ bytes.length < 4 := by
  unfold getUnit
  split
  · simp
  · rename_i hnot
    simp only [true_iff]
    rcases bytes with _ | ⟨a, _ | ⟨b, _ | ⟨c, _ | ⟨d, rest⟩⟩⟩⟩
    · simp
    · simp
    · simp
    · simp
    · exact absurd rfl (hnot a b c d rest)

/-! ### Integers and floats -/

def IsInt (v : ℤ) : Prop := -2 ^ 31 ≤ v ∧ v < 2 ^ 31

instance (v : ℤ) : Decidable (IsInt v) := inferInstanceAs (Decidable (_ ∧ _))

def putLong (v : ℤ) : List UInt8 := putUnit (v % 2 ^ 32).toNat

def longOf (n : ℕ) : ℤ := if n < 2 ^ 31 then n else n - 2 ^ 32

def getLong (bytes : List UInt8) : Option (ℤ × List UInt8) :=
  (getUnit bytes).map fun p => (longOf p.1, p.2)

@[simp] theorem length_putLong (v : ℤ) : (putLong v).length = 4 := rfl

theorem isInt_longOf {n : ℕ} (h : n < 2 ^ 32) : IsInt (longOf n) := by
  unfold IsInt longOf
  split_ifs <;> omega

theorem longOf_emod {v : ℤ} (h : IsInt v) : longOf (v % 2 ^ 32).toNat = v := by
  obtain ⟨hlo, hhi⟩ := h
  unfold longOf
  split_ifs <;> omega

theorem emod_longOf {n : ℕ} (h : n < 2 ^ 32) : (longOf n % 2 ^ 32).toNat = n := by
  unfold longOf
  split_ifs <;> omega

theorem getLong_eq_some {bytes rest : List UInt8} {v : ℤ} :
    getLong bytes = some (v, rest) ↔ IsInt v ∧ bytes = putLong v ++ rest := by
  unfold getLong putLong
  simp only [Option.map_eq_some_iff, Prod.exists, getUnit_eq_some, Prod.mk.injEq]
  refine ⟨?_, ?_⟩
  · rintro ⟨n, rest', ⟨hlt, hbytes⟩, rfl, rfl⟩
    exact ⟨isInt_longOf hlt, by rw [emod_longOf hlt, hbytes]⟩
  · rintro ⟨hv, hbytes⟩
    exact ⟨_, rest, ⟨by omega, hbytes⟩, longOf_emod hv, rfl⟩

theorem getLong_eq_none {bytes : List UInt8} : getLong bytes = none ↔ bytes.length < 4 := by
  rw [getLong, Option.map_eq_none_iff, getUnit_eq_none]

section
variable {α : Type} (bits : α ≃ UInt32)

def putBits (x : α) : List UInt8 := putUnit (bits x).toNat

def getBits (bytes : List UInt8) : Option (α × List UInt8) :=
  (getUnit bytes).map fun p => (bits.symm (UInt32.ofNat p.1), p.2)

@[simp] theorem length_putBits (x : α) : (putBits bits x).length = 4 := rfl

theorem getBits_eq_some {bytes rest : List UInt8} {x : α} :
    getBits bits bytes = some (x, rest) ↔ bytes = putBits bits x ++ rest := by
  unfold getBits putBits
  simp only [Option.map_eq_some_iff, Prod.exists, getUnit_eq_some, Prod.mk.injEq]
  refine ⟨?_, ?_⟩
  · rintro ⟨n, rest', ⟨hlt, hbytes⟩, rfl, rfl⟩
    rw [hbytes, Equiv.apply_symm_apply, UInt32.toNat_ofNat_of_lt' hlt]
  · intro hbytes
    exact ⟨_, rest, ⟨(bits x).toNat_lt, hbytes⟩, by simp, rfl⟩

end

/-! ### Streams -/

inductive Op
  | ENCODE
  | DECODE
  | FREE
  deriving DecidableEq

/-- What has been written, or what is left to be read; the room left for writing; and
whether the stream hands out pieces of its buffer. -/
structure XDR where
  x_op : Op
  bytes : List UInt8
  handy : ℕ
  inlines : Bool

/-- A routine for one value: `none` stands for `FALSE`, otherwise the stream and the value
behind the pointer afterwards. -/
def xdrUnit {β : Type} (put : β → List UInt8) (get : List UInt8 → Option (β × List UInt8))
    (xdrs : XDR) (v : β) : Option (XDR × β) :=
  match xdrs.x_op with
  | .ENCODE =>
    if BYTES_PER_XDR_UNIT ≤ xdrs.handy then
      some ({ xdrs with
        bytes := xdrs.bytes ++ put v, handy := xdrs.handy - BYTES_PER_XDR_UNIT }, v)
    else none
  | .DECODE => (get xdrs.bytes).map fun p => ({ xdrs with bytes := p.2 }, p.1)
  | .FREE => some (xdrs, v)

def xdrInt : XDR → ℤ → Option (XDR × ℤ) := xdrUnit putLong getLong

def xdrFloat {α : Type} (bits : α ≃ UInt32) : XDR → α → Option (XDR × α) :=
  xdrUnit (putBits bits) (getBits bits)

/-- `XDR_INLINE`: the stream behind the piece, and the piece when it is there to be read. -/
def xdrInline (xdrs : XDR) (len : ℕ) : Option (XDR × List UInt8) :=
  match xdrs.x_op with
  | .ENCODE =>
    if xdrs.inlines && len ≤ xdrs.handy then some ({ xdrs with handy := xdrs.handy - len }, [])
    else none
  | .DECODE =>
    if xdrs.inlines && len ≤ xdrs.bytes.length then
      some ({ xdrs with bytes := xdrs.bytes.drop len }, xdrs.bytes.take len)
    else none
  | .FREE => none

def ixdrPutLong (xdrs : XDR) (v : ℤ) : XDR := { xdrs with bytes := xdrs.bytes ++ putLong v }

/-- `IXDR_GET_LONG`: the value, and the pointer moved on. -/
def ixdrGetLong (buf : List UInt8) : ℤ × List UInt8 := (getLong buf).getD (0, buf)

theorem ixdrGetLong_append {v : ℤ} (h : IsInt v) (rest : List UInt8) :
    ixdrGetLong (putLong v ++ rest) = (v, rest) := by
  rw [ixdrGetLong, getLong_eq_some.2 ⟨h, rfl⟩, Option.getD_some]

end OsLabs.Xdr
