import Mathlib.Algebra.Order.Ring.Int

/-! `strtol` and `strtoul` in base 16, for a `long` of 64 bits, and the numbers that `%lx`
prints. -/

namespace OsLabs

def hexDigit? (c : Char) : Option ℕ :=
  if '0' ≤ c ∧ c ≤ '9' then some (c.toNat - '0'.toNat)
  else if 'a' ≤ c ∧ c ≤ 'f' then some (c.toNat - 'a'.toNat + 10)
  else if 'A' ≤ c ∧ c ≤ 'F' then some (c.toNat - 'A'.toNat + 10)
  else none

/-- The digits up to the first character that is none, behind the number `acc`. -/
def hexDigits (acc : ℕ) : List Char → ℕ
  | [] => acc
  | c :: s =>
    match hexDigit? c with
    | some d => hexDigits (16 * acc + d) s
    | none => acc

def isSpace (c : Char) : Bool := [' ', '\t', '\n', '\x0b', '\x0c', '\r'].contains c

/-- Is there a minus sign, and what stands behind the sign. -/
def sign : List Char → Bool × List Char
  | '-' :: s => (true, s)
  | '+' :: s => (false, s)
  | s => (false, s)

/-- `0x` may stand in front of the digits. -/
def afterMark : List Char → List Char
  | '0' :: 'x' :: s => s
  | '0' :: 'X' :: s => s
  | s => s

def hexNumber (s : List Char) : Bool × ℕ :=
  let (neg, s) := sign (s.dropWhile isSpace)
  (neg, hexDigits 0 (afterMark s))

/-- A number that does not fit becomes `ULONG_MAX`, a minus sign negates modulo 2 ^ 64. -/
def strtoul (s : List Char) : ℕ :=
  let (neg, n) := hexNumber s
  if 2 ^ 64 ≤ n then 2 ^ 64 - 1 else if neg then (2 ^ 64 - n) % 2 ^ 64 else n

/-- A number that does not fit becomes `LONG_MAX` or `LONG_MIN`. -/
def strtol (s : List Char) : ℤ :=
  let (neg, n) := hexNumber s
  if neg then max (-n) (-2 ^ 63) else min n (2 ^ 63 - 1)

def hexText (n : ℕ) : List Char := '0' :: 'x' :: Nat.toDigits 16 n

theorem hexDigit?_digitChar : ∀ d < 16, hexDigit? (Nat.digitChar d) = some d := by decide

theorem hexDigits_append {s t : List Char} (hs : ∀ c ∈ s, (hexDigit? c).isSome) (acc : ℕ) :
    hexDigits acc (s ++ t) = hexDigits (hexDigits acc s) t := by
  induction s generalizing acc with
  | nil => rfl
  | cons c s ih =>
    obtain ⟨d, hd⟩ := Option.isSome_iff_exists.1 (hs c List.mem_cons_self)
    simp only [List.cons_append, hexDigits, hd]
    exact ih (fun c hc => hs c (List.mem_cons_of_mem _ hc)) _

theorem hexDigits_toDigits (n : ℕ) :
    (∀ c ∈ Nat.toDigits 16 n, (hexDigit? c).isSome) ∧ hexDigits 0 (Nat.toDigits 16 n) = n := by
  induction n using Nat.strong_induction_on with
  | _ n ih =>
    rw [Nat.toDigits_eq_if (by decide)]
    split_ifs with hlt
    · have hd := hexDigit?_digitChar n hlt
      refine ⟨fun c hc => ?_, ?_⟩
      · rw [List.mem_singleton.1 hc, hd]
        rfl
      · simp [hexDigits, hd]
    · obtain ⟨hall, hval⟩ := ih (n / 16) (by omega)
      have hd := hexDigit?_digitChar (n % 16) (by omega)
      refine ⟨fun c hc => ?_, ?_⟩
      · rcases List.mem_append.1 hc with hc | hc
        · exact hall c hc
        · rw [List.mem_singleton.1 hc, hd]
          rfl
      · rw [hexDigits_append hall, hval]
        simp only [hexDigits, hd]
        omega

theorem hexNumber_hexText (n : ℕ) : hexNumber (hexText n) = (false, n) := by
  have hval := (hexDigits_toDigits n).2
  simpa [hexNumber, hexText, isSpace, sign, afterMark] using hval

/-- Read back through `strtol`, only an address below 2 ^ 63 is itself. -/
theorem strtol_hexText (n : ℕ) : strtol (hexText n) = min (n : ℤ) (2 ^ 63 - 1) := by
  rw [strtol, hexNumber_hexText]
  rfl

end OsLabs
