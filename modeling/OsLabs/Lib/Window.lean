import Mathlib.Logic.Function.Basic
import Mathlib.Data.List.Basic
import Mathlib.Data.Nat.ModEq

/-! A store of items behind two counters: item `i` of a growing history sits in
cell `slot i`, and the items from `c` on are still wanted. With `cap` cells that
any `cap` items in a row find different, a store never loses a wanted item as
long as fewer than `cap` of them are there. A ring and a tape are instances. -/

namespace OsLabs

variable {κ α : Type*}

/-- Any `cap` items in a row sit in different cells. -/
def Spread (slot : ℕ → κ) (cap : ℕ) : Prop := ∀ i j, i < j → j < i + cap → slot i ≠ slot j

/-- The items from `c` on are where they were stored. -/
def Window (slot : ℕ → κ) (mem : κ → α) (hist : List α) (c : ℕ) : Prop :=
  ∀ i (h : i < hist.length), c ≤ i → mem (slot i) = hist[i]

/-- A tape: no two items ever share a cell. -/
theorem spread_of_injective {slot : ℕ → κ} (h : Function.Injective slot) (cap : ℕ) :
    Spread slot cap := fun _ _ hij _ he => absurd (h he) (Nat.ne_of_lt hij)

/-- A ring of `n` cells. -/
theorem spread_mod (n : ℕ) : Spread (fun i => i % n) n := by
  intro i j hij hj he
  have hdvd : n ∣ j - i := (Nat.modEq_iff_dvd' (Nat.le_of_lt hij)).1 he
  have := Nat.le_of_dvd (by omega) hdvd
  omega

theorem window_nil (slot : ℕ → κ) (mem : κ → α) (c : ℕ) : Window slot mem [] c :=
  fun _ h => absurd h (Nat.not_lt_zero _)

variable {slot : ℕ → κ} {mem : κ → α} {hist : List α} {c cap : ℕ}

theorem Window.front (h : Window slot mem hist c) (hc : c < hist.length) :
    mem (slot c) = hist[c] := h c hc le_rfl

theorem Window.pop (h : Window slot mem hist c) : Window slot mem hist (c + 1) :=
  fun i hi hci => h i hi (by omega)

variable [DecidableEq κ]

theorem Window.push (h : Window slot mem hist c) (hs : Spread slot cap)
    (hcap : hist.length < c + cap) (x : α) :
    Window slot (Function.update mem (slot hist.length) x) (hist ++ [x]) c := by
  intro i hi hci
  by_cases hlt : i < hist.length
  · rw [Function.update_of_ne (hs i hist.length hlt (by omega)), List.getElem_append_left hlt]
    exact h i hlt hci
  · have : i = hist.length := by simp at hi; omega
    subst this
    simp

theorem Window.clear (h : Window slot mem hist c) (hs : Spread slot cap)
    (hcap : hist.length ≤ c + cap) (x : α) :
    Window slot (Function.update mem (slot c) x) hist (c + 1) := by
  intro i hi hci
  rw [Function.update_of_ne (hs c i hci (by omega)).symm]
  exact h i hi (by omega)

end OsLabs
