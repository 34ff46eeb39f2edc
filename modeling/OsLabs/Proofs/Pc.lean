import OsLabs.Spec.Pc
import OsLabs.Lib.Window
import Mathlib.Data.List.Nodup

/-! Exactly-once delivery in `pc.c`. The semaphores keep the two cursors in
step with the completed bodies; the cursors only move forward, so every letter
stays where it was stored and is read from there once. -/

namespace OsLabs.Pc

open Section

theorem pc_buffers : pc.Buffers id .SE .SF .SB where
  lock_se r := by cases r <;> decide
  lock_sf r := by cases r <;> decide
  lock_sb r := by cases r <;> decide
  release_se r := by cases r <;> decide
  release_sf r := by cases r <;> decide
  release_sb r := by cases r <;> decide

def cell (i : ℕ) : ℕ := PTR + PTR + i

theorem spread_cell (cap : ℕ) : Spread cell cap :=
  spread_of_injective (fun i j h => by unfold cell at h; omega) cap

/-- The segment after `p` productions and `c` consumptions. -/
structure SegInv (m : Seg) (p c : ℕ) : Prop where
  prodCur : m.prodCur = cell p
  consCur : m.consCur = cell c
  produced : m.produced = (List.range p).map fun i => (cell i, letter i)
  consumed : m.consumed = (List.range c).map fun i => (cell i, letter i)
  window : Window cell m.mem ((List.range p).map letter) c

theorem segInv_init : SegInv segInit 0 0 where
  prodCur := rfl
  consCur := rfl
  produced := rfl
  consumed := rfl
  window := window_nil _ _ _

theorem segInv_producer {m m' : Seg} {p c : ℕ} (h : SegInv m p c) (hm : producer m = some m') :
    SegInv m' (p + 1) c := by
  unfold producer at hm
  split_ifs at hm
  obtain rfl := Option.some.inj hm
  have hl : cell p - (PTR + PTR) = p := by simp [cell]
  have hw := h.window.push (spread_cell (p + 1)) (by simp; omega) (letter p)
  refine ⟨?_, h.consCur, ?_, h.consumed, ?_⟩
  · simp only [h.prodCur, cell, Nat.add_assoc]
  · simp only [h.produced, h.prodCur, hl, List.range_succ, List.map_append, List.map_cons,
      List.map_nil]
  · simpa only [h.prodCur, hl, List.range_succ, List.map_append, List.map_cons, List.map_nil,
      List.length_map, List.length_range] using hw

theorem segInv_consumer {m m' : Seg} {p c : ℕ} (h : SegInv m p c) (hc : c < p)
    (hm : consumer m = some m') : SegInv m' p (c + 1) := by
  unfold consumer at hm
  split_ifs at hm
  obtain rfl := Option.some.inj hm
  have hf : m.mem (cell c) = letter c := by
    have := h.window.front (by simpa using hc)
    simpa using this
  refine ⟨h.prodCur, ?_, h.produced, ?_, h.window.pop⟩
  · simp only [h.consCur, cell, Nat.add_assoc]
  · simp only [h.consumed, h.consCur, hf, List.range_succ, List.map_append, List.map_cons,
      List.map_nil]

/-- The invariant: the books balance and the segment agrees with the bodies run. -/
structure Inv (s : State) : Prop where
  ledger : pc.Ledger semInit s
  seg : SegInv s.data (countKind id .producer s.bodies) (countKind id .consumer s.bodies)

theorem inv_init : Inv init := ⟨pc.ledger_init _ _, segInv_init⟩

theorem inv_step {s s' : State} {e : Event} (hi : Inv s) (h : pc.step s e = some s') :
    Inv s' := by
  refine ⟨pc.ledger_step hi.ledger h, ?_⟩
  obtain ⟨r, -, rfl⟩ | ⟨k, r, sem, -, hk, -, rfl⟩ | ⟨k, r, data, -, hk, hb, rfl⟩ |
    ⟨k, r, sem, -, hk, -, rfl⟩ | ⟨k, r, -, hk, rfl⟩ | ⟨k, r, -, hk, rfl⟩ := pc.step_cases h
  · exact hi.seg
  · exact hi.seg
  · cases r with
    | producer => simpa [countKind_append] using segInv_producer hi.seg hb
    | consumer =>
      have hlt := pc_buffers.consumer_entered hi.ledger rfl hk rfl
      simpa [countKind_append] using segInv_consumer hi.seg hlt hb
  · exact hi.seg
  · exact hi.seg
  · exact hi.seg

theorem Inv.lengths {s : State} (hi : Inv s) :
    s.data.produced.length = bodiesRun .producer s ∧
      s.data.consumed.length = bodiesRun .consumer s := by
  rw [hi.seg.produced, hi.seg.consumed]
  simp [bodiesRun]

/-- At most one process is in its body, the completed productions lead the
completed consumptions by 0 to 26, each body run stores or reads one letter, and what was
consumed is what was produced, from the first letter on: item `i` is letter `'a' + i % 26`,
stored and read at cell `i`, each cell once. -/
theorem exactly_once_fifo {tr : List (State × Event)} {s : State} (h : Run pc.step init tr s) :
    inBody s ≤ 1 ∧
    (completed .consumer s ≤ completed .producer s ∧
      completed .producer s ≤ completed .consumer s + 26) ∧
    (s.data.produced.length = bodiesRun .producer s ∧
      s.data.consumed.length = bodiesRun .consumer s) ∧
    (s.data.consumed.length ≤ s.data.produced.length ∧
      s.data.produced.length ≤ s.data.consumed.length + 26) ∧
    s.data.produced = (List.range s.data.produced.length).map (fun i => (cell i, letter i)) ∧
    s.data.consumed <+: s.data.produced ∧ s.data.produced.Nodup := by
  have hi := h.invariant inv_init fun _ _ _ => inv_step
  have hle := pc_buffers.consumers_le hi.ledger rfl
  have hlen := pc_buffers.producers_le hi.ledger
  simp only [semInit] at hlen
  have hp := hi.seg.produced
  have hc := hi.seg.consumed
  obtain ⟨hpl, hcl⟩ := hi.lengths
  unfold bodiesRun at hpl hcl
  refine ⟨pc_buffers.exclusive hi.ledger rfl,
    pc_buffers.releases_bounds hi.ledger rfl fun k => pc.settled_run _ h,
    ⟨hpl, hcl⟩, ⟨by omega, by omega⟩, by rw [hpl]; exact hp, ?_, ?_⟩
  · rw [hp, hc, ← Nat.min_eq_left hle, ← List.take_range, List.map_take]
    exact List.take_prefix _ _
  · rw [hp]
    refine List.Nodup.map (fun i j hij => ?_) List.nodup_range
    simp only [cell, Prod.mk.injEq] at hij
    omega

def oneLetter : List Event :=
  [.spawn .consumer, .spawn .producer, .run 1, .run 1, .run 1, .run 0, .run 0, .run 0]

theorem exactly_once_fifo_oneLetter :
    let s := (exec pc.step init oneLetter).get (by decide)
    s.data.consumed = [(16, 97)] ∧ s.data.produced.length = bodiesRun .producer s ∧
      s.data.consumed <+: s.data.produced := by
  have h := exactly_once_fifo (run_of_isSome init oneLetter (by decide))
  exact ⟨by decide, h.2.2.1.1, h.2.2.2.2.2.1⟩

end OsLabs.Pc
