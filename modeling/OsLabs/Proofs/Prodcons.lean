import OsLabs.Spec.Prodcons
import OsLabs.Lib.Window

/-! Loss in the ring of the RPC producer-consumer server. `init` gives `SE` the
29 bytes of the whole buffer, the ring has 26 places: the run stays lossless
exactly as long as no producer stores into a full ring. -/

namespace OsLabs.Prodcons

open Section

theorem workers_buffers : workers.Buffers Worker.kind .SE .SF .SB where
  lock_se := fun ⟨k, _⟩ => by cases k <;> rfl
  lock_sf := fun ⟨k, _⟩ => by cases k <;> rfl
  lock_sb := fun ⟨k, _⟩ => by cases k <;> rfl
  release_se := fun ⟨k, _⟩ => by cases k <;> rfl
  release_sf := fun ⟨k, _⟩ => by cases k <;> rfl
  release_sb := fun ⟨k, _⟩ => by cases k <;> rfl

def slot (i : ℕ) : Fin SLOTS := ⟨i % SLOTS, Nat.mod_lt _ (by decide)⟩

theorem spread_slot : Spread slot SLOTS := fun i j hij hj he =>
  spread_mod SLOTS i j hij hj (congrArg Fin.val he)

theorem slot_add (i : ℕ) : slot (i + SLOTS) = slot i := by simp [slot]

def header (n : ℕ) : UInt8 := UInt8.ofNat (n % SLOTS)

theorem toNat_header (n : ℕ) : (header n).toNat = n % SLOTS := by
  have : n % SLOTS < SLOTS := Nat.mod_lt _ (by decide)
  have h26 : SLOTS = 26 := rfl
  simp only [header, UInt8.toNat_ofNat']
  omega

theorem sid_header (n : ℕ) : sid (header n) = slot n := by
  simp [sid, slot, toNat_header]

theorem advance_header (n : ℕ) : advance (header n) = header (n + 1) := by
  unfold advance
  rw [toNat_header, Nat.mod_add_mod]
  rfl

/-- The ring after `p` items were stored and `c` taken, none of them lost. -/
structure RingInv (m : Shared) (p c : ℕ) : Prop where
  prodCur : m.prodCur = header p
  consCur : m.consCur = header c
  stored : m.stored.length = p
  le : c ≤ p
  room : p ≤ c + SLOTS
  taken : m.taken = m.stored.take c
  window : Window slot m.slots m.stored c
  full : ∀ j, m.full j = true ↔ ∃ i, c ≤ i ∧ i < p ∧ slot i = j

theorem ringInv_init : RingInv sharedInit 0 0 where
  prodCur := rfl
  consCur := rfl
  stored := rfl
  le := le_rfl
  room := Nat.zero_le _
  taken := rfl
  window := window_nil _ _ _
  full := by simp [sharedInit]

variable {m : Shared} {p c : ℕ}

theorem RingInv.length_taken (h : RingInv m p c) : m.taken.length = c := by
  rw [h.taken, List.length_take, h.stored, Nat.min_eq_left h.le]

theorem RingInv.next_free (h : RingInv m p c) (hp : p < c + SLOTS) :
    m.full (sid m.prodCur) = false := by
  rw [h.prodCur, sid_header, Bool.eq_false_iff, ne_eq, h.full]
  intro hfull
  obtain ⟨i, hci, hip, he⟩ := hfull
  exact spread_slot i p hip (by omega) he

theorem RingInv.next_taken (h : RingInv m p c) (hp : p = c + SLOTS) :
    m.full (sid m.prodCur) = true := by
  have hpos : 0 < SLOTS := by decide
  rw [h.prodCur, sid_header, h.full]
  exact ⟨c, le_rfl, by omega, by rw [hp, slot_add]⟩

theorem RingInv.producer (h : RingInv m p c) (hp : p < c + SLOTS) (idx : ℤ) :
    RingInv (producer idx m) (p + 1) c where
  prodCur := by simp only [Prodcons.producer, h.prodCur, advance_header]
  consCur := h.consCur
  stored := by simp [Prodcons.producer, h.stored]
  le := Nat.le_succ_of_le h.le
  room := by omega
  taken := by
    simp only [Prodcons.producer, h.taken]
    rw [List.take_append_of_le_length (by rw [h.stored]; exact h.le)]
  window := by
    have := h.window.push spread_slot (by rw [h.stored]; exact hp) m.ch
    simpa only [Prodcons.producer, h.prodCur, sid_header, h.stored] using this
  full j := by
    simp only [Prodcons.producer, h.prodCur, sid_header, Function.update_apply]
    split_ifs with hj
    · simp only [true_iff]
      exact ⟨p, h.le, Nat.lt_succ_self p, hj.symm⟩
    · rw [h.full]
      constructor
      · rintro ⟨i, hci, hip, he⟩
        exact ⟨i, hci, by omega, he⟩
      · rintro ⟨i, hci, hip, he⟩
        have : i ≠ p := fun hi => hj (by rw [← he, hi])
        exact ⟨i, hci, by omega, he⟩

theorem RingInv.front_full (h : RingInv m p c) (hc : c < p) :
    m.full (sid m.consCur) = true := by
  rw [h.consCur, sid_header, h.full]
  exact ⟨c, le_rfl, hc, rfl⟩

theorem RingInv.consumer (h : RingInv m p c) (hc : c < p) (idx : ℤ) :
    RingInv (consumer idx m) p (c + 1) where
  prodCur := h.prodCur
  consCur := by simp only [Prodcons.consumer, h.consCur, advance_header]
  stored := h.stored
  le := hc
  room := by have := h.room; omega
  taken := by
    have hlt : c < m.stored.length := by rw [h.stored]; exact hc
    have hf := h.window.front hlt
    simp only [Prodcons.consumer, h.consCur, sid_header, h.taken, hf, List.take_append_getElem]
  window := by
    have := h.window.clear spread_slot (by rw [h.stored]; exact h.room) 0
    simpa only [Prodcons.consumer, h.consCur, sid_header] using this
  full j := by
    simp only [Prodcons.consumer, h.consCur, sid_header, Function.update_apply]
    split_ifs with hj
    · simp only [false_iff]
      rintro ⟨i, hci, hip, he⟩
      have := h.room
      exact spread_slot c i hci (by omega) (by rw [he, hj])
    · rw [h.full]
      constructor
      · rintro ⟨i, hci, hip, he⟩
        have : i ≠ c := fun hi => hj (by rw [← he, hi])
        exact ⟨i, by omega, hip, he⟩
      · rintro ⟨i, hci, hip, he⟩
        exact ⟨i, by omega, hip, he⟩

/-- The invariant of the lossless runs. -/
structure Inv (s : State) : Prop where
  ledger : workers.Ledger semInit s
  ring : RingInv s.data (countKind Worker.kind .producer s.bodies)
    (countKind Worker.kind .consumer s.bodies)

theorem inv_init : Inv init := ⟨workers.ledger_init _ _, ringInv_init⟩

theorem Inv.fifo {s : State} (hi : Inv s) : Fifo s := by
  unfold Fifo
  rw [hi.ring.taken]
  exact List.take_prefix _ _

/-- A step with room is clean and keeps the invariant. -/
theorem inv_step {s s' : State} {e : Event} (hi : Inv s) (hc : HasRoom s e)
    (h : workers.step s e = some s') : Clean s e ∧ Inv s' := by
  have hclean : Clean s e := by
    constructor
    · intro hb
      have hr := hc hb
      rw [hi.ring.stored, hi.ring.length_taken] at hr
      exact hi.ring.next_free hr
    · intro hb
      obtain ⟨i, idx, -, hk⟩ := hb
      exact hi.ring.front_full (workers_buffers.consumer_entered hi.ledger rfl hk rfl)
  refine ⟨hclean, workers.ledger_step hi.ledger h, ?_⟩
  obtain ⟨r, -, rfl⟩ | ⟨k, r, sem, -, hk, -, rfl⟩ | ⟨k, r, data, he, hk, hb, rfl⟩ |
    ⟨k, r, sem, -, hk, -, rfl⟩ | ⟨k, r, -, hk, rfl⟩ | ⟨k, r, -, hk, rfl⟩ := workers.step_cases h
  · exact hi.ring
  · exact hi.ring
  · obtain ⟨kind, idx⟩ := r
    cases kind with
    | producer =>
      have hr := hc ⟨k, idx, he, hk⟩
      rw [hi.ring.stored, hi.ring.length_taken] at hr
      obtain rfl := Option.some.inj hb
      simpa [countKind_append] using hi.ring.producer hr idx
    | consumer =>
      have hlt := workers_buffers.consumer_entered hi.ledger rfl hk rfl
      obtain rfl := Option.some.inj hb
      simpa [countKind_append] using hi.ring.consumer hlt idx
  · exact hi.ring
  · exact hi.ring
  · exact hi.ring

/-- A store into a full ring overwrites an item nobody has taken. -/
theorem not_clean {s : State} {e : Event} (hi : Inv s) (hc : ¬ HasRoom s e) : ¬ Clean s e := by
  simp only [HasRoom, Classical.not_imp, not_lt] at hc
  obtain ⟨hb, hfull⟩ := hc
  rw [hi.ring.stored, hi.ring.length_taken] at hfull
  have heq := Nat.le_antisymm hi.ring.room hfull
  intro hclean
  have hf := hclean.1 hb
  rw [hi.ring.next_taken heq] at hf
  exact Bool.noConfusion hf

/-- A run loses nothing, repeats nothing and keeps the order exactly when each of
its stores found one of the 26 places free. -/
theorem lossless_fifo_iff_room {tr : List (State × Event)} {s : State}
    (h : Run workers.step init tr s) :
    EachStep Clean tr ∧ Always Fifo tr s ↔ EachStep HasRoom tr :=
  h.good_iff inv_init (fun _ => Inv.fifo) (fun _ _ _ => inv_step)
    fun _ _ _ hi hc _ hq => not_clean hi hc hq.1

/-- Twenty-seven producers store one after the other, then a consumer takes. -/
def overrun : List Event :=
  (List.range 27).flatMap (fun i => [.spawn ⟨.producer, i⟩, .run i, .run i, .run i]) ++
    [.spawn ⟨.consumer, 27⟩, .run 27, .run 27]

instance (s : State) : Decidable (Fifo s) := by unfold Fifo; infer_instance

theorem fifo_fails : ¬ ∀ tr s, Run workers.step init tr s → Fifo s := by
  intro h
  exact absurd (h _ _ (run_of_isSome init overrun (by decide +kernel))) (by decide +kernel)

theorem lossless_fifo_iff_room_overrun :
    EachStep Clean (trace workers.step init overrun) ∧
        Always Fifo (trace workers.step init overrun)
          ((exec workers.step init overrun).get (by decide +kernel)) ↔
      EachStep HasRoom (trace workers.step init overrun) :=
  lossless_fifo_iff_room (run_of_isSome init overrun (by decide +kernel))

end OsLabs.Prodcons
