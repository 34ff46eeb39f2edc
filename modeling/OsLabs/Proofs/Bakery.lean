import OsLabs.Sanity.Bakery

/-! The bakery server serves the ticket holders first come first served, but it
also serves whoever has no ticket: an empty slot counts as the smallest number,
and the ticket a request carries is never looked at. -/

namespace OsLabs.Bakery

variable {α : Type} [Number α] {s s' : Server α}

/-- In every reachable state the tickets differ, the clients that hold one stand
in line in the order of their tickets, which is the order they were issued in,
and of them exactly the one in front, with the smallest ticket, gets past the
loop. -/
theorem first_come_first_served {tr : List (Server α × Request α)} (h : Run step init tr s) :
    (∀ i j, s.numbers i ≠ 0 → s.numbers j ≠ 0 → s.numbers i = s.numbers j → i = j) ∧
    ((∀ i, i ∈ line tr ↔ s.numbers i ≠ 0) ∧ InOrder s.numbers (line tr)) ∧
    (∀ i, s.numbers i ≠ 0 → (Passes s i ↔ (line tr).head? = some i)) ∧
    ((∃ i, s.numbers i ≠ 0) → ∃ i, (s.numbers i ≠ 0 ∧ Passes s i) ∧
      (∀ j, s.numbers j ≠ 0 → s.numbers i ≤ s.numbers j) ∧
      ∀ j, s.numbers j ≠ 0 → Passes s j → j = i) := by
  have hi := inv_run h
  refine ⟨fun i j h0 h1 he => hi.inOrder.injective ((hi.mem i).2 h0) ((hi.mem j).2 h1) he,
    ⟨hi.mem, hi.inOrder⟩, fun i h0 => hi.passes_iff_front h0, ?_⟩
  rintro ⟨a, ha⟩
  -- the line is not empty, so somebody is in front of it
  cases hq : line tr with
  | nil =>
    have := (hi.mem a).2 ha
    simp [hq] at this
  | cons i q =>
    have hf : (line tr).head? = some i := by rw [hq, List.head?_cons]
    have h0 : s.numbers i ≠ 0 := (hi.mem i).1 (by simp [hq])
    have hp := (hi.passes_iff_front h0).2 hf
    refine ⟨i, ⟨h0, hp⟩, (hi.passes_iff i).1 hp, fun j hj hpj => ?_⟩
    exact Option.some.inj (((hi.passes_iff_front hj).1 hpj).symm.trans hf)

/-- The request is served only on the ticket its slot holds, which it carries
and which is the smallest one outstanding. -/
def ServedOnTicket (s : Server α) (e : Request α) : Prop :=
  ∀ argp (i : Slot), e = .bakeryService argp → argp.idx = i.val → Passes s i →
    s.numbers i ≠ 0 ∧ s.numbers i = argp.num ∧ ∀ j, s.numbers j ≠ 0 → s.numbers i ≤ s.numbers j

/-- The slot of a service request holds a ticket, and the request carries it
unless a smaller ticket is outstanding. -/
def HoldsTicket (s : Server α) (e : Request α) : Prop :=
  ∀ argp (i : Slot), e = .bakeryService argp → argp.idx = i.val →
    s.numbers i ≠ 0 ∧ (s.numbers i = argp.num ∨ ∃ j, s.numbers j ≠ 0 ∧ s.numbers j < s.numbers i)

omit [Number α] in
theorem servedOnTicket_iff {q : List Slot} (hi : Inv s q) (e : Request α) :
    ServedOnTicket s e ↔ HoldsTicket s e := by
  refine forall_congr' fun argp => forall_congr' fun i => forall_congr' fun _ =>
    forall_congr' fun _ => ?_
  rw [hi.passes_iff]
  constructor
  · intro h
    by_cases hle : ∀ j, s.numbers j ≠ 0 → s.numbers i ≤ s.numbers j
    · obtain ⟨h0, hnum, -⟩ := h hle
      exact ⟨h0, .inl hnum⟩
    · simp only [not_forall, not_le] at hle
      obtain ⟨j, hj, hlt⟩ := hle
      have := hi.nonneg j
      exact ⟨by omega, .inr ⟨j, hj, hlt⟩⟩
  · rintro ⟨h0, hnum | ⟨j, hj, hlt⟩⟩ hle
    · exact ⟨h0, hnum, hle⟩
    · exact absurd (hle j hj) (not_le.2 hlt)

/-- The requests of a run are all served on tickets exactly when each of them
came from a slot with a ticket and carried it, or had to wait anyway. -/
theorem servedOnTicket_iff_holdsTicket {tr : List (Server α × Request α)}
    (h : Run step init tr s) : EachStep ServedOnTicket tr ↔ EachStep HoldsTicket tr := by
  have hiff : EachStep (fun s e => ServedOnTicket s e ↔ HoldsTicket s e) tr := by
    induction h with
    | nil => exact eachStep_nil
    | snoc hr _ ih => exact eachStep_snoc.2 ⟨ih, servedOnTicket_iff (inv_run hr) _⟩
  exact forall_congr' fun p => forall_congr' fun hp => hiff p hp

/-- Integers with a point at infinity, for concrete runs. -/
instance : Number (Option ℤ) where
  add x y := x.bind fun a => y.map (a + ·)
  sub x y := x.bind fun a => y.map (a - ·)
  mul x y := x.bind fun a => y.map (a * ·)
  div x y := x.bind fun a => y.map (a / ·)
  zero := some 0
  infinity := none

def request (idx num : ℤ) : REQUEST (Option ℤ) := ⟨7, idx, num, 0, some 2, some 3⟩

/-- Slot 0 takes ticket 1; slot 1, which never asked for one, is served. -/
def noTicket : List (Request (Option ℤ)) :=
  [.getNumber (request 0 0), .bakeryService (request 1 0)]

theorem noTicket_first : (step init (.getNumber (request 0 0))).isSome := by decide +kernel

theorem served_without_ticket :
    ¬ ∀ tr (s : Server (Option ℤ)), Run step init tr s → EachStep ServedOnTicket tr := by
  intro h
  have hr := h _ _ (run_of_isSome init noTicket (by decide +kernel))
  have hs := (eachStep_trace_cons.1 hr).2 _ (Option.some_get noTicket_first).symm
  have ht := (eachStep_trace_cons.1 hs).1 (request 1 0) 1 rfl rfl
    (show turnedAway _ _ = _ by decide +kernel)
  exact absurd ht.1 (by decide +kernel)

theorem servedOnTicket_iff_holdsTicket_noTicket :
    EachStep ServedOnTicket (trace step init noTicket) ↔
      EachStep HoldsTicket (trace step init noTicket) :=
  servedOnTicket_iff_holdsTicket (run_of_isSome init noTicket (by decide +kernel))

/-- Two clients take tickets and the later one asks too early. -/
def twoInLine : List (Request (Option ℤ)) :=
  [.getNumber (request 5 0), .getNumber (request 3 0), .bakeryService (request 3 2)]

theorem first_come_first_served_twoInLine :
    let tr := trace step init twoInLine
    let s := (exec step init twoInLine).get (by decide +kernel)
    (∀ i j, s.numbers i ≠ 0 → s.numbers j ≠ 0 → s.numbers i = s.numbers j → i = j) ∧
    ((∀ i, i ∈ line tr ↔ s.numbers i ≠ 0) ∧ InOrder s.numbers (line tr)) ∧
    (∀ i, s.numbers i ≠ 0 → (Passes s i ↔ (line tr).head? = some i)) ∧
    ((∃ i, s.numbers i ≠ 0) → ∃ i, (s.numbers i ≠ 0 ∧ Passes s i) ∧
      (∀ j, s.numbers j ≠ 0 → s.numbers i ≤ s.numbers j) ∧
      ∀ j, s.numbers j ≠ 0 → Passes s j → j = i) :=
  first_come_first_served (run_of_isSome init twoInLine (by decide +kernel))

end OsLabs.Bakery
