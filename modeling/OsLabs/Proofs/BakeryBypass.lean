import OsLabs.Proofs.Bakery
import Mathlib.Data.Fintype.Card

/-! How often a waiting client of the bakery is overtaken. A ticket issued later is a larger
one, so that only those who were before it in line when it got its ticket are served before it,
each of them once; to ask for another ticket costs a client its place. -/

namespace OsLabs.Bakery

variable {α : Type} [Number α] {s s' t : Server α}

def servedStep (s : Server α) : Request α → Option Slot
  | .getNumber _ => none
  | .bakeryService argp =>
    match slot argp.idx, turnedAway s argp.idx with
    | .ok i, .ok false => if s.numbers i = 0 then none else some i
    | _, _ => none

def served (tr : List (Server α × Request α)) : List Slot :=
  tr.filterMap fun p => servedStep p.1 p.2

omit [Number α] in
theorem served_snoc (tr : List (Server α × Request α)) (e : Request α) :
    served (tr ++ [(s, e)]) = served tr ++ (servedStep s e).toList := by
  rw [served, served, List.filterMap_append]
  cases h : servedStep s e <;> simp [h]

/-- A step that leaves client `i` its ticket serves nobody on one, or it serves the client in
front; and it puts nobody before `i`. -/
theorem ahead_step {e : Request α} {q : List Slot} (hi : Inv s q) (h : step s e = some s')
    {i : Slot} (h0 : s.numbers i ≠ 0) (hkept : s'.numbers i = s.numbers i) :
    ((servedStep s e).toList ++ ahead i (lineStep q s e)).Sublist (ahead i q) := by
  have hmem : i ∈ q := (hi.mem i).2 h0
  rcases step_cases h q with ⟨argp, k, rfl, -, hn, -, hq⟩ | ⟨argp, rfl, haway, -, -, hq⟩ |
    ⟨argp, k, rfl, hk, hpass, hn, -, hq⟩
  · have hki : k ≠ i := by
      rintro rfl
      rw [hn, Function.update_self] at hkept
      have hle := le_maxNumber s.numbers k
      omega
    rw [hq]
    exact ahead_join hmem hki
  · have hnone : servedStep s (.bakeryService argp) = none := by
      rw [servedStep, haway]
      cases slot argp.idx <;> rfl
    rw [hnone, hq]
    exact List.Sublist.refl _
  · have hki : k ≠ i := by
      rintro rfl
      rw [hn, Function.update_self] at hkept
      exact h0 hkept.symm
    have hslot : slot argp.idx = .ok k := slot_ok.2 hk
    have hserved : servedStep s (.bakeryService argp) =
        if s.numbers k = 0 then none else some k := by
      have ht : turnedAway s argp.idx = .ok false := by
        rw [hk]
        exact hpass
      rw [servedStep, hslot, ht]
    rw [hserved, hq]
    split_ifs with hzero
    · -- a client without a ticket does not stand in line
      have hout : k ∉ q := by
        rw [hi.mem]
        exact not_not_intro hzero
      rw [List.erase_of_not_mem hout]
      exact List.Sublist.refl _
    · cases q with
      | nil => simp at hmem
      | cons a q =>
        have hfront : (a :: q).head? = some k := (hi.passes_iff_front hzero).1 hpass
        obtain rfl : a = k := by simpa using hfront
        rw [List.erase_cons_head, ahead_cons hki]
        exact List.Sublist.refl _

/-- Those served while client `i` waits, and those it still waits for, were before it. -/
theorem ahead_run {tr tr' : List (Server α × Request α)} (h : Run step init tr t)
    (h' : Run step t tr' s) {i : Slot} (h0 : t.numbers i ≠ 0)
    (hwaits : Always (fun u => u.numbers i = t.numbers i) tr' s) :
    (served tr' ++ ahead i (line (tr ++ tr'))).Sublist (ahead i (line tr)) := by
  induction h' with
  | nil =>
    rw [List.append_nil]
    exact List.Sublist.refl _
  | @snoc tr' s e s' hr he ih =>
    obtain ⟨hwaits, hlast⟩ := always_snoc.1 hwaits
    have hsofar := hwaits.2
    have hline : line (tr ++ (tr' ++ [(s, e)])) = lineStep (line (tr ++ tr')) s e := by
      simp [line]
    have hstep := ahead_step (inv_run (h.append hr)) he (i := i) (by rw [hsofar]; exact h0)
      (by rw [hlast, hsofar])
    rw [served_snoc, hline, List.append_assoc]
    exact (List.Sublist.append_left hstep _).trans (ih hwaits)

/-- While a client waits for its turn, those served on their tickets held smaller ones already
when it had got its own, each of them is served once, in the order of the line, and the line
before the client is shorter by all of them. There are fewer of them than slots. -/
theorem overtaken_once {tr tr' : List (Server α × Request α)} (h : Run step init tr t)
    (h' : Run step t tr' s) {i : Slot} (h0 : t.numbers i ≠ 0)
    (hwaits : Always (fun u => u.numbers i = t.numbers i) tr' s) :
    (served tr' ++ ahead i (line (tr ++ tr'))).Sublist (ahead i (line tr)) ∧
    (served tr').Nodup ∧ (∀ j ∈ served tr', t.numbers j ≠ 0 ∧ t.numbers j < t.numbers i) ∧
    (served tr').length < MAX_CLNT_CNT := by
  have hi := inv_run h
  have hmem : i ∈ line tr := (hi.mem i).2 h0
  have hall := ahead_run h h' h0 hwaits
  have hserved : (served tr').Sublist (ahead i (line tr)) :=
    (List.sublist_append_left _ _).trans hall
  have hbefore : ∀ j ∈ served tr', t.numbers j ≠ 0 ∧ t.numbers j < t.numbers i := by
    intro j hj
    obtain ⟨hline, hlt⟩ := hi.inOrder.lt_of_mem_ahead hmem (hserved.subset hj)
    exact ⟨(hi.mem j).1 hline, hlt⟩
  have hnodup : (served tr').Nodup :=
    (hserved.trans (List.takeWhile_sublist _)).nodup hi.inOrder.nodup
  refine ⟨hall, hnodup, hbefore, ?_⟩
  -- the client itself is one of the slots and is not served
  have hself : i ∉ served tr' := fun hin => lt_irrefl _ (hbefore i hin).2
  have hcard := List.Nodup.length_le_card (List.nodup_cons.2 ⟨hself, hnodup⟩)
  rw [List.length_cons, Fintype.card_fin] at hcard
  exact hcard

/-- Slot 5 has got ticket 1 and slot 3 ticket 2. -/
def waiting : List (Request (Option ℤ)) := [.getNumber (request 5 0), .getNumber (request 3 0)]

/-- Slot 3 asks too early, slot 5 is served and comes back for more. -/
def overtaking : List (Request (Option ℤ)) :=
  [.bakeryService (request 3 2), .bakeryService (request 5 1), .getNumber (request 5 0),
    .bakeryService (request 5 3)]

theorem overtaken_once_twoTickets :
    let t := (exec step init waiting).get (by decide +kernel)
    let tr := trace step init waiting
    let tr' := trace step t overtaking
    (served tr' ++ ahead 3 (line (tr ++ tr'))).Sublist (ahead 3 (line tr)) ∧
    (served tr').Nodup ∧ (∀ j ∈ served tr', t.numbers j ≠ 0 ∧ t.numbers j < t.numbers 3) ∧
    (served tr').length < MAX_CLNT_CNT :=
  overtaken_once (run_of_isSome init waiting (by decide +kernel))
    (run_of_isSome ((exec step init waiting).get (by decide +kernel)) overtaking
      (by decide +kernel)) (by decide +kernel) ⟨by decide +kernel, by decide +kernel⟩

end OsLabs.Bakery
