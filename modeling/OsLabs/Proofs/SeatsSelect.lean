import OsLabs.Proofs.SeatsSerial
import OsLabs.Proofs.SelectReplies

/-! The three seat servers sell alike: what the threaded and the forked one sell to their clients
is what the server with `select` sells to the same clients in the order of their points. -/

namespace OsLabs.Seats

open SelectServer (Request Local Desk OP_WRITER clientService writer writer_cases)
open SeatClient (NUL STR_BUFFER_SIZE)

variable {v : Server} {s : State} {tr : List (State × Event)} {d : Desk}

def Ask.Sendable : Ask → Prop
  | .read => True
  | .write idx => ∃ i : Int8, i.toInt = idx

theorem Asked.sendable {k : ℕ} {a : Ask} (h : Asked tr k a) : a.Sendable := by
  cases a with
  | read => trivial
  | write idx =>
    obtain ⟨s, i, -, hi⟩ := h
    exact ⟨i, hi⟩

theorem desk_serve (hnul : ∀ i, d.shmBuf i ≠ NUL) {i : ℕ × Ask} (ha : i.2.Sendable)
    {e : Request × Local} (he : e.1 = i.2.request) :
    (d.serve e).shmBuf = (serveAlone v d.shmBuf i.2).1 ∧
      (d.serve e).bookings =
        d.bookings ++ (sale (i, (serveAlone v d.shmBuf i.2).2)).toList := by
  rw [Desk.bookings_serve, Desk.serve]
  obtain ⟨k, a⟩ := i
  cases a with
  | read =>
    rw [he]
    exact ⟨rfl, rfl⟩
  | write idx =>
    obtain ⟨i, rfl⟩ := ha
    have hreq : e.1 = ⟨some OP_WRITER, some i⟩ := by
      rw [he, Ask.request, Int8.ofInt_toInt]
      rfl
    have hserve : clientService d.shmBuf e.1.op e.1.idx e.2 =
        ⟨(writer d.shmBuf i.toInt e.2).1, [(writer d.shmBuf i.toInt e.2).2.1], 2, 1,
          (writer d.shmBuf i.toInt e.2).2.2⟩ := by
      rw [hreq]
      rfl
    have hbooking : ∀ r : SelectServer.Served, r.sent = [(writer d.shmBuf i.toInt e.2).2.1] →
        Desk.booking (e.1, r) =
          (Desk.letterOf (writer d.shmBuf i.toInt e.2).2.1).map (i.toInt, ·) := by
      intro r hr
      simp [Desk.booking, hreq, hr]
    rw [hserve, hbooking _ rfl]
    obtain ⟨hout, hwriter⟩ | ⟨cell, hi, hsold, hwriter⟩ | ⟨cell, hi, hfree, hwriter⟩ :=
      writer_cases d.shmBuf i.toInt
    · have hnot : ¬ (0 ≤ i.toInt ∧ i.toInt < SHM_BUFFER_SIZE) := by omega
      rw [hwriter, Desk.letterOf_reply (by decide +kernel) (by decide +kernel)]
      simp only [serveAlone, dif_neg hnot]
      exact ⟨trivial, rfl⟩
    · rw [hwriter, Desk.letterOf_reply (by decide +kernel) (by decide +kernel), hi,
        serveAlone_cell, if_pos hsold]
      exact ⟨rfl, rfl⟩
    · have hletter : NUL ∉ [d.shmBuf cell] := by
        rw [List.mem_singleton]
        exact (hnul cell).symm
      rw [hwriter, Desk.letterOf_reply (show 1 < STR_BUFFER_SIZE by decide) hletter, hi,
        serveAlone_cell, if_neg hfree]
      exact ⟨rfl, rfl⟩

/-- A writer that stores what it has read too long ago sells what is sold. -/
theorem stale_point {e : Event} {i : ℕ × Ask} {o : Answer} (hl : Loaded s)
    (hp : point v s e = some (i, o)) (hf : ¬ Fresh s e) :
    (∃ p, sale (i, o) = some p) ∧ sale (i, (serveAlone v s.shmBuf i.2).2) = none := by
  obtain ⟨k, a⟩ := i
  obtain ⟨h, rfl, hk, hcases⟩ := point_cases hp
  have hstore : ∃ idx cell ch, h.phase = .store idx cell ch ∧ s.shmBuf cell ≠ ch := by
    by_contra hn
    push Not at hn
    apply hf
    rintro j g idx cell ch hj hg hph
    obtain rfl := Event.run.inj hj
    obtain rfl : h = g := Option.some.inj (hk.symm.trans hg)
    exact hn idx cell ch hph
  obtain ⟨idx, cell, ch, hph, hne⟩ := hstore
  have hread := hl h (List.mem_of_getElem? hk)
  rw [hph] at hread
  obtain ⟨rfl, hread⟩ := hread
  have hsold := hread.resolve_left hne
  have hch : ch ≠ '-' := by
    rintro rfl
    exact hne hsold
  rw [point_store hk hph, if_neg hch] at hp
  obtain ⟨⟨-, rfl⟩, rfl⟩ := (by simpa using hp : (True ∧ .write _ = a) ∧ _ = o)
  refine ⟨⟨_, rfl⟩, ?_⟩
  rw [serveAlone_cell, if_pos hsold]
  rfl

/-- The same clients in the same order at the other server, whatever the array on its stack
holds. -/
theorem desk_run (h : Run (step v) init tr s) {es : List (Request × Local)}
    (hes : es.map Prod.fst = (effects (point v) tr).map fun p => p.1.2.request) :
    (Desk.serveAll shmInit es).shmBuf = s.shmBuf ∧
      (EachStep Fresh tr →
        (Desk.serveAll shmInit es).bookings = (effects (point v) tr).filterMap sale) ∧
      (Desk.serveAll shmInit es).bookings.length ≤
        ((effects (point v) tr).filterMap sale).length ∧
      (¬ EachStep Fresh tr → (Desk.serveAll shmInit es).bookings.length <
        ((effects (point v) tr).filterMap sale).length) := by
  induction h generalizing es with
  | nil =>
    obtain rfl : es = [] := List.map_eq_nil_iff.1 hes
    exact ⟨rfl, fun _ => rfl, Nat.le_refl _, fun hn => absurd eachStep_nil hn⟩
  | @snoc tr s e s' hr he ih =>
    rw [effects_snoc] at hes ⊢
    rw [eachStep_snoc]
    cases hp : point v s e with
    | none =>
      obtain ⟨hsame, hfresh⟩ := quiet_step he hp
      rw [hp, Option.toList_none, List.append_nil] at hes
      rw [Option.toList_none, List.append_nil, hsame, and_iff_left hfresh]
      exact ih hes
    | some p =>
      obtain ⟨i, o⟩ := p
      rw [hp, Option.toList_some, List.map_append] at hes
      obtain ⟨es, es', rfl, hinit, hone⟩ := List.map_eq_append_iff.1 hes
      obtain ⟨e', rfl, he'⟩ := List.map_eq_singleton_iff.1 hone
      obtain ⟨hbuf, hsame, hle, hlt⟩ := ih hinit
      have hnul : ∀ i, (Desk.serveAll shmInit es).shmBuf i ≠ NUL := by
        rw [hbuf]
        exact (snap_run hr).cells.ne_nul
      have hsend := ((served_run hr).at_point hp).2.sendable
      obtain ⟨hbuf', hbookings⟩ := desk_serve (v := v) hnul hsend he'
      obtain ⟨hnext, hdue⟩ := point_step (snap_run hr) (loaded_run hr) he hp
      rw [hbuf] at hbuf' hbookings
      rw [Desk.serveAll_snoc, hbuf', hbookings, hnext, Option.toList_some,
        List.filterMap_append, List.length_append, List.length_append]
      have hlast : [(i, o)].filterMap sale = (sale (i, o)).toList := by
        cases hsale : sale (i, o) <;> simp [hsale]
      rw [hlast]
      by_cases hf : Fresh s e
      · rw [hdue.2 hf]
        refine ⟨rfl, fun hall => by rw [hsame hall.1], Nat.add_le_add_right hle _, ?_⟩
        intro hn
        exact Nat.add_lt_add_right (hlt fun hall => hn ⟨hall, hf⟩) _
      · obtain ⟨⟨p, hsold⟩, hnone⟩ := stale_point (loaded_run hr) hp hf
        rw [hsold, hnone]
        refine ⟨rfl, fun hall => absurd hall.2 hf, Nat.le_succ_of_le hle, fun _ => ?_⟩
        exact Nat.lt_succ_of_le hle

/-- The server with `select` goes on behind a request for a cell. -/
theorem serve_not_raised (d : Desk) {a : Ask} (ha : a.Sendable) (hin : a.InRange)
    {e : Request × Local} (he : e.1 = a.request) :
    (clientService d.shmBuf e.1.op e.1.idx e.2).raised = false := by
  rw [he]
  cases a with
  | read => rfl
  | write idx =>
    obtain ⟨i, rfl⟩ := ha
    have hserve : (clientService d.shmBuf (Ask.write i.toInt).request.op
        (Ask.write i.toInt).request.idx e.2).raised = (writer d.shmBuf i.toInt e.2).2.2 := by
      rw [Ask.request, Int8.ofInt_toInt]
      rfl
    rw [hserve]
    obtain ⟨hout, -⟩ | ⟨cell, -, -, hwriter⟩ | ⟨cell, -, -, hwriter⟩ :=
      writer_cases d.shmBuf i.toInt
    · exact absurd hin (by rw [Ask.InRange]; omega)
    · rw [hwriter]
    · rw [hwriter]

/-- Where the writers ask for cells only, the server with `select` serves the same clients to
the last one. The threaded and the forked server leave the buffer as it leaves it, and sell what
it sells just when no writer stores what it has read too long ago. -/
theorem sells_as_select (v : Server) (h : Run (step v) init tr s)
    (hin : ∀ p ∈ effects (point v) tr, p.1.2.InRange) (es : List (Request × Local))
    (hes : es.map Prod.fst = (effects (point v) tr).map fun p => p.1.2.request) :
    (∀ p ∈ (Desk.serveAll shmInit es).log, p.2.raised = false) ∧
      (Desk.serveAll shmInit es).shmBuf = s.shmBuf ∧
      ((Desk.serveAll shmInit es).bookings = (effects (point v) tr).filterMap sale ↔
        EachStep Fresh tr) := by
  obtain ⟨hbuf, hsame, -, hlt⟩ := desk_run h hes
  refine ⟨?_, hbuf, ?_, hsame⟩
  · refine Desk.log_serveAll (P := fun r => r.raised = false) shmInit ?_
    intro e he d
    obtain ⟨p, hp, hreq⟩ := List.mem_map.1 (hes ▸ List.mem_map_of_mem (f := Prod.fst) he)
    exact serve_not_raised d ((served_run h).asked p hp).sendable (hin p hp) hreq.symm
  · intro heq
    by_contra hn
    have hless := hlt hn
    rw [heq] at hless
    exact Nat.lt_irrefl _ hless

/-- Both handlers read the seat before either takes it. -/
def seatSoldTwice : List Event :=
  [.accept, .accept, .recvOp 0 (some 'w'), .recvIdx 0 (some 3), .recvOp 1 (some 'w'),
    .recvIdx 1 (some 3), .run 0, .run 1, .run 0, .run 1, .run 1, .run 0]

theorem sells_as_select_seatSoldTwice :
    let tr := trace (step .fork) init seatSoldTwice
    let es : List (Request × Local) :=
      List.replicate 2 (⟨some 'w', some 3⟩, SelectServer.filled 'x')
    (effects (point .fork) tr).filterMap sale = [(3, 'd'), (3, 'd')] ∧
      (Desk.serveAll shmInit es).bookings = [(3, 'd')] ∧ ¬ EachStep Fresh tr := by
  have hsold := sells_as_select .fork (run_of_isSome init seatSoldTwice (by decide)) (by decide)
    (List.replicate 2 (⟨some 'w', some 3⟩, SelectServer.filled 'x')) (by decide)
  have htwice : (effects (point .fork) (trace (step .fork) init seatSoldTwice)).filterMap sale =
      [(3, 'd'), (3, 'd')] := by decide
  have honce : (Desk.serveAll shmInit (List.replicate 2
      (⟨some 'w', some 3⟩, SelectServer.filled 'x'))).bookings = [(3, 'd')] := by decide +kernel
  refine ⟨htwice, honce, ?_⟩
  intro hfresh
  have heq := hsold.2.2.2 hfresh
  rw [htwice, honce] at heq
  cases heq

end OsLabs.Seats
