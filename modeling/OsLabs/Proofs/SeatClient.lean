import OsLabs.Proofs.SeatClientTurns
import OsLabs.Proofs.SeatsSnapshot

/-! Index -1 means sold out. A snapshot is as old as it may be, but a cell that is sold in
it is sold for good, so a thread that finds no letter in a whole snapshot knows all there
is to know, and so does every thread that sends the index it left in the global. -/

namespace OsLabs.SeatClient

open Seats (shmInit)

/-- The characters of some earlier buffer: what is sold there is sold in `shmBuf`. -/
def Snapshot (shmBuf : Cells) (bytes : List Char) : Prop :=
  ∃ old : Cells, bytes = List.ofFn old ∧ (∀ cell, old cell = shmInit cell ∨ old cell = '-') ∧
    ∀ cell, old cell = '-' → shmBuf cell = '-'

theorem Snapshot.later {shmBuf shmBuf' : Cells} {bytes : List Char} (h : Snapshot shmBuf bytes)
    (hsold : ∀ cell, shmBuf cell = '-' → shmBuf' cell = '-') : Snapshot shmBuf' bytes := by
  obtain ⟨old, hbytes, hold, hle⟩ := h
  refine ⟨old, hbytes, hold, ?_⟩
  intro cell hc
  exact hsold cell (hle cell hc)

theorem Snapshot.length {shmBuf : Cells} {bytes : List Char} (h : Snapshot shmBuf bytes) :
    bytes.length = SHM_BUFFER_SIZE := by
  obtain ⟨old, rfl, -, -⟩ := h
  rw [List.length_ofFn]
  rfl

theorem Snapshot.nul_notMem {shmBuf : Cells} {bytes : List Char} (h : Snapshot shmBuf bytes) :
    NUL ∉ bytes := by
  obtain ⟨old, rfl, hold, -⟩ := h
  rw [List.mem_ofFn]
  rintro ⟨cell, hc⟩
  rcases hold cell with h0 | h0
  · exact Seats.shmInit_ne_nul cell (h0.symm.trans hc)
  · rw [h0] at hc
    exact absurd hc (by decide)

/-- The index -1 comes out of a whole snapshot only when every cell is sold. -/
theorem Snapshot.sold {shmBuf : Cells} {bytes : List Char} (h : Snapshot shmBuf bytes)
    (hidx : Int8.ofInt (findFirstUnoccupiedIndex (bufferOf bytes)) = -1)
    (cell : Fin Seats.SHM_BUFFER_SIZE) : shmBuf cell = '-' := by
  have hstr : cString (bufferOf bytes) = bytes :=
    (cString_bufferOf h.length.le).trans (cString_of_notMem h.nul_notMem)
  rcases findFirstUnoccupiedIndex_cases (bufferOf bytes) with ⟨-, hnone⟩ | ⟨pos, hpos, hlt⟩
  · obtain ⟨old, rfl, hold, hle⟩ := h
    rw [hstr] at hnone
    apply hle
    rcases hold cell with h0 | h0
    · have hno := hnone (old cell) (List.mem_ofFn.2 ⟨cell, rfl⟩)
      rw [h0, letter_shmInit] at hno
      exact absurd hno (by decide)
    · exact h0
  · rw [hstr, h.length] at hlt
    rw [hpos] at hidx
    have hpos52 : pos < 52 := hlt
    have htoInt := Int8.toInt_ofInt_of_le (n := pos) (by omega) (by omega)
    rw [hidx] at htoInt
    have hneg : (-1 : Int8).toInt = -1 := by decide
    omega

namespace System

variable {s s' : System}

/-- The invariant of the runs whose threads compute from whole snapshots. -/
structure Inv (s : System) : Prop where
  snap : Seats.Snap s.server
  sent : ∀ p ∈ s.server.sentBuf, Snapshot s.server.shmBuf p.2
  received : ∀ t ∈ s.client.threads, ∀ received, t.phase = .compute received →
    received.length = SHM_BUFFER_SIZE → Snapshot s.server.shmBuf received
  global : s.client.firstUnoccupiedIdx = -1 → s.SoldOut

theorem inv_init : Inv init where
  snap := Seats.snap_init
  sent p hp := by simp [init, Seats.init] at hp
  received t ht := by simp [init, SeatClient.init] at ht
  global h := absurd h (by decide)

theorem shmBuf_mono {s s' : Seats.State} {v : Seats.Server} {e : Seats.Event}
    (h : Seats.step v s e = some s') (cell : Fin Seats.SHM_BUFFER_SIZE)
    (hc : s.shmBuf cell = '-') : s'.shmBuf cell = '-' := by
  rcases Seats.shmBuf_step h with hbuf | ⟨-, -, -, c, -, -, hbuf⟩
  · rw [hbuf]
    exact hc
  · rw [hbuf, Function.update_apply]
    split_ifs
    · rfl
    · exact hc

theorem soldOut_step {e : Event} (hs : s.SoldOut) (h : step s e = some s') : s'.SoldOut := by
  cases e with
  | server e =>
    simp only [step] at h
    split_ifs at h
    obtain ⟨server, he, rfl⟩ := Option.map_eq_some_iff.1 h
    intro cell
    exact shmBuf_mono he cell (hs cell)
  | client e =>
    simp only [step] at h
    split_ifs at h
    obtain ⟨client, -, rfl⟩ := Option.map_eq_some_iff.1 h
    exact hs

theorem Inv.server {e : Seats.Event} (hi : Inv s) {server : Seats.State}
    (h : Seats.step .pthread s.server e = some server) : Inv { s with server } := by
  have hmono := shmBuf_mono h
  have hsnap := Seats.snap_step hi.snap h
  refine ⟨hsnap, ?_, ?_, ?_⟩
  · have hold : ∀ p ∈ s.server.sentBuf, Snapshot server.shmBuf p.2 := by
      intro p hp
      exact (hi.sent p hp).later hmono
    rcases Seats.sentBuf_step h with hsent | ⟨k, g, buffer, -, hk, hp, hsent⟩
    · rw [hsent]
      exact hold
    · rw [hsent, List.forall_mem_append]
      refine ⟨hold, ?_⟩
      intro p hmem
      obtain rfl := List.mem_singleton.1 hmem
      -- what is sent is the buffer of this very moment
      have hcopied := hi.snap.copied g (List.mem_of_getElem? hk)
      rw [hp] at hcopied
      exact ⟨s.server.shmBuf, hcopied, hi.snap.cells, hmono⟩
  · intro t ht received hp hlen
    exact (hi.received t ht received hp hlen).later hmono
  · intro hg cell
    exact hmono cell (hi.global hg cell)

theorem inv_step {e : Event} (hi : Inv s) (hw : s.WholeSnapshot e) (h : step s e = some s') :
    Inv s' := by
  cases e with
  | server e =>
    simp only [step] at h
    split_ifs at h
    obtain ⟨server, he, rfl⟩ := Option.map_eq_some_iff.1 h
    exact hi.server he
  | client e =>
    simp only [step] at h
    split_ifs at h with hallow
    obtain ⟨client, he, rfl⟩ := Option.map_eq_some_iff.1 h
    refine ⟨hi.snap, hi.sent, ?_, ?_⟩
    · intro t' ht' received hp hlen
      rcases step_computing he ht' hp with ht | ⟨j, t, rfl, hj, hphase⟩
      · exact hi.received t' ht received hp hlen
      · -- 52 characters received are all that the server has sent
        obtain ⟨u, hu, hrecv⟩ := hallow
        obtain rfl : t = u := Option.some.inj (hj.symm.trans hu)
        simp only [Receives, hphase] at hrecv
        rcases hrecv with ⟨-, -, p, hmem, -, hpre⟩ | ⟨hnil, -⟩
        · have hsnap := hi.sent p hmem
          rw [hpre.eq_of_length (hlen.trans hsnap.length.symm)]
          exact hsnap
        · rw [hnil] at hlen
          exact absurd hlen (by decide)
    · intro hneg
      rcases step_global he with hsame | ⟨j, t, received, rfl, hj, hphase, hset⟩
      · exact hi.global (hsame.symm.trans hneg)
      · have hlen := hw j t received rfl hj hphase
        have hsnap := hi.received t (List.mem_of_getElem? hj) received hphase hlen
        intro cell
        exact hsnap.sold (hset.symm.trans hneg) cell

/-- Whenever a thread sends the index -1, every cell is sold, then and for the rest of the
run. -/
theorem minus_one_means_sold_out {tr : List (System × Event)} (h : Run step init tr s)
    (hw : EachStep WholeSnapshot tr) {before after : List (System × Event)} {t : System}
    {e : Event} (hsplit : tr = before ++ (t, e) :: after) (hsend : t.SendsMinusOne e) :
    t.SoldOut ∧ Always SoldOut after s := by
  have hinv : Always Inv tr s :=
    h.always_of_eachStep inv_init (fun _ _ _ hi hw he => inv_step hi hw he) hw
  obtain ⟨-, -, -, -, -, hneg⟩ := hsend
  have hsold := (hinv.1 (t, e) (by simp [hsplit])).global hneg
  exact ⟨hsold, h.stays (fun _ _ _ hs he => soldOut_step hs he) hsplit hsold⟩

/-- A client that is alone buys all the seats, each after a look at the buffer, and looks once
more. -/
theorem minus_one_means_sold_out_oneClient :
    ∃ (tr : List (System × Event)) (s t : System) (e : Event), Run step init (tr ++ [(t, e)]) s ∧
      EachStep WholeSnapshot (tr ++ [(t, e)]) ∧ t.SendsMinusOne e ∧
      t.SoldOut ∧ Always SoldOut ([] : List (System × Event)) s := by
  obtain ⟨t, s, ⟨tr, hrun, hwhole⟩, hsend, hstep⟩ := asks_for_none
  have hrun' := hrun.snoc hstep
  have hwhole' := eachStep_snoc.2
    ⟨hwhole, wholeSnapshot_of_ne (e := .client (.send 0 true)) (by simp) t⟩
  exact ⟨tr, s, t, _, hrun', hwhole', hsend, minus_one_means_sold_out hrun' hwhole' rfl hsend⟩

end System

end OsLabs.SeatClient
