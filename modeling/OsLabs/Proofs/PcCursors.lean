import OsLabs.Proofs.Pc

/-! Both cursors only move forward, so the segment is used up by the letters stored
since the start, however many of them have been read. -/

namespace OsLabs.Pc

open Section

def producersPassed (s : State) : ℕ := passed (· = .producer) s

/-- The invariant of the runs that stay inside: no more producers got in than there are
bytes. -/
structure Fits (s : State) : Prop where
  inv : Inv s
  passed : producersPassed s ≤ SEGMENT - (PTR + PTR)

theorem producersPassed_eq (s : State) : producersPassed s =
    countKind id .producer s.bodies +
      s.procs.countP (fun p => p.role = .producer && p.phase = .entered) := rfl

theorem produced_length {s : State} (h : Inv s) :
    s.data.produced.length = countKind id .producer s.bodies := by
  rw [h.seg.produced, List.length_map, List.length_range]

theorem Fits.inSegment {s : State} (h : Fits s) : InSegment s := by
  obtain ⟨hi, hpassed⟩ := h
  rw [producersPassed_eq] at hpassed
  rintro ⟨r, ph⟩ hp rfl
  cases r with
  | producer =>
    have hpos : 0 < s.procs.countP fun p => p.role = .producer && p.phase = .entered :=
      List.countP_pos_iff.2 ⟨_, hp, rfl⟩
    simp only [cursor, hi.seg.prodCur, cell, PTR, SEGMENT] at hpassed ⊢
    omega
  | consumer =>
    -- it reads a letter that was stored
    obtain ⟨k, hk⟩ := List.mem_iff_getElem?.1 hp
    have hlt := pc_buffers.consumer_entered hi.ledger rfl hk rfl
    simp only [cursor, hi.seg.consCur, cell, PTR, SEGMENT] at hpassed ⊢
    omega

/-- A producer that gets in finds nobody else inside, so that all of those before it
have stored their letter. -/
theorem passed_of_enter {s s' : State} {k : ℕ} (hi : Inv s)
    (h : pc.step s (.run k) = some s') (hk : s.procs[k]? = some ⟨.producer, .outside⟩) :
    producersPassed s = s.data.produced.length := by
  have hexcl : inBody s' ≤ 1 := pc_buffers.exclusive (inv_step hi h).ledger rfl
  obtain ⟨sem, -, rfl⟩ := pc.step_outside hk h
  have hcount := insideCount_set (f := fun _ => true) hk .entered
  have hle : (s.procs.countP fun p => p.role = .producer && p.phase = .entered) ≤
      insideCount (fun _ => true) s.procs := by
    refine List.countP_mono_left ?_
    rintro ⟨r, ph⟩ - hp
    simp only [Bool.and_eq_true, decide_eq_true_eq] at hp
    rw [hp.2]
    rfl
  simp only [inBody, State.goto_procs] at hexcl
  simp only [Phase.inside_outside, Phase.inside_entered, Bool.true_and, Bool.false_eq_true,
    if_false, if_true] at hcount
  rw [producersPassed_eq, produced_length hi]
  omega

theorem fits_step {s s' : State} {e : Event} (hs : Fits s) (hroom : ByteLeft s e)
    (h : pc.step s e = some s') : Fits s' := by
  refine ⟨inv_step hs.inv h, ?_⟩
  obtain hsame | ⟨k, r, rfl, hk, hr, hone⟩ := pc.passed_step (f := (· = .producer)) h
  · rw [producersPassed, hsame]
    exact hs.passed
  · obtain rfl : r = .producer := of_decide_eq_true hr
    have hlen := passed_of_enter hs.inv h hk
    have hlt := hroom k rfl hk
    rw [producersPassed] at hlen ⊢
    omega

theorem not_inSegment_step {s s' : State} {e : Event} (hs : Fits s) (hroom : ¬ ByteLeft s e)
    (h : pc.step s e = some s') : ¬ InSegment s' := by
  simp only [ByteLeft, not_forall, Nat.not_lt] at hroom
  obtain ⟨k, rfl, hk, hfull⟩ := hroom
  obtain ⟨sem, -, rfl⟩ := pc.step_outside hk h
  intro hin
  have hlt := (hin ⟨.producer, .entered⟩ (List.mem_of_getElem? (get_set hk _)) rfl).2
  rw [produced_length hs.inv] at hfull
  simp only [cursor, State.goto, hs.inv.seg.prodCur, cell, PTR, SEGMENT] at hlt hfull
  omega

/-- The accesses stay in the segment exactly as long as no producer gets in once 4080
letters are stored. -/
theorem cursors_in_segment_iff {tr : List (State × Event)} {s : State}
    (h : Run pc.step init tr s) : Always InSegment tr s ↔ EachStep ByteLeft tr := by
  have h0 : Fits init := ⟨inv_init, by decide⟩
  exact h.always_iff h0 (fun _ => Fits.inSegment) (fun _ _ _ => fits_step)
    (fun _ _ _ => not_inSegment_step)

theorem cursors_in_segment_oneLetter :
    Always InSegment (trace pc.step init oneLetter)
        ((exec pc.step init oneLetter).get (by decide)) ↔
      EachStep ByteLeft (trace pc.step init oneLetter) :=
  cursors_in_segment_iff (run_of_isSome init oneLetter (by decide))

/-- A producer and a consumer between two turns, with `n` letters stored and read. -/
structure Rest (n : ℕ) (s : State) : Prop where
  sem : s.sem = semInit
  procs : s.procs = [⟨.producer, .outside⟩, ⟨.consumer, .outside⟩]
  prodCur : s.data.prodCur = cell n
  consCur : s.data.consCur = cell n

/-- The semaphores after a turn of the producer. -/
def semStored : Sem → ℕ
  | .SB => 1
  | .SE => 25
  | .SF => 1

theorem producer_sem : ∃ sem, semop semInit producerLock = .done sem ∧
    semop sem producerRelease = .done semStored := by
  refine ⟨_, rfl, ?_⟩
  refine congrArg Semop.done (funext fun i => ?_)
  cases i <;> rfl

theorem consumer_sem : ∃ sem, semop semStored consumerLock = .done sem ∧
    semop sem consumerRelease = .done semInit := by
  refine ⟨_, rfl, ?_⟩
  refine congrArg Semop.done (funext fun i => ?_)
  cases i <;> rfl

theorem producer_cursors {m : Seg} (h : m.prodCur < SEGMENT) :
    ∃ m', producer m = some m' ∧ m'.prodCur = m.prodCur + 1 ∧ m'.consCur = m.consCur := by
  rw [producer, if_pos h]
  exact ⟨_, rfl, rfl, rfl⟩

theorem consumer_cursors {m : Seg} (h : m.consCur < SEGMENT) :
    ∃ m', consumer m = some m' ∧ m'.prodCur = m.prodCur ∧ m'.consCur = m.consCur + 1 := by
  rw [consumer, if_pos h]
  exact ⟨_, rfl, rfl, rfl⟩

/-- The producer stores a letter, and the consumer reads it. -/
theorem Rest.round {n : ℕ} {s : State} (h : Rest n s) (hn : cell n < SEGMENT) :
    ∃ tr s', Run pc.step s tr s' ∧ Rest (n + 1) s' := by
  obtain ⟨sem, hlock, hrelease⟩ := producer_sem
  obtain ⟨sem', hlock', hrelease'⟩ := consumer_sem
  obtain ⟨m, hm, hp, hc⟩ := producer_cursors (h.prodCur ▸ hn)
  obtain ⟨m', hm', hp', hc'⟩ := consumer_cursors (hc ▸ h.consCur ▸ hn)
  have hk : s.procs[0]? = some ⟨.producer, .outside⟩ := by rw [h.procs]; rfl
  have hk' : s.procs[1]? = some ⟨.consumer, .outside⟩ := by rw [h.procs]; rfl
  obtain ⟨tr, hrun⟩ := pc.run_turn rfl hk (h.sem ▸ hlock) hm hrelease
  obtain ⟨tr', hrun'⟩ := pc.run_turn (r := .consumer) (s := { s with
    sem := semStored, data := m, bodies := s.bodies ++ [.producer],
    releases := s.releases ++ [.producer] }) rfl hk' hlock' hm' hrelease'
  refine ⟨tr ++ tr', _, hrun.append hrun', rfl, h.procs, ?_, ?_⟩
  · rw [hp', hp, h.prodCur, cell, cell, Nat.add_assoc]
  · rw [hc', hc, h.consCur, cell, cell, Nat.add_assoc]

theorem rest_init : ∃ tr s, Run pc.step init tr s ∧ Rest 0 s :=
  ⟨_, _, (Run.nil.snoc (e := .spawn .producer) rfl).snoc (e := .spawn .consumer) rfl,
    rfl, rfl, rfl, rfl⟩

theorem rest_reachable (n : ℕ) (hn : cell n ≤ SEGMENT) :
    ∃ tr s, Run pc.step init tr s ∧ Rest n s := by
  induction n with
  | zero => exact rest_init
  | succ n ih =>
    have hlt : cell n < SEGMENT := by
      simp only [cell] at hn ⊢
      omega
    obtain ⟨tr, s, hrun, hrest⟩ := ih hlt.le
    obtain ⟨tr', s', hrun', hrest'⟩ := hrest.round hlt
    exact ⟨tr ++ tr', s', hrun.append hrun', hrest'⟩

/-- The producer gets in after 4080 letters, all of them read. -/
theorem cursors_in_segment_fails :
    ¬ ∀ (tr : List (State × Event)) (s : State), Run pc.step init tr s →
      Always InSegment tr s := by
  intro h
  obtain ⟨tr, s, hrun, hrest⟩ := rest_reachable 4080 (by decide)
  obtain ⟨sem, hlock, -⟩ := producer_sem
  have hk : s.procs[0]? = some ⟨.producer, .outside⟩ := by
    rw [hrest.procs]
    rfl
  have hstep := pc.step_lock hk (hrest.sem ▸ hlock)
  have hin := (h _ _ (hrun.snoc hstep)).2
  have hlt := (hin ⟨.producer, .entered⟩ (List.mem_of_getElem? (get_set hk _)) rfl).2
  simp only [cursor, State.goto, hrest.prodCur] at hlt
  exact absurd hlt (by decide)

end OsLabs.Pc
