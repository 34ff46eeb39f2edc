import OsLabs.Spec.Letters

/-! Mutual exclusion in the monitor. What a step does is said once, by the places of the
threads in the letters' model. While the exclusion holds, `active_readers` counts the
readers inside and `writing` tells whether a writer is. Neither start routine looks
again at what it tested before it waited, and it is in those places, and only there,
that a thread can go in when it should not. -/

namespace OsLabs.Monitor

open Letters (place lettersOf)

variable {s s' : State} {e : Event} {k : ℕ} {wake : Option ℕ} {t u : Thread}

/-- The threads' places, the letters and what the variables say of them are the same. -/
structure Alike (s s' : State) : Prop where
  active_readers : s'.active_readers = s.active_readers
  writing : s'.writing = s.writing
  letters : lettersOf s' = lettersOf s

theorem lettersOf_get (hk : s.threads[k]? = some t) :
    (lettersOf s).threads[k]? = some (place t) := by
  simp [lettersOf, hk]

theorem lettersOf_goto (s : State) (k : ℕ) (t : Thread) :
    lettersOf (s.goto k t) = (lettersOf s).goto k (place t) := by
  simp [lettersOf, State.goto, Letters.State.goto, List.map_set]

theorem setCanRead_alike (h : setCanRead wake s = some s') : Alike s s' := by
  obtain ⟨⟨can_read, threads⟩, hset, rfl⟩ := Option.map_eq_some_iff.1 h
  exact ⟨rfl, rfl, by simp only [lettersOf, map_setEvent_eq (f := place) hset rfl]⟩

theorem setCanWrite_alike (h : setCanWrite wake s = some s') : Alike s s' := by
  obtain ⟨⟨can_write, threads⟩, hset, rfl⟩ := Option.map_eq_some_iff.1 h
  exact ⟨rfl, rfl, by simp only [lettersOf, map_setEvent_eq (f := place) hset rfl]⟩

theorem alike_set (hk : s.threads[k]? = some t) (ht : s'.threads = s.threads.set k u)
    (hu : place u = place t) (ha : s'.active_readers = s.active_readers)
    (hw : s'.writing = s.writing) (hch : s'.ch = s.ch) (hp : s'.printed = s.printed) :
    Alike s s' := by
  refine ⟨ha, hw, ?_⟩
  simp only [lettersOf, hch, hp, ht, map_set place hk hu]

/-- All a step can do, and what `Rechecks` asks of it. -/
inductive Goes (s : State) (e : Event) (s' : State) : Prop
  | creates {r : Role} (hc : Rechecks s e) (active_readers : s'.active_readers = s.active_readers)
      (writing : s'.writing = s.writing)
      (letters : lettersOf s' =
        { lettersOf s with threads := (lettersOf s).threads ++ [Letters.newThread r] })
  | stays (hc : Rechecks s e) (h : Alike s s')
  | readerEnters {k : ℕ} (hk : (lettersOf s).threads[k]? = some (.reader .outside))
      (hc : Rechecks s e ↔ s.writing = false)
      (active_readers : s'.active_readers = s.active_readers + 1) (writing : s'.writing = s.writing)
      (letters : lettersOf s' = (lettersOf s).goto k (.reader .entered))
  | reads {k : ℕ} (hk : (lettersOf s).threads[k]? = some (.reader .entered)) (hc : Rechecks s e)
      (active_readers : s'.active_readers = s.active_readers) (writing : s'.writing = s.writing)
      (letters : lettersOf s' = ((lettersOf s).printf .reader (97 + (s.ch - 1).tmod 26)).goto k
        (.reader .printed))
  | readerLeaves {k : ℕ} (hk : (lettersOf s).threads[k]? = some (.reader .printed))
      (hc : Rechecks s e)
      (active_readers : s'.active_readers = s.active_readers - 1) (writing : s'.writing = s.writing)
      (letters : lettersOf s' = (lettersOf s).goto k (.reader .outside))
  | writerEnters {k : ℕ} (hk : (lettersOf s).threads[k]? = some (.writer .outside))
      (hc : Rechecks s e ↔ ¬ (s.active_readers > 0 ∨ s.writing))
      (active_readers : s'.active_readers = s.active_readers) (writing : s'.writing = true)
      (letters : lettersOf s' = (lettersOf s).goto k (.writer .entered))
  | writes {k : ℕ} (hk : (lettersOf s).threads[k]? = some (.writer .entered)) (hc : Rechecks s e)
      (active_readers : s'.active_readers = s.active_readers) (writing : s'.writing = s.writing)
      (letters : lettersOf s' = ({ lettersOf s with ch := (s.ch + 1).bmod 256 }.printf .writer
        (97 + s.ch.tmod 26)).goto k (.writer .printed))
  | writerLeaves {k : ℕ} (hk : (lettersOf s).threads[k]? = some (.writer .printed))
      (hc : Rechecks s e)
      (active_readers : s'.active_readers = s.active_readers) (writing : s'.writing = false)
      (letters : lettersOf s' = (lettersOf s).goto k (.writer .outside))

theorem stepReader_goes {r : Reader} (hk : s.threads[k]? = some (.reader r))
    (h : stepReader s k wake r = some s') : Goes s (.run k wake) s' := by
  have hplace := lettersOf_get hk
  cases r with
  | outside =>
    obtain rfl : startRead s k = s' := by simpa [stepReader] using h
    refine .stays (by simp [Rechecks, hk]) ?_
    simp only [startRead]
    split_ifs
    · exact alike_set hk rfl rfl rfl rfl rfl rfl
    · exact alike_set hk rfl rfl rfl rfl rfl rfl
  | atCanWrite =>
    obtain rfl : testCanWrite s k = s' := by simpa [stepReader] using h
    refine .stays (by simp [Rechecks, hk]) ?_
    unfold testCanWrite
    split_ifs
    · exact alike_set hk rfl rfl rfl rfl rfl rfl
    · exact alike_set hk rfl rfl rfl rfl rfl rfl
  | atCanRead =>
    obtain rfl : waitCanRead s k = s' := by simpa [stepReader] using h
    refine .stays (by simp [Rechecks, hk]) ?_
    unfold waitCanRead
    split_ifs
    · exact alike_set hk rfl rfl rfl rfl rfl rfl
    · exact alike_set hk rfl rfl rfl rfl rfl rfl
  | waitingCanRead => simp [stepReader] at h
  | atMutex =>
    refine .stays (by simp [Rechecks, hk]) ?_
    cases hm : s.mutex with
    | some j => simp [stepReader, waitMutex, hm] at h
    | none =>
      obtain rfl : { s with mutex := some k }.goto k (.reader .afterMutex) = s' := by
        simpa [stepReader, waitMutex, hm] using h
      exact alike_set hk rfl rfl rfl rfl rfl rfl
  | afterMutex =>
    simp only [stepReader, startReadLocked, Option.bind_eq_bind] at h
    obtain ⟨s₁, hset, h⟩ := Option.bind_eq_some_iff.1 h
    obtain rfl := Option.some.inj h
    have halike := setCanRead_alike hset
    exact .readerEnters hplace (by simp [Rechecks, hk]) halike.active_readers halike.writing
      (halike.letters.trans (lettersOf_goto _ k _))
  | inside =>
    obtain rfl : read s k = s' := by simpa [stepReader] using h
    exact .reads hplace (by simp [Rechecks, hk]) rfl rfl (lettersOf_goto _ k _)
  | done =>
    simp only [stepReader, stopRead] at h
    split_ifs at h with h0
    · have halike := setCanWrite_alike h
      exact .readerLeaves hplace (by simp [Rechecks, hk]) halike.active_readers halike.writing
        (halike.letters.trans (lettersOf_goto _ k _))
    · obtain rfl := Option.some.inj h
      exact .readerLeaves hplace (by simp [Rechecks, hk]) rfl rfl (lettersOf_goto _ k _)

theorem stepWriter_goes {w : Writer} (hk : s.threads[k]? = some (.writer w))
    (h : stepWriter s k wake w = some s') : Goes s (.run k wake) s' := by
  have hplace := lettersOf_get hk
  cases w with
  | outside =>
    obtain rfl : startWrite s k = s' := by simpa [stepWriter] using h
    by_cases hbusy : s.active_readers > 0 ∨ s.writing
    · simp only [startWrite, if_pos hbusy]
      exact .stays (by simp [Rechecks, hk]) (alike_set hk rfl rfl rfl rfl rfl rfl)
    · -- the test and the entry are one step
      simp only [startWrite, if_neg hbusy]
      refine .writerEnters hplace ?_ rfl rfl (lettersOf_goto _ k _)
      simpa [Rechecks, hk] using hbusy
  | atCanWrite =>
    obtain rfl : waitCanWrite s k = s' := by simpa [stepWriter] using h
    refine .stays (by simp [Rechecks, hk]) ?_
    unfold waitCanWrite
    split_ifs
    · exact alike_set hk rfl rfl rfl rfl rfl rfl
    · exact alike_set hk rfl rfl rfl rfl rfl rfl
  | waitingCanWrite => simp [stepWriter] at h
  | afterCanWrite =>
    obtain rfl : enterWrite s k = s' := by simpa [stepWriter] using h
    exact .writerEnters hplace (by simp [Rechecks, hk]) rfl rfl (lettersOf_goto _ k _)
  | inside =>
    obtain rfl : write s k = s' := by simpa [stepWriter] using h
    exact .writes hplace (by simp [Rechecks, hk]) rfl rfl (lettersOf_goto _ k _)
  | done =>
    have halike : Alike ({ s with writing := false }.goto k (.writer .outside)) s' := by
      simp only [stepWriter, stopWrite] at h
      split_ifs at h with hr
      · exact setCanRead_alike h
      · exact setCanWrite_alike h
    exact .writerLeaves hplace (by simp [Rechecks, hk]) halike.active_readers halike.writing
      (halike.letters.trans (lettersOf_goto _ k _))

theorem step_goes (h : step s e = some s') : Goes s e s' := by
  cases e with
  | createThread r =>
    obtain rfl := Option.some.inj h
    refine .creates (r := r) trivial rfl rfl ?_
    cases r <;> simp [lettersOf, newThread, Letters.newThread, place]
  | run k wake =>
    simp only [step, Option.bind_eq_bind] at h
    obtain ⟨t, hk, h⟩ := Option.bind_eq_some_iff.1 h
    cases t with
    | reader r => exact stepReader_goes hk h
    | writer w => exact stepWriter_goes hk h

/-! ### Who is inside -/

theorem lettersOf_readers (s : State) : (lettersOf s).readers = s.readers := by
  have hreads : Letters.reads ∘ place = reads := by
    funext t
    cases t with
    | reader r => cases r <;> rfl
    | writer w => cases w <;> rfl
  rw [Letters.State.readers, lettersOf, List.countP_map, hreads]
  rfl

theorem lettersOf_writers (s : State) : (lettersOf s).writers = s.writers := by
  have hwrites : Letters.writes ∘ place = writes := by
    funext t
    cases t with
    | reader r => cases r <;> rfl
    | writer w => cases w <;> rfl
  rw [Letters.State.writers, lettersOf, List.countP_map, hwrites]
  rfl

/-- Who is inside and what the monitor's variables say about it are the same. -/
structure Same (s s' : State) : Prop where
  active_readers : s'.active_readers = s.active_readers
  writing : s'.writing = s.writing
  readers : s'.readers = s.readers
  writers : s'.writers = s.writers

/-- All a step can do to who is inside, and what `Rechecks` asks of it. -/
inductive Moves (s : State) (e : Event) (s' : State) : Prop
  | stays (hc : Rechecks s e) (h : Same s s')
  | readerEnters (hc : Rechecks s e ↔ s.writing = false)
      (active_readers : s'.active_readers = s.active_readers + 1) (writing : s'.writing = s.writing)
      (readers : s'.readers = s.readers + 1) (writers : s'.writers = s.writers)
  | readerLeaves (hc : Rechecks s e)
      (active_readers : s'.active_readers = s.active_readers - 1) (writing : s'.writing = s.writing)
      (readers : s'.readers + 1 = s.readers) (writers : s'.writers = s.writers)
  | writerEnters (hc : Rechecks s e ↔ ¬ (s.active_readers > 0 ∨ s.writing))
      (active_readers : s'.active_readers = s.active_readers) (writing : s'.writing = true)
      (readers : s'.readers = s.readers) (writers : s'.writers = s.writers + 1)
  | writerLeaves (hc : Rechecks s e)
      (active_readers : s'.active_readers = s.active_readers) (writing : s'.writing = false)
      (readers : s'.readers = s.readers) (writers : s'.writers + 1 = s.writers)

theorem inside_goto {x y : Letters.Thread} {l : Letters.State} (hl : lettersOf s' = l.goto k y)
    (hthreads : l.threads = (lettersOf s).threads) (hk : (lettersOf s).threads[k]? = some x) :
    s'.readers + (if Letters.reads x then 1 else 0) =
        s.readers + (if Letters.reads y then 1 else 0) ∧
      s'.writers + (if Letters.writes x then 1 else 0) =
        s.writers + (if Letters.writes y then 1 else 0) := by
  have hreaders := countP_set Letters.reads hk y
  have hwriters := countP_set Letters.writes hk y
  simp only [← lettersOf_readers, ← lettersOf_writers, hl, Letters.State.readers,
    Letters.State.writers, Letters.State.goto, hthreads]
  exact ⟨hreaders, hwriters⟩

theorem step_moves (h : step s e = some s') : Moves s e s' := by
  cases step_goes h with
  | @creates r hc ha hw hl =>
    refine .stays hc ⟨ha, hw, ?_, ?_⟩
    · rw [← lettersOf_readers, ← lettersOf_readers, hl]
      cases r <;> simp [Letters.State.readers, Letters.newThread, Letters.reads]
    · rw [← lettersOf_writers, ← lettersOf_writers, hl]
      cases r <;> simp [Letters.State.writers, Letters.newThread, Letters.writes]
  | stays hc halike =>
    obtain ⟨ha, hw, hl⟩ := halike
    refine .stays hc ⟨ha, hw, ?_, ?_⟩
    · rw [← lettersOf_readers, hl, lettersOf_readers]
    · rw [← lettersOf_writers, hl, lettersOf_writers]
  | readerEnters hk hc ha hw hl =>
    obtain ⟨hreaders, hwriters⟩ := inside_goto hl rfl hk
    exact .readerEnters hc ha hw hreaders hwriters
  | reads hk hc ha hw hl =>
    obtain ⟨hreaders, hwriters⟩ := inside_goto hl rfl hk
    exact .stays hc ⟨ha, hw, Nat.add_right_cancel hreaders, hwriters⟩
  | readerLeaves hk hc ha hw hl =>
    obtain ⟨hreaders, hwriters⟩ := inside_goto hl rfl hk
    exact .readerLeaves hc ha hw hreaders hwriters
  | writerEnters hk hc ha hw hl =>
    obtain ⟨hreaders, hwriters⟩ := inside_goto hl rfl hk
    exact .writerEnters hc ha hw hreaders hwriters
  | writes hk hc ha hw hl =>
    obtain ⟨hreaders, hwriters⟩ := inside_goto hl rfl hk
    exact .stays hc ⟨ha, hw, hreaders, Nat.add_right_cancel hwriters⟩
  | writerLeaves hk hc ha hw hl =>
    obtain ⟨hreaders, hwriters⟩ := inside_goto hl rfl hk
    exact .writerLeaves hc ha hw hreaders hwriters

/-- While threads only go in on what they would find, the variables tell who is
inside. -/
structure Inv (s : State) : Prop where
  active_readers : s.active_readers = s.readers
  writing : s.writing = true ↔ 0 < s.writers
  exclusive : Exclusive s

theorem inv_init : Inv init := ⟨rfl, by simp [init, State.writers], by decide⟩

theorem inv_step (hI : Inv s) (hc : Rechecks s e) (h : step s e = some s') : Inv s' := by
  obtain ⟨ha, hw, hone, hapart⟩ := hI
  cases step_moves h with
  | stays _ hsame =>
    obtain ⟨ha', hw', hr, hwr⟩ := hsame
    refine ⟨by omega, by rw [hw', hw, hwr], ?_⟩
    unfold Exclusive
    rw [hr, hwr]
    exact ⟨hone, hapart⟩
  | readerEnters hiff ha' hw' hr hwr =>
    have hnone : s.writers = 0 := by
      by_contra hpos
      have hwriting := hw.2 (Nat.pos_of_ne_zero hpos)
      rw [hiff.1 hc] at hwriting
      exact absurd hwriting (by decide)
    refine ⟨by omega, by rw [hw', hw, hwr], ?_⟩
    unfold Exclusive
    omega
  | readerLeaves _ ha' hw' hr hwr =>
    refine ⟨by omega, by rw [hw', hw, hwr], ?_⟩
    unfold Exclusive
    omega
  | writerEnters hiff ha' hw' hr hwr =>
    have hfree := hiff.1 hc
    have hnone : ¬ 0 < s.writers := fun hpos => hfree (.inr (hw.2 hpos))
    have hreaders : ¬ s.active_readers > 0 := fun hpos => hfree (.inl hpos)
    refine ⟨by omega, by rw [hw', hwr]; simp, ?_⟩
    unfold Exclusive
    omega
  | writerLeaves _ ha' hw' hr hwr =>
    have hnone : s'.writers = 0 := by omega
    refine ⟨by omega, by rw [hw', hnone]; simp, ?_⟩
    unfold Exclusive
    omega

/-- A thread that goes in against what it would find breaks the exclusion. -/
theorem not_exclusive (hI : Inv s) (hc : ¬ Rechecks s e) (h : step s e = some s') :
    ¬ Exclusive s' := by
  obtain ⟨ha, hw, -⟩ := hI
  intro hx
  obtain ⟨hone, hapart⟩ := hx
  cases step_moves h with
  | stays hc' _ => exact hc hc'
  | readerEnters hiff _ _ hr hwr =>
    have hwriting : s.writing = true := by simpa [hiff] using hc
    have hpos := hw.1 hwriting
    have := hapart (by omega)
    omega
  | readerLeaves hc' _ _ _ _ => exact hc hc'
  | writerEnters hiff _ _ hr hwr =>
    have hbusy := not_not.1 (mt hiff.2 hc)
    have hreaders := hapart (by omega)
    rcases hbusy with hactive | hwriting
    · omega
    · have := hw.1 hwriting
      omega
  | writerLeaves hc' _ _ _ _ => exact hc hc'

/-- Mutual exclusion holds in every state of a run exactly when every thread that
goes in after a wait finds what it had tested before. -/
theorem exclusive_iff_rechecks {tr : List (State × Event)} {s : State} (h : Run step init tr s) :
    Always Exclusive tr s ↔ EachStep Rechecks tr :=
  h.always_iff inv_init (fun _ hI => hI.exclusive) (fun _ _ _ hI hc he => inv_step hI hc he)
    (fun _ _ _ hI hc he => not_exclusive hI hc he)

/-- A writer waits while another is inside. The other one leaves, which lets the
first go, and is in again before the first has gone on. -/
def staleSignal : List Event :=
  [.createThread .writer, .createThread .writer, .run 0 none, .run 1 none, .run 1 none,
    .run 0 none, .run 0 (some 1), .run 0 none, .run 1 none]

theorem stale_signal_breaks_exclusion : ¬ ∀ tr s, Run step init tr s → Exclusive s := by
  intro h
  exact absurd (h _ _ (run_of_isSome init staleSignal (by decide))) (by decide)

theorem exclusive_iff_rechecks_staleSignal :
    Always Exclusive (trace step init staleSignal)
        ((exec step init staleSignal).get (by decide)) ↔
      EachStep Rechecks (trace step init staleSignal) :=
  exclusive_iff_rechecks (run_of_isSome init staleSignal (by decide))

end OsLabs.Monitor
