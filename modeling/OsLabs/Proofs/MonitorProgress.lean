import OsLabs.Spec.Monitor

/-! The monitor never gets stuck. Before the first reader is let past `can_read` only
writers go in, and a writer waits only for another that is inside. From then on the signal
of `can_read` is given, or a reader that took it is on its way in and gives it again. -/

namespace OsLabs.Monitor

variable {s s' : State} {e : Event} {k : ℕ} {wake : Option ℕ} {t u : Thread}

def isReader : Thread → Bool
  | .reader _ => true
  | .writer _ => false

/-- A reader past its wait for `can_read`, or without one, that has not signaled yet. -/
def passing : Thread → Bool
  | .reader .atMutex | .reader .afterMutex => true
  | .reader _ | .writer _ => false

def moving : Thread → Bool
  | .writer .atCanWrite | .writer .waitingCanWrite | .reader _ => false
  | .writer _ => true

def fresh : Thread → Bool
  | .reader .outside | .reader .atCanWrite | .reader .atCanRead | .reader .waitingCanRead => true
  | .reader _ => false
  | .writer _ => true

def idle : Thread → Bool
  | .reader .outside | .reader .atCanWrite => true
  | .reader _ | .writer _ => false

def Has (f : Thread → Bool) (ts : List Thread) : Prop := ∃ t ∈ ts, f t = true

def Only (f : Thread → Bool) (ts : List Thread) : Prop := ∀ t ∈ ts, f t = true

section
variable {f : Thread → Bool} {ts : List Thread}

theorem Has.set (h : Has f ts) (hk : ts[k]? = some t) (htu : f t = true → f u = true) :
    Has f (ts.set k u) := by
  obtain ⟨x, hx, hfx⟩ := h
  obtain ⟨i, hi⟩ := List.mem_iff_getElem?.1 hx
  by_cases hik : i = k
  · subst hik
    obtain rfl := Option.some.inj (hi.symm.trans hk)
    exact ⟨u, List.mem_of_getElem? (get_set hk u), htu hfx⟩
  · refine ⟨x, List.mem_of_getElem? (i := i) ?_, hfx⟩
    rw [List.getElem?_set_ne (Ne.symm hik), hi]

theorem has_set (hk : ts[k]? = some t) (hu : f u = true) : Has f (ts.set k u) :=
  ⟨u, List.mem_of_getElem? (get_set hk u), hu⟩

theorem has_of_get (hk : ts[k]? = some t) (ht : f t = true) : Has f ts :=
  ⟨t, List.mem_of_getElem? hk, ht⟩

theorem Only.set (h : Only f ts) (hu : f u = true) : Only f (ts.set k u) := by
  intro x hx
  rcases List.mem_or_eq_of_mem_set hx with hx | rfl
  · exact h x hx
  · exact hu

theorem Only.get (h : Only f ts) (hk : ts[k]? = some t) : f t = true :=
  h t (List.mem_of_getElem? hk)

end

theorem notMem_set {x : Thread} {ts : List Thread} (h : x ∉ ts) (hu : u ≠ x) :
    x ∉ ts.set k u := by
  intro hx
  rcases List.mem_or_eq_of_mem_set hx with hx | rfl
  · exact h hx
  · exact hu rfl

/-- The mutex belongs to a reader that is about to give it back. -/
def Owned (mutex : Option ℕ) (ts : List Thread) : Prop :=
  ∀ j, mutex = some j → ts[j]? = some (.reader .afterMutex)

theorem Owned.set {mutex : Option ℕ} {ts : List Thread} (h : Owned mutex ts)
    (hk : ts[k]? = some t) (ht : t ≠ .reader .afterMutex) : Owned mutex (ts.set k u) := by
  intro j hj
  have hget := h j hj
  have hjk : k ≠ j := by
    rintro rfl
    exact ht (Option.some.inj (hk.symm.trans hget))
  rw [List.getElem?_set_ne hjk, hget]

/-! ### The two phases -/

/-- Since the first reader was let past `can_read`. -/
structure Warm (s : State) : Prop where
  readers : Has isReader s.threads
  signal : s.can_read = true ∨ Has passing s.threads

/-- Before any reader was let past `can_read`. -/
structure Cold (s : State) : Prop where
  can_read : s.can_read = false
  fresh : Only fresh s.threads
  active_readers : s.active_readers = 0
  led : Has moving s.threads ∨ (Only idle s.threads ∧ s.can_write = false)

structure Live (s : State) : Prop where
  owner : Owned s.mutex s.threads
  unawaited : s.can_read = true → .reader .waitingCanRead ∉ s.threads
  writing : s.writing = true → Has writes s.threads
  waiting_readers : s.waiting_readers ≠ 0 → Has isReader s.threads
  phase : Warm s ∨ Cold s

theorem live_init : Live init where
  owner _ h := nomatch h
  unawaited h := nomatch h
  writing h := nomatch h
  waiting_readers h := absurd rfl h
  phase := .inr ⟨rfl, nofun, rfl, .inr ⟨nofun, rfl⟩⟩

theorem Warm.set (h : Warm s) (hk : s.threads[k]? = some t)
    (ht : s'.threads = s.threads.set k u) (hc : s'.can_read = s.can_read)
    (hr : isReader t = true → isReader u = true) (hp : passing t = true → passing u = true) :
    Warm s' := by
  refine ⟨?_, ?_⟩
  · rw [ht]
    exact h.readers.set hk hr
  · rw [hc, ht]
    exact h.signal.imp_right fun hs => hs.set hk hp

/-- A thread of the cold phase whose next step leaves a writer in the lead. -/
theorem Cold.set (h : Cold s) (ht : s'.threads = s.threads.set k u)
    (hc : s'.can_read = s.can_read) (ha : s'.active_readers = s.active_readers)
    (hf : Monitor.fresh u = true) (hled : Has moving (s.threads.set k u)) : Cold s' := by
  refine ⟨hc.trans h.can_read, ?_, ha.trans h.active_readers, .inl ?_⟩
  · rw [ht]
    exact h.fresh.set hf
  · rw [ht]
    exact hled

/-- Where a writer or a reader beyond the first test stands, the lead is a writer's. -/
theorem Cold.moving (h : Cold s) (hk : s.threads[k]? = some t) (ht : idle t = false) :
    Has Monitor.moving s.threads := by
  refine h.led.resolve_right ?_
  rintro ⟨hidle, -⟩
  have := hidle.get hk
  rw [ht] at this
  exact Bool.noConfusion this

/-! ### Signals -/

theorem setCanRead_cases (h : setCanRead wake s = some s') :
    (s' = { s with can_read := true } ∧ .reader .waitingCanRead ∉ s.threads) ∨
      ∃ j, s.threads[j]? = some (.reader .waitingCanRead) ∧
        s' = { s with can_read := false, threads := s.threads.set j (.reader .atMutex) } := by
  obtain ⟨⟨can_read, threads⟩, hset, rfl⟩ := Option.map_eq_some_iff.1 h
  obtain ⟨rfl, rfl, hnone⟩ | ⟨j, hj, rfl, rfl⟩ := setEvent_cases hset
  · exact .inl ⟨rfl, hnone⟩
  · exact .inr ⟨j, hj, rfl⟩

theorem setCanRead_mutex (h : setCanRead wake s = some s') : s'.mutex = s.mutex := by
  obtain ⟨p, -, rfl⟩ := Option.map_eq_some_iff.1 h
  rfl

theorem setCanWrite_cases (h : setCanWrite wake s = some s') :
    s' = { s with can_write := true } ∨
      ∃ j, s.threads[j]? = some (.writer .waitingCanWrite) ∧
        s' = { s with can_write := false, threads := s.threads.set j (.writer .afterCanWrite) } := by
  obtain ⟨⟨can_write, threads⟩, hset, rfl⟩ := Option.map_eq_some_iff.1 h
  obtain ⟨rfl, rfl, -⟩ | ⟨j, hj, rfl, rfl⟩ := setEvent_cases hset
  · exact .inl rfl
  · exact .inr ⟨j, hj, rfl⟩

/-- Who signals `can_read` leaves the signal or a reader that has taken it. -/
theorem live_setCanRead (mutex : Option ℕ) (howner : Owned mutex s.threads)
    (hwriting : s.writing = true → Has writes s.threads) (hreaders : Has isReader s.threads)
    (h : setCanRead wake s = some s') : Live { s' with mutex } := by
  obtain ⟨rfl, hnone⟩ | ⟨j, hj, rfl⟩ := setCanRead_cases h
  · exact ⟨howner, fun _ => hnone, hwriting, fun _ => hreaders, .inl ⟨hreaders, .inl rfl⟩⟩
  · have hr : Has isReader (s.threads.set j (.reader .atMutex)) := hreaders.set hj (fun _ => rfl)
    refine ⟨howner.set hj nofun, nofun, ?_, fun _ => hr, .inl ⟨hr, .inr ?_⟩⟩
    · intro hw
      exact (hwriting hw).set hj (by simp [writes])
    · exact has_set hj rfl

theorem live_setCanWrite (hl : Live s) (hled : Warm s ∨ Has moving s.threads)
    (h : setCanWrite wake s = some s') : Live s' := by
  obtain rfl | ⟨j, hj, rfl⟩ := setCanWrite_cases h
  · refine ⟨hl.owner, hl.unawaited, hl.writing, hl.waiting_readers, ?_⟩
    rcases hled with hwarm | hled
    · exact .inl ⟨hwarm.readers, hwarm.signal⟩
    · rcases hl.phase with hwarm | hcold
      · exact .inl ⟨hwarm.readers, hwarm.signal⟩
      · exact .inr ⟨hcold.can_read, hcold.fresh, hcold.active_readers, .inl hled⟩
  · refine ⟨hl.owner.set hj nofun, fun hc => notMem_set (hl.unawaited hc) nofun, ?_, ?_, ?_⟩
    · intro hw
      exact (hl.writing hw).set hj (by simp [writes])
    · intro hw
      exact (hl.waiting_readers hw).set hj (by simp [isReader])
    · rcases hl.phase with hwarm | hcold
      · exact .inl (hwarm.set hj rfl rfl (by simp [isReader]) (by simp [passing]))
      · exact .inr (hcold.set rfl rfl rfl rfl (has_set hj rfl))

/-! ### Steps -/

theorem live_stepReader {r : Reader} (hl : Live s) (hk : s.threads[k]? = some (.reader r))
    (h : stepReader s k wake r = some s') : Live s' := by
  have hreader : Has isReader s.threads := has_of_get hk rfl
  have hkept : ∀ r', Has isReader (s.threads.set k (.reader r')) := fun _ => has_set hk rfl
  have hwriting : ∀ r', s.writing = true → Has writes (s.threads.set k (.reader r')) := by
    intro r' hw
    apply (hl.writing hw).set hk
    simp [writes]
  cases r with
  | outside =>
    obtain rfl : startRead s k = s' := by simpa [stepReader] using h
    simp only [startRead]
    split_ifs with hw
    · refine ⟨hl.owner.set hk nofun, fun hc => notMem_set (hl.unawaited hc) nofun, hwriting _,
        fun _ => hkept _, ?_⟩
      rcases hl.phase with hwarm | hcold
      · exact .inl (hwarm.set hk rfl rfl (by simp [isReader]) (by simp [passing]))
      · -- whoever is writing leads
        have hled : Has moving s.threads := by
          refine hcold.led.resolve_right ?_
          rintro ⟨hidle, -⟩
          obtain ⟨t, ht, hwrites⟩ := hl.writing hw
          have hit := hidle t ht
          cases t with
          | reader r => simp [writes] at hwrites
          | writer w => simp [idle] at hit
        exact .inr (hcold.set rfl rfl rfl rfl (hled.set hk (by simp [moving])))
    · refine ⟨hl.owner.set hk nofun, fun hc => notMem_set (hl.unawaited hc) nofun, hwriting _,
        fun _ => hkept _, ?_⟩
      rcases hl.phase with hwarm | hcold
      · exact .inl (hwarm.set hk rfl rfl (by simp [isReader]) (by simp [passing]))
      · refine .inr ⟨hcold.can_read, hcold.fresh.set rfl, hcold.active_readers, ?_⟩
        refine hcold.led.imp (fun hled => hled.set hk (by simp [moving])) ?_
        exact fun hidle => ⟨hidle.1.set rfl, hidle.2⟩
  | atCanWrite =>
    obtain rfl : testCanWrite s k = s' := by simpa [stepReader] using h
    unfold testCanWrite
    split_ifs with hw
    · refine ⟨hl.owner.set hk nofun, fun hc => notMem_set (hl.unawaited hc) nofun, hwriting _,
        fun _ => hkept _, ?_⟩
      rcases hl.phase with hwarm | hcold
      · exact .inl (hwarm.set hk rfl rfl (by simp [isReader]) (by simp [passing]))
      · -- a signal of `can_write` was a writer's
        have hled : Has moving s.threads := by
          refine hcold.led.resolve_right ?_
          rintro ⟨-, hnone⟩
          rw [hw] at hnone
          exact Bool.noConfusion hnone
        exact .inr (hcold.set rfl rfl rfl rfl (hled.set hk (by simp [moving])))
    · refine ⟨hl.owner.set hk nofun, fun hc => notMem_set (hl.unawaited hc) nofun, hwriting _,
        fun _ => hkept _, .inl ⟨hkept _, .inr ?_⟩⟩
      exact has_set hk rfl
  | atCanRead =>
    obtain rfl : waitCanRead s k = s' := by simpa [stepReader] using h
    unfold waitCanRead
    split_ifs with hc
    · refine ⟨hl.owner.set hk nofun, nofun, hwriting _, fun _ => hkept _,
        .inl ⟨hkept _, .inr ?_⟩⟩
      exact has_set hk rfl
    · refine ⟨hl.owner.set hk nofun, fun hc' => absurd hc' hc, hwriting _, fun _ => hkept _, ?_⟩
      rcases hl.phase with hwarm | hcold
      · exact .inl (hwarm.set hk rfl rfl (by simp [isReader]) (by simp [passing]))
      · exact .inr (hcold.set rfl rfl rfl rfl ((hcold.moving hk rfl).set hk (by simp [moving])))
  | waitingCanRead => simp [stepReader] at h
  | atMutex =>
    cases hm : s.mutex with
    | some j => simp [stepReader, waitMutex, hm] at h
    | none =>
      obtain rfl : { s with mutex := some k }.goto k (.reader .afterMutex) = s' := by
        simpa [stepReader, waitMutex, hm] using h
      refine ⟨?_, fun hc => notMem_set (hl.unawaited hc) nofun, hwriting _, fun _ => hkept _,
        .inl ⟨hkept _, .inr ?_⟩⟩
      · intro j hj
        obtain rfl := Option.some.inj hj
        exact get_set hk _
      · exact has_set hk rfl
  | afterMutex =>
    simp only [stepReader, startReadLocked, Option.bind_eq_bind] at h
    obtain ⟨s₁, hset, h⟩ := Option.bind_eq_some_iff.1 h
    obtain rfl := Option.some.inj h
    exact live_setCanRead none nofun (hwriting _) (hkept _) hset
  | inside =>
    obtain rfl : read s k = s' := by simpa [stepReader] using h
    refine ⟨hl.owner.set hk nofun, fun hc => notMem_set (hl.unawaited hc) nofun, hwriting _,
      fun _ => hkept _, ?_⟩
    rcases hl.phase with hwarm | hcold
    · exact .inl (hwarm.set hk rfl rfl (by simp [isReader]) (by simp [passing]))
    · exact absurd (hcold.fresh.get hk) (by simp [fresh])
  | done =>
    have hwarm : Warm s := by
      refine hl.phase.resolve_right fun hcold => ?_
      exact absurd (hcold.fresh.get hk) (by simp [fresh])
    have hwarm₁ : Warm ({ s with active_readers := s.active_readers - 1 }.goto k
        (.reader .outside)) :=
      hwarm.set hk rfl rfl (by simp [isReader]) (by simp [passing])
    have hlive₁ : Live ({ s with active_readers := s.active_readers - 1 }.goto k
        (.reader .outside)) :=
      ⟨hl.owner.set hk nofun, fun hc => notMem_set (hl.unawaited hc) nofun, hwriting _,
        fun _ => hkept _, .inl hwarm₁⟩
    simp only [stepReader, stopRead] at h
    split_ifs at h
    · exact live_setCanWrite hlive₁ (.inl hwarm₁) h
    · obtain rfl := Option.some.inj h
      exact hlive₁

/-- A writer's step to a place that is not its wait, with no signal given. -/
theorem Live.writer {w : Writer} (hl : Live s) (hk : s.threads[k]? = some (.writer w)) (w' : Writer)
    (hmoving : moving (.writer w') = true) (ht : s'.threads = s.threads.set k (.writer w'))
    (hm : s'.mutex = s.mutex) (hc : s'.can_read = s.can_read)
    (hr : s'.waiting_readers = s.waiting_readers) (ha : s'.active_readers = s.active_readers)
    (hw : s'.writing = true → Has writes s'.threads) : Live s' := by
  refine ⟨?_, ?_, hw, ?_, ?_⟩
  · rw [hm, ht]
    exact hl.owner.set hk nofun
  · rw [hc, ht]
    exact fun hcan => notMem_set (hl.unawaited hcan) nofun
  · rw [hr, ht]
    exact fun hne => (hl.waiting_readers hne).set hk (by simp [isReader])
  · rcases hl.phase with hwarm | hcold
    · exact .inl (hwarm.set hk ht hc (by simp [isReader]) (by simp [passing]))
    · exact .inr (hcold.set ht hc ha rfl (has_set hk hmoving))

theorem live_stepWriter {w : Writer} (hl : Live s) (hk : s.threads[k]? = some (.writer w))
    (h : stepWriter s k wake w = some s') : Live s' := by
  have hinside : Has writes (s.threads.set k (.writer .inside)) := has_set hk rfl
  cases w with
  | outside =>
    obtain rfl : startWrite s k = s' := by simpa [stepWriter] using h
    by_cases hbusy : s.active_readers > 0 ∨ s.writing
    · simp only [startWrite, if_pos hbusy]
      have hwriting : s.writing = true → Has writes (s.threads.set k (.writer .atCanWrite)) :=
        fun hw => (hl.writing hw).set hk (by simp [writes])
      refine ⟨hl.owner.set hk nofun, fun hc => notMem_set (hl.unawaited hc) nofun, hwriting,
        fun hne => (hl.waiting_readers hne).set hk (by simp [isReader]), ?_⟩
      rcases hl.phase with hwarm | hcold
      · exact .inl (hwarm.set hk rfl rfl (by simp [isReader]) (by simp [passing]))
      · -- no reader is active, so that it waits for a writer inside
        have hw : s.writing = true := by
          refine hbusy.resolve_left ?_
          rw [hcold.active_readers]
          exact lt_irrefl 0
        obtain ⟨t, ht, hwrites⟩ := hwriting hw
        refine .inr (hcold.set rfl rfl rfl rfl ⟨t, ht, ?_⟩)
        cases t with
        | reader r => simp [writes] at hwrites
        | writer w => cases w <;> simp [writes, moving] at hwrites ⊢
    · simp only [startWrite, if_neg hbusy]
      exact hl.writer hk .inside rfl rfl rfl rfl rfl rfl fun _ => hinside
  | atCanWrite =>
    obtain rfl : waitCanWrite s k = s' := by simpa [stepWriter] using h
    unfold waitCanWrite
    split_ifs
    · refine hl.writer hk .afterCanWrite rfl rfl rfl rfl rfl rfl ?_
      exact fun hw => (hl.writing hw).set hk (by simp [writes])
    · refine ⟨hl.owner.set hk nofun, fun hc => notMem_set (hl.unawaited hc) nofun,
        fun hw => (hl.writing hw).set hk (by simp [writes]),
        fun hne => (hl.waiting_readers hne).set hk (by simp [isReader]), ?_⟩
      rcases hl.phase with hwarm | hcold
      · exact .inl (hwarm.set hk rfl rfl (by simp [isReader]) (by simp [passing]))
      · exact .inr (hcold.set rfl rfl rfl rfl ((hcold.moving hk rfl).set hk (by simp [moving])))
  | waitingCanWrite => simp [stepWriter] at h
  | afterCanWrite =>
    obtain rfl : enterWrite s k = s' := by simpa [stepWriter] using h
    exact hl.writer hk .inside rfl rfl rfl rfl rfl rfl fun _ => hinside
  | inside =>
    obtain rfl : write s k = s' := by simpa [stepWriter] using h
    exact hl.writer hk .done rfl rfl rfl rfl rfl rfl fun _ => has_set hk rfl
  | done =>
    have hlive₁ : Live ({ s with writing := false }.goto k (.writer .outside)) :=
      hl.writer hk .outside rfl rfl rfl rfl rfl rfl nofun
    simp only [stepWriter, stopWrite] at h
    split_ifs at h with hr
    · -- somebody waits, who is a reader
      have hlive := live_setCanRead _ hlive₁.owner hlive₁.writing (hlive₁.waiting_readers hr) h
      rw [← setCanRead_mutex h] at hlive
      exact hlive
    · exact live_setCanWrite hlive₁ (.inr (has_set hk rfl)) h

theorem live_step (hl : Live s) (h : step s e = some s') : Live s' := by
  cases e with
  | createThread r =>
    obtain rfl := Option.some.inj h
    have hold : ∀ {f : Thread → Bool}, Has f s.threads → Has f (s.threads ++ [newThread r]) := by
      rintro f ⟨t, ht, hf⟩
      exact ⟨t, List.mem_append_left _ ht, hf⟩
    have honly : ∀ {f : Thread → Bool}, Only f s.threads → f (newThread r) = true →
        Only f (s.threads ++ [newThread r]) := by
      intro f hf hnew t ht
      rcases List.mem_append.1 ht with ht | ht
      · exact hf t ht
      · rw [List.mem_singleton.1 ht]
        exact hnew
    refine ⟨fun j hj => get_snoc (hl.owner j hj) _, ?_, fun hw => hold (hl.writing hw),
      fun hne => hold (hl.waiting_readers hne), ?_⟩
    · intro hc hmem
      rcases List.mem_append.1 hmem with hmem | hmem
      · exact hl.unawaited hc hmem
      · cases r <;> simp [newThread] at hmem
    · rcases hl.phase with hwarm | hcold
      · exact .inl ⟨hold hwarm.readers, hwarm.signal.imp_right hold⟩
      · refine .inr ⟨hcold.can_read, honly hcold.fresh (by cases r <;> rfl),
          hcold.active_readers, ?_⟩
        cases r with
        | reader =>
          refine hcold.led.imp hold ?_
          exact fun hidle => ⟨honly hidle.1 rfl, hidle.2⟩
        | writer =>
          exact .inl ⟨_, List.mem_append_right _ (List.mem_singleton_self _), rfl⟩
  | run k wake =>
    simp only [step, Option.bind_eq_bind] at h
    obtain ⟨t, hk, h⟩ := Option.bind_eq_some_iff.1 h
    cases t with
    | reader r => exact live_stepReader hl hk h
    | writer w => exact live_stepWriter hl hk h

/-! ### Who can go on -/

def Enabled (s : State) (k : ℕ) : Prop := ∃ wake, (step s (.run k wake)).isSome

theorem exists_setCanRead (s : State) : ∃ wake s', setCanRead wake s = some s' := by
  obtain ⟨wake, p, hp⟩ := exists_setEvent (· == .reader .waitingCanRead)
    (fun _ => .reader .atMutex) s.threads
  exact ⟨wake, _, by rw [setCanRead, hp, Option.map_some]⟩

theorem exists_setCanWrite (s : State) : ∃ wake s', setCanWrite wake s = some s' := by
  obtain ⟨wake, p, hp⟩ := exists_setEvent (· == .writer .waitingCanWrite)
    (fun _ => .writer .afterCanWrite) s.threads
  exact ⟨wake, _, by rw [setCanWrite, hp, Option.map_some]⟩

theorem enabled_afterMutex (hk : s.threads[k]? = some (.reader .afterMutex)) : Enabled s k := by
  obtain ⟨wake, s', hset⟩ := exists_setCanRead ({ s with
    waiting_readers := s.waiting_readers - 1
    active_readers := s.active_readers + 1 }.goto k (.reader .inside))
  exact ⟨wake, by simp [step, hk, stepReader, startReadLocked, hset]⟩

theorem Live.enabled_atMutex (hl : Live s) (hk : s.threads[k]? = some (.reader .atMutex)) :
    ∃ k, Enabled s k := by
  cases hm : s.mutex with
  | none => exact ⟨k, none, by simp [step, hk, stepReader, waitMutex, hm]⟩
  | some j => exact ⟨j, enabled_afterMutex (hl.owner j hm)⟩

/-- A reader that does not wait for `can_read` does not keep the others from going on. -/
theorem Live.enabled_reader {r : Reader} (hl : Live s) (hk : s.threads[k]? = some (.reader r))
    (hr : r ≠ .waitingCanRead) : ∃ k, Enabled s k := by
  cases r with
  | outside => exact ⟨k, none, by simp [step, hk, stepReader]⟩
  | atCanWrite => exact ⟨k, none, by simp [step, hk, stepReader]⟩
  | atCanRead => exact ⟨k, none, by simp [step, hk, stepReader]⟩
  | waitingCanRead => exact absurd rfl hr
  | atMutex => exact hl.enabled_atMutex hk
  | afterMutex => exact ⟨k, enabled_afterMutex hk⟩
  | inside => exact ⟨k, none, by simp [step, hk, stepReader]⟩
  | done =>
    obtain ⟨wake, s', hset⟩ := exists_setCanWrite
      ({ s with active_readers := s.active_readers - 1 }.goto k (.reader .outside))
    refine ⟨k, wake, ?_⟩
    simp only [step, hk, stepReader, stopRead, Option.bind_eq_bind, Option.bind_some]
    split_ifs
    · rw [hset]
      rfl
    · rfl

theorem enabled_writer {w : Writer} (hk : s.threads[k]? = some (.writer w))
    (hw : moving (.writer w) = true) : Enabled s k := by
  cases w with
  | outside => exact ⟨none, by simp [step, hk, stepWriter]⟩
  | atCanWrite => simp [moving] at hw
  | waitingCanWrite => simp [moving] at hw
  | afterCanWrite => exact ⟨none, by simp [step, hk, stepWriter]⟩
  | inside => exact ⟨none, by simp [step, hk, stepWriter]⟩
  | done =>
    have hstep : ∀ wake, step s (.run k wake) = stopWrite s k wake := by
      intro wake
      simp [step, hk, stepWriter]
    by_cases hr : s.waiting_readers ≠ 0
    · obtain ⟨wake, s', hset⟩ := exists_setCanRead
        ({ s with writing := false }.goto k (.writer .outside))
      refine ⟨wake, ?_⟩
      rw [hstep, stopWrite]
      simp only [State.goto, hr, ne_eq, not_false_eq_true, if_true] at hset ⊢
      rw [hset]
      rfl
    · obtain ⟨wake, s', hset⟩ := exists_setCanWrite
        ({ s with writing := false }.goto k (.writer .outside))
      refine ⟨wake, ?_⟩
      rw [hstep, stopWrite]
      simp only [State.goto, hr, if_false] at hset ⊢
      rw [hset]
      rfl

theorem Live.exists_enabled (hl : Live s) (hne : s.threads ≠ []) : ∃ k, Enabled s k := by
  rcases hl.phase with hwarm | hcold
  · rcases hwarm.signal with hc | hpassing
    · obtain ⟨t, ht, hr⟩ := hwarm.readers
      obtain ⟨k, hk⟩ := List.mem_iff_getElem?.1 ht
      cases t with
      | reader r =>
        apply hl.enabled_reader hk
        rintro rfl
        exact hl.unawaited hc ht
      | writer w => simp [isReader] at hr
    · obtain ⟨t, ht, hp⟩ := hpassing
      obtain ⟨k, hk⟩ := List.mem_iff_getElem?.1 ht
      cases t with
      | reader r =>
        apply hl.enabled_reader hk
        rintro rfl
        simp [passing] at hp
      | writer w => simp [passing] at hp
  · rcases hcold.led with ⟨t, ht, hm⟩ | ⟨hidle, -⟩
    · obtain ⟨k, hk⟩ := List.mem_iff_getElem?.1 ht
      cases t with
      | reader r => simp [moving] at hm
      | writer w => exact ⟨k, enabled_writer hk hm⟩
    · obtain ⟨t, ht⟩ := List.exists_mem_of_ne_nil _ hne
      obtain ⟨k, hk⟩ := List.mem_iff_getElem?.1 ht
      have hi := hidle t ht
      cases t with
      | reader r =>
        apply hl.enabled_reader hk
        rintro rfl
        simp [idle] at hi
      | writer w => simp [idle] at hi

/-- Whatever the threads have done, one of them can take its next step, as long as none of
them leaves its loop. -/
theorem never_stuck {tr : List (State × Event)} {s : State} (h : Run step init tr s)
    (hne : s.threads ≠ []) : ∃ k wake, (step s (.run k wake)).isSome :=
  (h.invariant live_init fun _ _ _ => live_step).exists_enabled hne

/-- A writer goes in and out, and a reader takes the signal it leaves and waits. -/
def readerAlone : List Event :=
  [.createThread .writer, .createThread .reader, .run 0 none, .run 0 none, .run 0 none,
    .run 1 none, .run 1 none, .run 1 none]

theorem never_stuck_readerAlone :
    let s := (exec step init readerAlone).get (by decide)
    s.threads = [.writer .outside, .reader .waitingCanRead] ∧
    ∃ k wake, (step s (.run k wake)).isSome :=
  ⟨by decide, never_stuck (run_of_isSome init readerAlone (by decide)) (by decide)⟩

end OsLabs.Monitor
