import OsLabs.Proofs.Wr
import OsLabs.Spec.WrLines

/-! What `wr.c` prints. The books of the two calls' model hold of the processes taken
statement by statement: there is one writer inside at most, and none comes in next to a
reader. So the writers go through the alphabet one by one, and what a reader has computed
is overtaken by the write of one writer at most. -/

namespace OsLabs.Wr.Lines

open Section

variable {s s' : State} {t : Wr.State} {e : Event} {k : ℕ} {p q : Proc}

theorem semop_cases {ops : List (Sembuf Sem)} (h : s.semop ops k q = some s') :
    ∃ sem, OsLabs.semop s.sem ops = .done sem ∧ s' = { s.goto k q with sem := sem } := by
  obtain ⟨sem, hsem, h⟩ := Option.bind_eq_some_iff.1 h
  exact ⟨sem, Semop.result_eq_some.1 hsem, (Option.some.inj h).symm⟩

theorem step_cases (h : step s e = some s') :
    (∃ r, s' = { s with procs := s.procs ++ [newProc r] }) ∨
    (∃ k r, s.procs[k]? = some (.reader r) ∧ stepReader s k r = some s') ∨
    (∃ k w, s.procs[k]? = some (.writer w) ∧ stepWriter s k w = some s') ∨
    (∃ k p q, s.procs[k]? = some p ∧ failed p = some q ∧ s' = s.goto k q) ∨
    (∃ k p q, s.procs[k]? = some p ∧ ended p = some q ∧ s' = s.goto k q) := by
  cases e with
  | spawn r => exact .inl ⟨r, (Option.some.inj h).symm⟩
  | run k =>
    obtain ⟨p, hk, h⟩ := Option.bind_eq_some_iff.1 h
    cases p with
    | reader r => exact .inr (.inl ⟨k, r, hk, h⟩)
    | writer w => exact .inr (.inr (.inl ⟨k, w, hk, h⟩))
  | fail k =>
    obtain ⟨q, hq, h⟩ := Option.bind_eq_some_iff.1 h
    obtain ⟨p, hk, hq⟩ := Option.bind_eq_some_iff.1 hq
    exact .inr (.inr (.inr (.inl ⟨k, p, q, hk, hq, (Option.some.inj h).symm⟩)))
  | quit k =>
    obtain ⟨q, hq, h⟩ := Option.bind_eq_some_iff.1 h
    obtain ⟨p, hk, hq⟩ := Option.bind_eq_some_iff.1 hq
    exact .inr (.inr (.inr (.inr ⟨k, p, q, hk, hq, (Option.some.inj h).symm⟩)))

/-! ### The two calls -/

theorem stands_init : Stands init Wr.init := ⟨rfl, rfl⟩

theorem Stands.get (hst : Stands s t) (hk : s.procs[k]? = some p) :
    t.procs[k]? = some (place p) := by
  rw [hst.procs, List.getElem?_map, hk, Option.map_some]

theorem Stands.goto (hst : Stands s t) {sem : Sem → ℕ} {shm : ℤ} {lines : List (Role × ℤ)}
    {data : Shm} {bodies releases : List Role} :
    Stands ⟨sem, shm, lines, s.procs.set k q⟩
      ⟨sem, data, t.procs.set k (place q), bodies, releases⟩ := by
  refine ⟨rfl, ?_⟩
  rw [hst.procs, List.map_set]

theorem Stands.stay (hst : Stands s t) (hk : s.procs[k]? = some p) (hpq : place q = place p) {shm : ℤ} :
    Stands ({ s with shm := shm }.goto k q) t := by
  refine ⟨hst.sem, ?_⟩
  rw [hst.procs]
  exact (map_set place hk hpq).symm

/-- The two calls' model takes the step too, or stays where it is. -/
def Follows (s' : State) (t : Wr.State) : Prop :=
  Stands s' t ∨ ∃ e t', wr.step t e = some t' ∧ Stands s' t'

theorem follows_lock (hst : Stands s t) {r : Role} (hk : s.procs[k]? = some p)
    (hp : place p = ⟨r, .outside⟩) (hq : place q = ⟨r, .entered⟩)
    (h : s.semop (wr.lock r) k q = some s') : Follows s' t := by
  obtain ⟨sem, hsem, rfl⟩ := semop_cases h
  have hkt := hst.get hk
  rw [hp] at hkt
  rw [← hst.sem] at hsem
  have hgoto := @Stands.goto s t k q hst sem s.shm s.lines t.data t.bodies t.releases
  rw [hq] at hgoto
  exact .inr ⟨_, _, wr.step_lock hkt hsem, hgoto⟩

theorem follows_release (hst : Stands s t) {r : Role} (hk : s.procs[k]? = some p)
    (hp : place p = ⟨r, .finished⟩) (hq : place q = ⟨r, .outside⟩)
    (h : s.semop (wr.release r) k q = some s') : Follows s' t := by
  obtain ⟨sem, hsem, rfl⟩ := semop_cases h
  have hkt := hst.get hk
  rw [hp] at hkt
  rw [← hst.sem] at hsem
  have hgoto := @Stands.goto s t k q hst sem s.shm s.lines t.data t.bodies (t.releases ++ [r])
  rw [hq] at hgoto
  exact .inr ⟨_, _, wr.step_release hkt hsem, hgoto⟩

theorem follows_printf (hst : Stands s t) {r : Role} {ch : ℤ} (hk : s.procs[k]? = some p)
    (hp : place p = ⟨r, .entered⟩) (hq : place q = ⟨r, .finished⟩) :
    Follows ((s.printf r ch).goto k q) t := by
  obtain ⟨data, hdata⟩ := Option.isSome_iff_exists.1 (show (wr.body r t.data).isSome by cases r <;> rfl)
  have hkt := hst.get hk
  rw [hp] at hkt
  have hgoto :=
    @Stands.goto s t k q hst t.sem s.shm (s.lines ++ [(r, ch)]) data (t.bodies ++ [r]) t.releases
  rw [hq] at hgoto
  refine .inr ⟨_, _, wr.step_body hkt hdata, ?_⟩
  rw [State.printf, State.goto, ← hst.sem]
  exact hgoto

theorem follows_reader (hst : Stands s t) {r : Reader} (hk : s.procs[k]? = some (.reader r))
    (h : stepReader s k r = some s') : Follows s' t := by
  cases r with
  | outside => exact follows_lock (r := .reader) hst hk rfl rfl h
  | entered =>
    obtain rfl := Option.some.inj h
    refine .inl (hst.stay hk ?_)
    rfl
  | computed ch =>
    obtain rfl := Option.some.inj h
    exact follows_printf hst hk rfl rfl
  | printed => exact follows_release (r := .reader) hst hk rfl rfl h
  | gone => simp [stepReader] at h
  | goneInside => simp [stepReader] at h

theorem follows_writer (hst : Stands s t) {w : Writer} (hk : s.procs[k]? = some (.writer w))
    (h : stepWriter s k w = some s') : Follows s' t := by
  cases w with
  | outside => exact follows_lock (r := .writer) hst hk rfl rfl h
  | entered =>
    obtain rfl := Option.some.inj h
    refine .inl (hst.stay hk ?_)
    rfl
  | computed ch =>
    obtain ⟨-, rfl⟩ : s.shm < INT_MAX ∧ _ = s' := by simpa [stepWriter] using h
    refine .inl (hst.stay hk ?_)
    rfl
  | incremented ch =>
    obtain rfl := Option.some.inj h
    exact follows_printf hst hk rfl rfl
  | printed => exact follows_release (r := .writer) hst hk rfl rfl h
  | gone => simp [stepWriter] at h
  | goneInside => simp [stepWriter] at h

theorem failed_place (h : failed p = some q) :
    (∃ r, place p = ⟨r, .outside⟩ ∧ place q = ⟨r, .gone⟩) ∨
    ∃ r, place p = ⟨r, .finished⟩ ∧ place q = ⟨r, .goneInside⟩ := by
  unfold failed at h
  split at h
  · exact .inl ⟨.reader, rfl, Option.some.inj h ▸ rfl⟩
  · exact .inr ⟨.reader, rfl, Option.some.inj h ▸ rfl⟩
  · exact .inl ⟨.writer, rfl, Option.some.inj h ▸ rfl⟩
  · exact .inr ⟨.writer, rfl, Option.some.inj h ▸ rfl⟩
  · simp at h

theorem ended_place (h : ended p = some q) :
    ∃ r, place p = ⟨r, .outside⟩ ∧ place q = ⟨r, .gone⟩ := by
  unfold ended at h
  split at h
  · exact ⟨.reader, rfl, Option.some.inj h ▸ rfl⟩
  · exact ⟨.writer, rfl, Option.some.inj h ▸ rfl⟩
  · simp at h

theorem follows_goto (hst : Stands s t) {r : Role} {ph : Phase} {e : Event} (hq : place q = ⟨r, ph⟩)
    (h : wr.step t e = some (Section.State.goto t k r ph)) : Follows (s.goto k q) t := by
  have hgoto := @Stands.goto s t k q hst t.sem s.shm s.lines t.data t.bodies t.releases
  rw [hst.sem, hq] at hgoto
  refine .inr ⟨e, _, h, ?_⟩
  rwa [Section.State.goto, hst.sem]

theorem follows_step (hst : Stands s t) (h : step s e = some s') : Follows s' t := by
  obtain ⟨r, rfl⟩ | ⟨k, r, hk, h⟩ | ⟨k, w, hk, h⟩ | ⟨k, p, q, hk, hq, rfl⟩ |
    ⟨k, p, q, hk, hq, rfl⟩ := step_cases h
  · refine .inr ⟨.spawn r, _, rfl, hst.sem, ?_⟩
    rw [hst.procs, List.map_append]
    cases r <;> rfl
  · exact follows_reader hst hk h
  · exact follows_writer hst hk h
  · have hkt := hst.get hk
    obtain ⟨r, hp, hq⟩ | ⟨r, hp, hq⟩ := failed_place hq
    · refine follows_goto (e := .fail k) hst hq ?_
      simp [Section.step, hkt, hp]
    · refine follows_goto (e := .fail k) hst hq ?_
      simp [Section.step, hkt, hp]
  · have hkt := hst.get hk
    obtain ⟨r, hp, hq⟩ := ended_place hq
    refine follows_goto (e := .quit k) hst hq ?_
    simp [Section.step, hkt, hp, wr]

/-- Every run is one of the two calls' model, with the bodies of the processes taken in one
step. -/
theorem run_follows {tr : List (State × Event)} (h : Run step init tr s) :
    ∃ tr' t, Run wr.step Wr.init tr' t ∧ Stands s t := by
  induction h with
  | nil => exact ⟨[], _, .nil, stands_init⟩
  | snoc _ he ih =>
    obtain ⟨tr', t, hrun, hst⟩ := ih
    rcases follows_step hst he with hst' | ⟨e', t', he', hst'⟩
    · exact ⟨tr', t, hrun, hst'⟩
    · exact ⟨_, t', hrun.snoc he', hst'⟩

/-! ### Who is inside -/

def inside (r : Role) (p : Proc) : Bool := (place p).role == r && (place p).phase.inside

theorem Stands.active (hst : Stands s t) (r : Role) :
    Wr.active r t = s.procs.countP (inside r) := by
  simp only [Wr.active, insideCount, hst.procs, List.countP_map]
  rfl

def Booked (s : State) : Prop := ∃ t, wr.Ledger semInit t ∧ Stands s t

theorem Booked.writers_le (hb : Booked s) : s.procs.countP (inside .writer) ≤ 1 := by
  obtain ⟨t, hl, hst⟩ := hb
  rw [← hst.active]
  have := binWriter_add hl
  omega

/-- `start_write` goes through only while no reader is inside. -/
theorem startWrite_done {sem sem' : Sem → ℕ} (h : OsLabs.semop sem startWrite = .done sem') :
    sem .ACTIVE_READERS = 0 := by
  simp only [startWrite, writerLock, V, List.take_succ_cons, List.take_zero, semop_cons_done] at h
  simpa using h.2.2.1

/-- Its write is in the shared memory and not yet among the lines. -/
def counted : Proc → Bool
  | .writer (.incremented _) => true
  | _ => false

def unprinted : Proc → Bool
  | .writer .entered | .writer (.computed _) | .writer (.incremented _) => true
  | _ => false

theorem inside_of_unprinted (h : unprinted p = true) : inside .writer p = true := by
  revert h
  fun_cases unprinted p <;> simp [inside, place]

theorem unprinted_of_counted (h : counted p = true) : unprinted p = true := by
  revert h
  fun_cases counted p <;> simp [unprinted]

theorem Booked.unprinted_le (hb : Booked s) : s.procs.countP unprinted ≤ 1 :=
  (List.countP_mono_left fun _ _ => inside_of_unprinted).trans hb.writers_le

/-- While a writer that has not printed has not counted its write, no other has. -/
theorem Booked.none_counted (hb : Booked s) (hk : s.procs[k]? = some p)
    (hp : unprinted p = true) (hc : counted p = false) : s.procs.countP counted = 0 := by
  rw [List.countP_eq_zero]
  intro q hq hcq
  obtain ⟨j, hj⟩ := List.mem_iff_getElem?.1 hq
  obtain rfl := eq_of_countP_le_one hb.unprinted_le hk hj hp (unprinted_of_counted hcq)
  obtain rfl : p = q := by rwa [hk, Option.some.injEq] at hj
  simp [hc] at hcq

/-! ### The letters -/

theorem written_snoc_writer (lines : List (Role × ℤ)) (ch : ℤ) :
    written (lines ++ [(Role.writer, ch)]) = written lines + 1 := by
  simp [written]

theorem written_snoc_reader (lines : List (Role × ℤ)) (ch : ℤ) :
    written (lines ++ [(Role.reader, ch)]) = written lines := by
  simp [written]

/-- What a process that stands at `p` is going to print: a writer the letter due, a reader
one that was due, which the writer that is inside may overtake. -/
def Holds (s : State) : Proc → Prop
  | .writer (.computed ch) | .writer (.incremented ch) => ch = due (written s.lines) .writer
  | .reader (.computed ch) => ∃ m : ℕ, ch = due m .reader ∧ m ≤ s.shm ∧
      written s.lines + s.procs.countP unprinted ≤ m + 1
  | _ => True

/-- The shared `int` has counted the lines of writers and the write still to be printed, and
what is printed and what is going to be is in time. -/
structure Lettered (s : State) : Prop where
  shm : s.shm = (written s.lines + s.procs.countP counted : ℕ)
  holds : ∀ p ∈ s.procs, Holds s p
  timely : ∀ before p after, s.lines = before ++ p :: after → Timely (written before) p

theorem Lettered.sem (hI : Lettered s) (sem : Sem → ℕ) : Lettered { s with sem := sem } where
  shm := hI.shm
  holds := hI.holds
  timely := hI.timely

/-- No writer has come in, and if one has printed then `p` is none with a letter. -/
theorem Holds.mono (h : Holds s p) (hshm : s.shm ≤ s'.shm)
    (hle : written s'.lines + s'.procs.countP unprinted ≤
      written s.lines + s.procs.countP unprinted)
    (hsame : unprinted p = true → written s'.lines = written s.lines) : Holds s' p := by
  cases p with
  | reader r =>
    cases r with
    | computed ch =>
      obtain ⟨m, hch, hm, hlt⟩ := h
      exact ⟨m, hch, hm.trans hshm, hle.trans hlt⟩
    | outside | entered | printed | gone | goneInside => trivial
  | writer w =>
    cases w with
    | computed ch => rwa [Holds, hsame rfl]
    | incremented ch => rwa [Holds, hsame rfl]
    | outside | entered | printed | gone | goneInside => trivial

theorem Lettered.goto (hI : Lettered s) (hk : s.procs[k]? = some p) (hc : counted q = counted p)
    (hu : unprinted q = true → unprinted p = true) (hq : Holds s q) : Lettered (s.goto k q) := by
  have hcounted := countP_set counted hk q
  rw [hc] at hcounted
  have hunprinted := countP_set unprinted hk q
  have hle : written (s.goto k q).lines + (s.goto k q).procs.countP unprinted ≤
      written s.lines + s.procs.countP unprinted := by
    simp only [State.goto]
    split_ifs at hunprinted with hp hq' hq'
    · omega
    · omega
    · exact absurd (hu hq') hp
    · omega
  refine ⟨?_, ?_, hI.timely⟩
  · rw [State.goto, Nat.add_right_cancel hcounted]
    exact hI.shm
  · intro u hmem
    rcases List.mem_or_eq_of_mem_set hmem with hmem | rfl
    · exact (hI.holds u hmem).mono le_rfl hle fun _ => rfl
    · exact hq.mono le_rfl hle fun _ => rfl

end OsLabs.Wr.Lines
