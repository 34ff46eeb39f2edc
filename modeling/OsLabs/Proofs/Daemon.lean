import OsLabs.Spec.Daemon

/-! One daemon at a time. The lock belongs to the one instance past its `fcntl`, and only
that one writes to the lock file; what an instance without it does leaves both alone. -/

namespace OsLabs.Daemon

/-! ### Descriptors -/

section
variable {γ : Type} {t : Table γ} {rlim_cur rlim_max : ℕ}

theorem closeAll_apply (rlim_max : ℕ) (t : Table γ) (fd : ℕ) :
    closeAll rlim_max t fd = if fd < rlim_max then none else t fd := by
  unfold closeAll
  induction rlim_max with
  | zero => simp
  | succ n ih =>
    rw [List.range_succ, List.foldl_append, List.foldl_cons, List.foldl_nil,
      Function.update_apply, ih]
    split_ifs <;> first | rfl | omega

theorem lowestFree_eq {fd : ℕ} (hlt : fd < rlim_cur) (hfree : t fd = none)
    (hbelow : ∀ i < fd, (t i).isSome) : lowestFree rlim_cur t = some fd := by
  unfold lowestFree
  rw [List.find?_range_eq_some]
  refine ⟨by rw [hfree]; rfl, List.mem_range.2 hlt, ?_⟩
  intro i hi
  simpa using hbelow i hi

theorem lowestFree_none (hfull : ∀ i < rlim_cur, (t i).isSome) : lowestFree rlim_cur t = none := by
  unfold lowestFree
  rw [List.find?_eq_none]
  intro i hi
  have := hfull i (List.mem_range.1 hi)
  simpa using Option.isSome_iff_ne_none.1 this

def withFirst (file : γ) (n : ℕ) (t : Table γ) : Table γ := fun fd => if fd < n then some file else t fd

theorem update_withFirst (file : γ) (n : ℕ) (t : Table γ) :
    Function.update (withFirst file n t) n (some file) = withFirst file (n + 1) t := by
  funext fd
  rw [Function.update_apply]
  unfold withFirst
  split_ifs <;> first | rfl | omega

theorem openFile_withFirst (file : γ) {n : ℕ} (hfree : n < rlim_cur → t n = none) :
    openFile rlim_cur (some file) (withFirst file n t) =
      if n < rlim_cur then (withFirst file (n + 1) t, (n : ℤ)) else (withFirst file n t, -1) := by
  have hbelow : ∀ i < n, (withFirst file n t i).isSome := by
    intro i hi
    simp [withFirst, hi]
  unfold openFile
  split_ifs with hlt
  · have hn : withFirst file n t n = none := by simpa [withFirst] using hfree hlt
    rw [lowestFree_eq hlt hn hbelow, ← update_withFirst]
  · rw [lowestFree_none fun i hi => hbelow i (by omega)]

theorem dup_withFirst (file : γ) {n : ℕ} (hfree : n + 1 < rlim_cur → t (n + 1) = none) :
    dup rlim_cur 0 (withFirst file (n + 1) t) =
      if n + 1 < rlim_cur then (withFirst file (n + 2) t, ((n + 1 : ℕ) : ℤ))
      else (withFirst file (n + 1) t, -1) := by
  have hzero : withFirst file (n + 1) t 0 = some file := by simp [withFirst]
  rw [dup, hzero, openFile_withFirst file hfree]

/-- The three descriptors of a daemon are there exactly when the soft limit leaves room for
them and `/dev/null` can be opened. Then they are the null device, and nothing else is left
of what was below the hard limit, or below 1024 when there is none. -/
theorem daemonize_iff (rlim_cur : ℕ) (rlim_max : Option ℕ) (null : Option γ) (t : Table γ)
    (hmax : ∀ m, rlim_max = some m → rlim_cur ≤ m) (t' : Table γ) :
    daemonize rlim_cur rlim_max null t = some t' ↔
      3 ≤ rlim_cur ∧ ∃ file, null = some file ∧
        t' = fun fd => if fd < 3 then some file
          else if fd < rlim_max.getD 1024 then none else t fd := by
  cases null with
  | none => simp [daemonize, openFile]
  | some file =>
    have hclosed : ∀ fd < 3, fd < rlim_cur → closeAll (rlim_max.getD 1024) t fd = none := by
      intro fd h3 hlt
      rw [closeAll_apply, if_pos]
      cases hm : rlim_max with
      | none =>
        rw [Option.getD_none]
        omega
      | some m => exact lt_of_lt_of_le hlt (hmax m hm)
    have hfirst := openFile_withFirst file (hclosed 0 (by decide))
    have hsecond := dup_withFirst file (hclosed 1 (by decide))
    have hthird := dup_withFirst file (hclosed 2 (by decide))
    rw [show withFirst file 0 (closeAll (rlim_max.getD 1024) t) = closeAll (rlim_max.getD 1024) t
      from rfl] at hfirst
    simp only [daemonize, hfirst, Option.some.injEq, exists_eq_left']
    by_cases h0 : 0 < rlim_cur
    · by_cases h1 : 1 < rlim_cur
      · by_cases h2 : 2 < rlim_cur
        · have hroom : 3 ≤ rlim_cur := h2
          have htable : withFirst file 3 (closeAll (rlim_max.getD 1024) t) = fun fd =>
              if fd < 3 then some file else if fd < rlim_max.getD 1024 then none else t fd := by
            funext fd
            simp only [withFirst, closeAll_apply]
          simp [h0, h1, h2, hsecond, hthird, hroom, htable, eq_comm]
        · have hroom : ¬ 3 ≤ rlim_cur := by omega
          simp [h0, h1, h2, hsecond, hthird, hroom]
      · have hroom : ¬ 3 ≤ rlim_cur := by omega
        simp [h0, h1, hsecond, hroom]
    · have hroom : ¬ 3 ≤ rlim_cur := by omega
      simp [h0, hroom]

end

/-- A shell's terminal on the first three descriptors gives way to the null device. -/
theorem daemonize_iff_terminal :
    daemonize 1024 none (some 0) (fun fd => if fd < 3 then some 1 else none) =
      some fun fd => if fd < 3 then some 0 else none := by
  apply (daemonize_iff 1024 none (some 0) _ nofun _).2
  refine ⟨by decide, 0, rfl, ?_⟩
  funext fd
  split_ifs <;> rfl

/-! ### The lock -/

variable {s s' : State} {e : Event} {k : ℕ} {i : Instance}

theorem step_cases (h : step s e = some s') :
    (∃ pid, s' = { s with instances := s.instances ++ [⟨pid, .openFile⟩] }) ∨
    ∃ k i, s.instances[k]? = some i ∧
      (i.phase = .openFile ∧ s' = s.goto k i .lockfile ∨
      i.phase ≠ .gone ∧ s' = s.exit k i ∨
      i.phase = .lockfile ∧ s.owner = none ∧ s' = { s.goto k i .ftruncate with owner := some k } ∨
      (∃ ok, i.phase = .ftruncate ∧
        s' = { s.goto k i (.write ok) with contents := if ok then [] else s.contents }) ∨
      ∃ truncated count, i.phase = .write truncated ∧
        s' = { s.goto k i (.running (truncated && (pidText i.pid).length ≤ count)) with
          contents := (pidText i.pid).take count ++
            s.contents.drop ((pidText i.pid).take count).length }) := by
  cases e with
  | start pid =>
    simp only [step] at h
    split_ifs at h
    exact .inl ⟨pid, (Option.some.inj h).symm⟩
  | openFile k ok =>
    obtain ⟨i, hk, h⟩ := Option.bind_eq_some_iff.1 h
    split_ifs at h with hph hok
    · exact .inr ⟨k, i, hk, .inl ⟨hph, (Option.some.inj h).symm⟩⟩
    · exact .inr ⟨k, i, hk, .inr (.inl ⟨by simp [hph], (Option.some.inj h).symm⟩)⟩
  | lockfile k =>
    obtain ⟨i, hk, h⟩ := Option.bind_eq_some_iff.1 h
    split_ifs at h with hph
    cases howner : s.owner with
    | none =>
      simp only [howner, Option.some.injEq] at h
      exact .inr ⟨k, i, hk, .inr (.inr (.inl ⟨hph, rfl, h.symm⟩))⟩
    | some j =>
      simp only [howner, Option.some.injEq] at h
      exact .inr ⟨k, i, hk, .inr (.inl ⟨by simp [hph], h.symm⟩)⟩
  | lockError k =>
    obtain ⟨i, hk, h⟩ := Option.bind_eq_some_iff.1 h
    split_ifs at h with hph
    exact .inr ⟨k, i, hk, .inr (.inl ⟨by simp [hph], (Option.some.inj h).symm⟩)⟩
  | ftruncate k ok =>
    obtain ⟨i, hk, h⟩ := Option.bind_eq_some_iff.1 h
    have hph : i.phase = .ftruncate := by
      by_contra hph
      simp [hph] at h
    rw [if_pos hph] at h
    exact .inr ⟨k, i, hk, .inr (.inr (.inr (.inl ⟨ok, hph, (Option.some.inj h).symm⟩)))⟩
  | write k count =>
    obtain ⟨i, hk, h⟩ := Option.bind_eq_some_iff.1 h
    cases hph : i.phase with
    | write truncated =>
      simp only [hph, Option.some.injEq] at h
      exact .inr ⟨k, i, hk, .inr (.inr (.inr (.inr ⟨truncated, count, hph, h.symm⟩)))⟩
    | _ => simp [hph] at h
  | exit k =>
    obtain ⟨i, hk, h⟩ := Option.bind_eq_some_iff.1 h
    split_ifs at h with hph
    exact .inr ⟨k, i, hk, .inr (.inl ⟨hph, (Option.some.inj h).symm⟩)⟩

/-- The invariant: the lock and the instance past its `fcntl` belong together, and the lock
file holds what that one has made of it. -/
structure Inv (s : State) : Prop where
  locked : ∀ k i, s.instances[k]? = some i → i.phase.locked = true → s.owner = some k
  owner : ∀ k, s.owner = some k → ∃ i, s.instances[k]? = some i ∧ i.phase.locked = true
  truncated : ∀ i ∈ s.instances, i.phase = .write true → s.contents = []
  recorded : ∀ i ∈ s.instances, i.phase = .running true → s.contents = pidText i.pid

theorem inv_init (contents : List Char) : Inv (init contents) where
  locked k i hk := by simp [init] at hk
  owner k hk := by simp [init] at hk
  truncated i hi := absurd hi List.not_mem_nil
  recorded i hi := absurd hi List.not_mem_nil

theorem Phase.locked_of_write {ph : Phase} {b : Bool} (h : ph = .write b) : ph.locked = true := by
  rw [h]
  rfl

theorem Phase.locked_of_running {ph : Phase} {b : Bool} (h : ph = .running b) :
    ph.locked = true := by
  rw [h]
  rfl

/-- While instance `k` is past its `fcntl`, the others are not. -/
theorem Inv.eq_of_locked (hi : Inv s) {j : ℕ} {i' : Instance} (hk : s.owner = some k)
    (hj : s.instances[j]? = some i') (hl : i'.phase.locked = true) : j = k := by
  have := hi.locked j i' hj hl
  rw [hk] at this
  exact (Option.some.inj this).symm

theorem Inv.unlocked (hi : Inv s) (hk : s.instances[k]? = some i)
    (hnot : i.phase.locked = false) (ph : Phase) (hph : ph.locked = false) :
    Inv (s.goto k i ph) where
  locked := by
    apply forall_set hi.locked
    intro hl
    simp [hph] at hl
  owner j hj := by
    obtain ⟨i', hget, hl⟩ := hi.owner j hj
    refine ⟨i', ?_, hl⟩
    have hne : k ≠ j := by
      rintro rfl
      obtain rfl := Option.some.inj (hget.symm.trans hk)
      rw [hnot] at hl
      exact Bool.noConfusion hl
    rw [State.goto, List.getElem?_set_ne hne, hget]
  truncated i' hmem hw := by
    rcases List.mem_or_eq_of_mem_set hmem with hmem | rfl
    · exact hi.truncated i' hmem hw
    · simp [Phase.locked_of_write hw] at hph
  recorded i' hmem hr := by
    rcases List.mem_or_eq_of_mem_set hmem with hmem | rfl
    · exact hi.recorded i' hmem hr
    · simp [Phase.locked_of_running hr] at hph

/-- The instance that has the lock, or takes it, goes on; nobody else has anything to do with
the lock file. -/
theorem Inv.owned (hi : Inv s) (hk : s.instances[k]? = some i)
    (howner : s.owner = some k ∨ s.owner = none) {ph : Phase} (hph : ph.locked = true)
    (contents : List Char) (ht : ph = .write true → contents = [])
    (hr : ph = .running true → contents = pidText i.pid) :
    Inv ⟨s.instances.set k { i with phase := ph }, some k, contents⟩ := by
  have hothers : ∀ j i', (s.instances.set k { i with phase := ph })[j]? = some i' →
      i'.phase.locked = true → j = k := by
    intro j i' hget hl
    by_contra hne
    rw [List.getElem?_set_ne (Ne.symm hne)] at hget
    rcases howner with howner | howner
    · exact hne (hi.eq_of_locked howner hget hl)
    · have := hi.locked j i' hget hl
      rw [howner] at this
      cases this
  have hself : ∀ i' ∈ s.instances.set k { i with phase := ph }, i'.phase.locked = true →
      i' = { i with phase := ph } := by
    intro i' hmem hl
    obtain ⟨j, hget⟩ := List.mem_iff_getElem?.1 hmem
    obtain rfl := hothers j i' hget hl
    rw [get_set hk] at hget
    exact (Option.some.inj hget).symm
  refine ⟨?_, ?_, ?_, ?_⟩
  · intro j i' hget hl
    rw [hothers j i' hget hl]
  · intro j hj
    obtain rfl := Option.some.inj hj
    exact ⟨_, get_set hk _, hph⟩
  · intro i' hmem hw
    obtain rfl := hself i' hmem (Phase.locked_of_write hw)
    exact ht hw
  · intro i' hmem hrun
    obtain rfl := hself i' hmem (Phase.locked_of_running hrun)
    exact hr hrun

theorem Inv.exit (hi : Inv s) (hk : s.instances[k]? = some i) : Inv (s.exit k i) := by
  cases hl : i.phase.locked with
  | false =>
    have hne : s.owner ≠ some k := by
      intro howner
      obtain ⟨i', hget, hl'⟩ := hi.owner k howner
      obtain rfl := Option.some.inj (hget.symm.trans hk)
      rw [hl] at hl'
      exact Bool.noConfusion hl'
    have := hi.unlocked hk hl .gone rfl
    simpa [State.exit, State.goto, hne] using this
  | true =>
    have howner := hi.locked k i hk hl
    have hnone : ∀ (j : ℕ) (i' : Instance), (s.instances.set k { i with phase := .gone })[j]? = some i' →
        i'.phase.locked = false := by
      intro j i' hget
      rw [List.getElem?_set] at hget
      split_ifs at hget with hkj hlt
      · obtain rfl := Option.some.inj hget
        rfl
      · by_contra hl'
        exact hkj (hi.eq_of_locked howner hget (by simpa using hl')).symm
    have hmem : ∀ i' ∈ s.instances.set k { i with phase := .gone }, i'.phase.locked = false := by
      intro i' hmem
      obtain ⟨j, hget⟩ := List.mem_iff_getElem?.1 hmem
      exact hnone j i' hget
    simp only [State.exit, State.goto, howner, if_true]
    refine ⟨?_, nofun, ?_, ?_⟩
    · intro j i' hget hl'
      rw [hnone j i' hget] at hl'
      exact Bool.noConfusion hl'
    · intro i' hi' hw
      have := hmem i' hi'
      rw [Phase.locked_of_write hw] at this
      exact Bool.noConfusion this
    · intro i' hi' hr
      have := hmem i' hi'
      rw [Phase.locked_of_running hr] at this
      exact Bool.noConfusion this

theorem inv_step (hi : Inv s) (h : step s e = some s') : Inv s' := by
  obtain ⟨pid, rfl⟩ | ⟨k, i, hk, ⟨hph, rfl⟩ | ⟨-, rfl⟩ | ⟨hph, howner, rfl⟩ |
    ⟨ok, hph, rfl⟩ | ⟨truncated, count, hph, rfl⟩⟩ := step_cases h
  · refine ⟨?_, ?_, ?_, ?_⟩
    · exact forall_snoc hi.locked fun _ hl => by simp [Phase.locked] at hl
    · intro k hk
      obtain ⟨i, hget, hl⟩ := hi.owner k hk
      exact ⟨i, get_snoc hget _, hl⟩
    · intro i hmem hw
      rcases List.mem_append.1 hmem with hmem | hmem
      · exact hi.truncated i hmem hw
      · obtain rfl := List.mem_singleton.1 hmem
        exact absurd hw nofun
    · intro i hmem hr
      rcases List.mem_append.1 hmem with hmem | hmem
      · exact hi.recorded i hmem hr
      · obtain rfl := List.mem_singleton.1 hmem
        exact absurd hr nofun
  · exact hi.unlocked hk (by rw [hph]; rfl) .lockfile rfl
  · exact hi.exit hk
  · exact hi.owned hk (.inr howner) rfl s.contents nofun nofun
  · have howner := hi.locked k i hk (by rw [hph]; rfl)
    have hlocked : (Phase.write ok).locked = true := rfl
    have := hi.owned hk (.inl howner) hlocked (if ok then [] else s.contents)
      (fun hw => by rw [if_pos (Phase.write.inj hw)]) nofun
    simpa [State.goto, howner] using this
  · have howner := hi.locked k i hk (Phase.locked_of_write hph)
    have hlocked : (Phase.running (truncated && (pidText i.pid).length ≤ count)).locked = true := rfl
    have := hi.owned hk (.inl howner) hlocked
      ((pidText i.pid).take count ++ s.contents.drop ((pidText i.pid).take count).length) nofun ?_
    · simpa [State.goto, howner] using this
    · intro hrec
      simp only [Phase.running.injEq, Bool.and_eq_true, decide_eq_true_eq] at hrec
      have hempty := hi.truncated i (List.mem_of_getElem? hk) (by rw [hph, hrec.1])
      rw [hempty, List.take_of_length_le hrec.2, List.drop_nil, List.append_nil]

/-- In every interleaving, with calls that fail and instances that are killed: one instance
at most is past its `fcntl`; while it runs, and if its `ftruncate` and `write` went through,
the lock file holds its number and a NUL and nothing else; and an instance is sent away
exactly when there is such another one. -/
theorem one_daemon (contents : List Char) {tr : List (State × Event)} {s : State}
    (h : Run step (init contents) tr s) :
    (∀ (j k : ℕ) (i i' : Instance), s.instances[j]? = some i → s.instances[k]? = some i' →
      i.phase.locked = true → i'.phase.locked = true → j = k) ∧
    (∀ i ∈ s.instances, i.phase = .running true → s.contents = pidText i.pid) ∧
    EachStep (fun t e => Refused t e ↔
      (∃ k, e = .lockfile k) ∧ ∃ i ∈ t.instances, i.phase.locked = true) tr := by
  have hall : Always Inv tr s := h.always (inv_init contents) fun _ _ _ => inv_step
  refine ⟨?_, hall.2.recorded, ?_⟩
  · intro j k i i' hj hk hl hl'
    exact hall.2.eq_of_locked (hall.2.locked k i' hk hl') hj hl
  · intro p hp
    refine and_congr_right fun _ => ?_
    refine ⟨?_, ?_⟩
    · intro hne
      obtain ⟨k, hk⟩ := Option.ne_none_iff_exists'.1 hne
      obtain ⟨i, hget, hl⟩ := (hall.1 p hp).owner k hk
      exact ⟨i, List.mem_of_getElem? hget, hl⟩
    · rintro ⟨i, hmem, hl⟩
      obtain ⟨k, hk⟩ := List.mem_iff_getElem?.1 hmem
      rw [(hall.1 p hp).locked k i hk hl]
      exact nofun

/-- Two instances over a lock file left from an earlier one, and the second one late. -/
def lateInstance : List Event :=
  [.start 41, .start 42, .openFile 0 true, .lockfile 0, .openFile 1 true, .ftruncate 0 true,
    .write 0 3, .lockfile 1]

theorem one_daemon_lateInstance :
    let old := ['1', '2', '3', '4']
    let s := (exec step (init old) lateInstance).get (by decide)
    s.contents = ['4', '1', Char.ofNat 0] ∧
    (∀ (j k : ℕ) (i i' : Instance), s.instances[j]? = some i → s.instances[k]? = some i' →
      i.phase.locked = true → i'.phase.locked = true → j = k) ∧
    (∀ i ∈ s.instances, i.phase = .running true → s.contents = pidText i.pid) ∧
    EachStep (fun t e => Refused t e ↔
      (∃ k, e = .lockfile k) ∧ ∃ i ∈ t.instances, i.phase.locked = true)
      (trace step (init old) lateInstance) :=
  ⟨by decide, one_daemon _ (run_of_isSome (init ['1', '2', '3', '4']) lateInstance (by decide))⟩

end OsLabs.Daemon
