import OsLabs.Spec.Letters

/-! When the letters go on cyclically. With the critical sections apart, what a thread
prints depends on nothing but how many letters were written before, by the values `ch`
has gone through. -/

namespace OsLabs.Letters

open Monitor (Role)

variable {s s' : State} {e : Event} {k : ℕ} {t u : Thread}

theorem step_cases (h : step s e = some s') :
    (∃ r, e = .createThread r ∧ s' = { s with threads := s.threads ++ [newThread r] }) ∨
    (∃ k r, e = .run k ∧ s.threads[k]? = some (.reader r) ∧ s' = stepReader s k r) ∨
    (∃ k w, e = .run k ∧ s.threads[k]? = some (.writer w) ∧ s' = stepWriter s k w) := by
  cases e with
  | createThread r => exact .inl ⟨r, rfl, (Option.some.inj h).symm⟩
  | run k =>
    simp only [step, Option.bind_eq_bind] at h
    obtain ⟨t, hk, h⟩ := Option.bind_eq_some_iff.1 h
    cases t with
    | reader r => exact .inr (.inl ⟨k, r, rfl, hk, (Option.some.inj h).symm⟩)
    | writer w => exact .inr (.inr ⟨k, w, rfl, hk, (Option.some.inj h).symm⟩)

/-! ### Who is inside -/

def pending : Thread → Option (Role × ℤ)
  | .reader (.computed c) => some (.reader, c)
  | .writer (.computed c) | .writer (.incremented c) => some (.writer, c)
  | _ => none

/-- Its write is counted in `ch`, but not yet among the letters printed. -/
def counted : Thread → Bool
  | .writer (.incremented _) => true
  | _ => false

theorem inside_of_pending {p : Role × ℤ} (h : pending t = some p) :
    reads t = true ∨ writes t = true := by
  cases t with
  | reader r => cases r <;> simp_all [pending, reads]
  | writer w => cases w <;> simp_all [pending, writes]

theorem writes_of_counted (h : counted t = true) : writes t = true := by
  cases t with
  | reader r => simp [counted] at h
  | writer w => cases w <;> simp_all [counted, writes]

/-- A writer that is inside is there alone. -/
theorem Apart.alone (ha : Apart s) {j : ℕ} (hk : s.threads[k]? = some t) (hw : writes t = true)
    (hj : s.threads[j]? = some u) (hu : reads u = true ∨ writes u = true) : j = k := by
  obtain ⟨hone, hnone⟩ := ha
  rcases hu with hu | hu
  · have hwriters : 0 < s.writers := List.countP_pos_iff.2 ⟨t, List.mem_of_getElem? hk, hw⟩
    have hreaders : 0 < s.readers := List.countP_pos_iff.2 ⟨u, List.mem_of_getElem? hj, hu⟩
    rw [hnone hwriters] at hreaders
    exact absurd hreaders (lt_irrefl 0)
  · exact eq_of_countP_le_one hone hj hk hu hw

/-- While a thread is inside and has not counted a write, no other has. -/
theorem Apart.none_counted (ha : Apart s) (hk : s.threads[k]? = some t)
    (ht : reads t = true ∨ writes t = true) (hc : counted t = false) :
    s.threads.countP counted = 0 := by
  rw [List.countP_eq_zero]
  intro u hu hcu
  obtain ⟨j, hj⟩ := List.mem_iff_getElem?.1 hu
  obtain rfl := ha.alone hj (writes_of_counted hcu) hk ht
  obtain rfl : t = u := by rwa [hk, Option.some.injEq] at hj
  simp [hc] at hcu

/-- When a writer has printed, no thread is about to print. -/
theorem Apart.none_pending (ha : Apart s) (hk : s.threads[k]? = some t) (hw : writes t = true)
    {t' : Thread} (ht' : pending t' = none) : ∀ u ∈ s.threads.set k t', pending u = none := by
  intro u hu
  obtain ⟨j, hj⟩ := List.mem_iff_getElem?.1 hu
  rw [List.getElem?_set] at hj
  split_ifs at hj with hkj hlt
  · obtain rfl := Option.some.inj hj
    exact ht'
  · cases hp : pending u with
    | none => rfl
    | some p => exact absurd (ha.alone hk hw hj (inside_of_pending hp)).symm hkj

/-! ### What is printed -/

def shown (n : ℕ) : Role → ℤ
  | .writer => 97 + ((n : ℤ).bmod 256).tmod 26
  | .reader => 97 + ((n : ℤ).bmod 256 - 1).tmod 26

def Recorded (log : List (Role × ℤ)) : Prop :=
  ∀ before p after, log = before ++ p :: after → p.2 = shown (written before) p.1

theorem recorded_snoc {log : List (Role × ℤ)} {p : Role × ℤ} :
    Recorded (log ++ [p]) ↔ Recorded log ∧ p.2 = shown (written log) p.1 :=
  forall_split_snoc (P := fun before p => p.2 = shown (written before) p.1)

theorem written_snoc_writer (log : List (Role × ℤ)) (c : ℤ) :
    written (log ++ [(Role.writer, c)]) = written log + 1 := by
  simp [written]

theorem written_snoc_reader (log : List (Role × ℤ)) (c : ℤ) :
    written (log ++ [(Role.reader, c)]) = written log := by
  simp [written]

/-- `ch` has counted the writes, and the letters printed, and about to be printed, are
those for their numbers of writes. -/
structure Inv (s : State) : Prop where
  ch : s.ch = ((written s.printed + s.threads.countP counted : ℕ) : ℤ).bmod 256
  pending : ∀ t ∈ s.threads, ∀ p, pending t = some p → p.2 = shown (written s.printed) p.1
  recorded : Recorded s.printed

theorem inv_init : Inv init := ⟨by decide, by simp [init], by simp [Recorded, init]⟩

theorem Inv.goto (hI : Inv s) {t' : Thread} (hk : s.threads[k]? = some t)
    (hc : counted t' = counted t)
    (hp : ∀ p, Letters.pending t' = some p → p.2 = shown (written s.printed) p.1) :
    Inv (s.goto k t') := by
  have hcount := countP_set counted hk t'
  rw [hc] at hcount
  refine ⟨?_, ?_, hI.recorded⟩
  · rw [State.goto, Nat.add_right_cancel hcount]
    exact hI.ch
  · intro u hu
    rcases List.mem_or_eq_of_mem_set hu with hu | rfl
    · exact hI.pending u hu
    · exact hp

theorem inv_stepReader (hI : Inv s) (ha : Apart s) {r : Reader}
    (hk : s.threads[k]? = some (.reader r)) : Inv (stepReader s k r) := by
  cases r with
  | outside => exact hI.goto hk rfl nofun
  | entered =>
    refine hI.goto hk rfl ?_
    intro p hp
    have hch := hI.ch
    rw [ha.none_counted hk (.inl rfl) rfl, Nat.add_zero] at hch
    obtain rfl : (Role.reader, 97 + (s.ch - 1).tmod 26) = p := Option.some.inj hp
    rw [hch]
    rfl
  | computed c =>
    have hc := hI.pending _ (List.mem_of_getElem? hk) _ rfl
    have hprinted : Inv (s.printf .reader c) := by
      refine ⟨?_, ?_, recorded_snoc.2 ⟨hI.recorded, hc⟩⟩
      · rw [State.printf, written_snoc_reader]
        exact hI.ch
      · rw [State.printf, written_snoc_reader]
        exact hI.pending
    exact hprinted.goto (t := .reader (.computed c)) hk rfl nofun
  | printed => exact hI.goto hk rfl nofun

theorem inv_stepWriter (hI : Inv s) (ha : Apart s) {w : Writer}
    (hk : s.threads[k]? = some (.writer w)) : Inv (stepWriter s k w) := by
  cases w with
  | outside => exact hI.goto hk rfl nofun
  | entered =>
    refine hI.goto hk rfl ?_
    intro p hp
    have hch := hI.ch
    rw [ha.none_counted hk (.inr rfl) rfl, Nat.add_zero] at hch
    obtain rfl : (Role.writer, 97 + s.ch.tmod 26) = p := Option.some.inj hp
    rw [hch]
    rfl
  | computed c =>
    have hcount := countP_set counted hk (.writer (.incremented c))
    refine ⟨?_, ?_, hI.recorded⟩
    · simp only [counted, Bool.false_eq_true, if_false, if_true, Nat.add_zero] at hcount
      simp only [stepWriter, State.goto, hcount, hI.ch, Int.bmod_add_bmod]
      push_cast
      rw [add_assoc]
    · intro u hu
      rcases List.mem_or_eq_of_mem_set hu with hu | rfl
      · exact hI.pending u hu
      · intro p hp
        exact hI.pending _ (List.mem_of_getElem? hk) p hp
  | incremented c =>
    have hc := hI.pending _ (List.mem_of_getElem? hk) _ rfl
    have hcount := countP_set counted hk (.writer .printed)
    refine ⟨?_, ?_, recorded_snoc.2 ⟨hI.recorded, hc⟩⟩
    · simp only [counted, Bool.false_eq_true, if_false, if_true, Nat.add_zero] at hcount
      simp only [stepWriter, State.goto, State.printf, written_snoc_writer, hI.ch, ← hcount]
      congr 2
      omega
    · intro u hu p hp
      rw [ha.none_pending hk rfl rfl u hu] at hp
      simp at hp
  | printed => exact hI.goto hk rfl nofun

theorem inv_step (hI : Inv s) (ha : Apart s) (h : step s e = some s') : Inv s' := by
  obtain ⟨r, -, rfl⟩ | ⟨k, r, -, hk, rfl⟩ | ⟨k, w, -, hk, rfl⟩ := step_cases h
  · refine ⟨?_, ?_, hI.recorded⟩
    · have hcount : (s.threads ++ [newThread r]).countP counted = s.threads.countP counted := by
        cases r <;> simp [newThread, counted]
      simp only [hcount]
      exact hI.ch
    · intro u hu
      rcases List.mem_append.1 hu with hu | hu
      · exact hI.pending u hu
      · obtain rfl := List.mem_singleton.1 hu
        cases r <;> exact nofun
  · exact inv_stepReader hI ha hk
  · exact inv_stepWriter hI ha hk

theorem inv_run {tr : List (State × Event)} (h : Run step init tr s) (ha : Always Apart tr s) :
    Inv s := by
  induction h with
  | nil => exact inv_init
  | snoc _ he ih =>
    obtain ⟨ha, -⟩ := always_snoc.1 ha
    exact inv_step (ih ha) ha.2 he

/-! ### Which letters are right -/

/-- The remainder C takes of `b` is that of `m`. -/
theorem tmod_eq_emod_iff (b m : ℤ) :
    b.tmod 26 = m % 26 ↔ (0 ≤ b ∧ (26 : ℤ) ∣ m - b) ∨ ((26 : ℤ) ∣ b ∧ (26 : ℤ) ∣ m) := by
  have htmod := @Int.tmod_eq_emod b 26
  split_ifs at htmod with h
  · omega
  · omega

/-- The values of `ch`, or of `ch - 1`, are the 256 below `top`. What `char` has made of
`m` gives the right letter if it has wrapped a multiple of 13 times, or to an `a`. -/
theorem letter_iff {b q : ℤ} {m top : ℕ} (h : m = b + 256 * q) (hlo : (top : ℤ) ≤ b + 256)
    (hhi : b < top) (htop : 127 ≤ top ∧ top ≤ 128) :
    97 + b.tmod 26 = letter (m + 1) ↔ m % 3328 < top ∨ (3200 ≤ m % 3328 ∧ 26 ∣ m) := by
  have hletter : letter (m + 1) = 97 + (m : ℤ) % 26 := by
    rw [letter, Nat.cast_add, Nat.cast_one, add_sub_cancel_right]
  rw [hletter, add_right_inj, tmod_eq_emod_iff]
  refine ⟨?_, ?_⟩
  · intro h'
    -- 256 and 26 have no more than the factor 2 in common
    obtain ⟨c, rfl⟩ : (13 : ℤ) ∣ q := by omega
    omega
  · rintro (h' | ⟨h', h26⟩)
    · have hq : q = 13 * (m / 3328 : ℕ) := by omega
      omega
    · have hq : q = 13 * (m / 3328 : ℕ) + 13 := by omega
      omega

theorem bmod_split (m : ℤ) :
    ∃ q, m = m.bmod 256 + 256 * q ∧ -128 ≤ m.bmod 256 ∧ m.bmod 256 < 128 := by
  have hbmod := Int.bmod_def m 256
  split_ifs at hbmod with h
  · exact ⟨m / 256, by omega⟩
  · exact ⟨m / 256 + 1, by omega⟩

theorem shown_writer_iff (m : ℕ) : shown m .writer = letter (m + 1) ↔ InCycle m .writer := by
  obtain ⟨q, hq, hlo, hhi⟩ := bmod_split m
  exact @letter_iff ((m : ℤ).bmod 256) q m 128 hq (by omega) (by omega) (by decide)

theorem shown_reader_iff (m : ℕ) :
    shown (m + 1) .reader = letter (m + 1) ↔ InCycle (m + 1) .reader := by
  obtain ⟨q, hq, hlo, hhi⟩ := bmod_split (m + 1 : ℕ)
  unfold shown InCycle
  generalize ((m + 1 : ℕ) : ℤ).bmod 256 = b at *
  rw [@letter_iff (b - 1) q m 127 (by omega) (by omega) (by omega) (by decide)]
  simp

theorem cyclic_snoc {log : List (Role × ℤ)} {p : Role × ℤ} :
    Cyclic (log ++ [p]) ↔
      Cyclic log ∧ (1 ≤ written (log ++ [p]) → p.2 = letter (written (log ++ [p]))) := by
  refine (forall_split_snoc (P := fun before p =>
    ∀ n, 1 ≤ n → written (before ++ [p]) = n → p.2 = letter n)).trans (and_congr_right fun _ => ?_)
  exact ⟨fun h hn => h _ hn rfl, fun h n hn hw => hw ▸ h (hw ▸ hn)⟩

theorem cyclic_snoc_shown {log : List (Role × ℤ)} (r : Role) :
    Cyclic (log ++ [(r, shown (written log) r)]) ↔ Cyclic log ∧ InCycle (written log) r := by
  rw [cyclic_snoc]
  refine and_congr_right fun _ => ?_
  cases r with
  | writer => simp [written_snoc_writer, shown_writer_iff]
  | reader =>
    rw [written_snoc_reader]
    cases written log with
    | zero => simp [InCycle]
    | succ m => simp [shown_reader_iff]

theorem aligned_run (hk : s.threads[k]? = some t) {r : Role} (ht : printing t = some r) :
    Aligned s (.run k) ↔ InCycle (written s.printed) r := by
  simp [Aligned, hk, ht]

theorem cyclic_step (hI : Inv s) (h : step s e = some s') :
    Cyclic s'.printed ↔ Cyclic s.printed ∧ Aligned s e := by
  obtain ⟨r, rfl, rfl⟩ | ⟨k, r, rfl, hk, rfl⟩ | ⟨k, w, rfl, hk, rfl⟩ := step_cases h
  · simp [Aligned]
  · cases r with
    | computed c =>
      have hc : c = shown (written s.printed) .reader :=
        hI.pending _ (List.mem_of_getElem? hk) (.reader, c) rfl
      have hsnoc := @cyclic_snoc_shown s.printed .reader
      rw [← hc] at hsnoc
      rw [aligned_run hk rfl]
      exact hsnoc
    | outside | entered | printed => simp [Aligned, hk, printing, stepReader, State.goto]
  · cases w with
    | incremented c =>
      have hc : c = shown (written s.printed) .writer :=
        hI.pending _ (List.mem_of_getElem? hk) (.writer, c) rfl
      have hsnoc := @cyclic_snoc_shown s.printed .writer
      rw [← hc] at hsnoc
      rw [aligned_run hk rfl]
      exact hsnoc
    | outside | entered | computed | printed => simp [Aligned, hk, printing, stepWriter, State.goto]

/-- With the critical sections apart, the letters go on cyclically exactly when every
step that prints is at such a number of writes that `char` gives the right letter. -/
theorem cyclic_iff_aligned {tr : List (State × Event)} (h : Run step init tr s)
    (ha : Always Apart tr s) : Cyclic s.printed ↔ EachStep Aligned tr := by
  induction h with
  | nil => simp [Cyclic, init, EachStep]
  | snoc hr he ih =>
    obtain ⟨ha, -⟩ := always_snoc.1 ha
    rw [eachStep_snoc, ← ih ha]
    exact cyclic_step (inv_run hr ha) he

def firstLetter : List Event :=
  [.createThread .writer, .createThread .reader, .run 0, .run 0, .run 0, .run 0, .run 0,
    .run 1, .run 1, .run 1]

theorem cyclic_firstLetter : Cyclic ((exec step init firstLetter).get (by decide)).printed :=
  (cyclic_iff_aligned (run_of_isSome init firstLetter (by decide)) ⟨by decide, by decide⟩).2
    (by decide)

/-! ### The 129th write -/

def writeOnce : List Event := [.run 0, .run 0, .run 0, .run 0, .run 0]

theorem run_writeOnce (ch : ℤ) (printed : List (Role × ℤ)) :
    Run step ⟨ch, printed, [.writer .outside]⟩
      (trace step ⟨ch, printed, [.writer .outside]⟩ writeOnce)
      ⟨(ch + 1).bmod 256, printed ++ [(.writer, 97 + ch.tmod 26)], [.writer .outside]⟩ :=
  run_of_exec rfl

theorem apart_writeOnce (ch : ℤ) (printed : List (Role × ℤ)) :
    Always Apart (trace step ⟨ch, printed, [.writer .outside]⟩ writeOnce)
      ⟨(ch + 1).bmod 256, printed ++ [(.writer, 97 + ch.tmod 26)], [.writer .outside]⟩ := by
  simp [Always, writeOnce, trace, step, stepWriter, State.goto, State.printf, Apart,
    State.readers, State.writers, reads, writes]

theorem run_writes (n : ℕ) : ∃ tr ch printed,
    Run step init tr ⟨ch, printed, [.writer .outside]⟩ ∧
      Always Apart tr ⟨ch, printed, [.writer .outside]⟩ ∧ written printed = n := by
  induction n with
  | zero =>
    have hcreate : step init (.createThread .writer) = some ⟨0, [], [.writer .outside]⟩ := rfl
    exact ⟨_, _, _, Run.nil.snoc hcreate, always_snoc.2 ⟨always_nil.2 (by decide), by decide⟩, rfl⟩
  | succ n ih =>
    obtain ⟨tr, ch, printed, hrun, ha, hn⟩ := ih
    refine ⟨_, _, _, hrun.append (run_writeOnce ch printed),
      ha.append (apart_writeOnce ch printed), ?_⟩
    rw [written_snoc_writer, hn]

/-- The 129th write prints an `I`, where the 129th letter is a `y`. -/
theorem letters_stray : ¬ ∀ tr s, Run step init tr s → Always Apart tr s → Cyclic s.printed := by
  intro h
  obtain ⟨tr, ch, printed, hrun, ha, hn⟩ := run_writes 128
  have hch : ch = -128 := by
    have := (inv_run hrun ha).ch
    simp only [hn] at this
    exact this
  have hcyclic := h _ _ (hrun.append (run_writeOnce ch printed))
    (ha.append (apart_writeOnce ch printed))
  have hletter := (cyclic_snoc.1 hcyclic).2
  rw [written_snoc_writer, hn, hch] at hletter
  exact absurd (hletter (by decide)) (by decide)

end OsLabs.Letters
