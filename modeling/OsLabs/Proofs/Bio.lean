import OsLabs.Spec.Bio

/-! The two streams refill in turns: whenever both stand at the head of the loop, their
buffers are equally full or nothing is left in the file. -/

namespace OsLabs.Bio

variable {α : Type} {contents : List α} {offset offset' : ℕ} {fs fs' : Stream α} {c : Option α}

theorem buff_size_pos : 0 < BUFF_SIZE := by decide

/-- A stream that has met the end of the file has nothing left in its buffer, and the
file has nothing left either. -/
def Ended (contents : List α) (offset : ℕ) (fs : Stream α) : Prop :=
  fs.eof = true → fs.buffer = [] ∧ contents.drop offset = []

/-- All that `fscanf` can do: it gets along without the file, where no character means
that there is none, or it refills the buffer. -/
inductive Scanned (contents : List α) (offset : ℕ) (fs : Stream α) (c : Option α)
    (fs' : Stream α) (offset' : ℕ) : Prop
  | kept (hbuffer : fs.buffer = c.toList ++ fs'.buffer)
      (hrest : contents.drop offset' = contents.drop offset)
      (hnone : c = none → fs.buffer = [] ∧ contents.drop offset = [])
  | refilled (hempty : fs.buffer = []) (hsome : c.isSome)
      (hblock : (contents.drop offset).take BUFF_SIZE = c.toList ++ fs'.buffer)
      (hrest : contents.drop offset' = (contents.drop offset).drop BUFF_SIZE)

theorem drop_read (contents : List α) (offset count : ℕ) :
    contents.drop (read contents offset count).2 = (contents.drop offset).drop count := by
  rw [read, ← List.drop_drop, List.length_take]
  rcases Nat.le_total count (contents.drop offset).length with h | h
  · rw [Nat.min_eq_left h]
  · rw [Nat.min_eq_right h, List.drop_length, List.drop_eq_nil_of_le h]

theorem fscanf_scanned (h : Ended contents offset fs)
    (hscan : fscanf contents offset fs = (c, fs', offset')) :
    Scanned contents offset fs c fs' offset' ∧ Ended contents offset' fs' := by
  unfold fscanf at hscan
  cases heof : fs.eof with
  | true =>
    obtain ⟨hbuffer, hrest⟩ := h heof
    simp only [heof, if_true, Prod.mk.injEq] at hscan
    obtain ⟨rfl, rfl, rfl⟩ := hscan
    exact ⟨.kept rfl rfl fun _ => ⟨hbuffer, hrest⟩, h⟩
  | false =>
    simp only [heof, Bool.false_eq_true, if_false] at hscan
    cases hbuffer : fs.buffer with
    | cons a rest =>
      simp only [hbuffer, Prod.mk.injEq] at hscan
      obtain ⟨rfl, rfl, rfl⟩ := hscan
      exact ⟨.kept hbuffer rfl nofun, nofun⟩
    | nil =>
      have hdrop := drop_read contents offset BUFF_SIZE
      simp only [hbuffer] at hscan
      cases hblock : (contents.drop offset).take BUFF_SIZE with
      | cons a rest =>
        simp only [read, hblock, Prod.mk.injEq] at hscan hdrop
        obtain ⟨rfl, rfl, rfl⟩ := hscan
        exact ⟨.refilled hbuffer rfl hblock hdrop, nofun⟩
      | nil =>
        have hrest : contents.drop offset = [] := by
          simpa [BUFF_SIZE] using hblock
        simp only [read, hblock, Prod.mk.injEq] at hscan
        obtain ⟨rfl, rfl, rfl⟩ := hscan
        exact ⟨.kept hbuffer rfl fun _ => ⟨hbuffer, hrest⟩, fun _ => ⟨rfl, hrest⟩⟩

theorem Scanned.drop_eq_nil (h : Scanned contents offset fs c fs' offset')
    (hend : contents.drop offset = []) : contents.drop offset' = [] := by
  cases h with
  | kept _ hrest _ => rw [hrest, hend]
  | refilled _ _ _ hrest => rw [hrest, hend, List.drop_nil]

theorem Scanned.length (h : Scanned contents offset fs c fs' offset') :
    fs'.buffer.length + (contents.drop offset').length + c.toList.length =
      fs.buffer.length + (contents.drop offset).length := by
  cases h with
  | kept hbuffer hrest _ =>
    rw [hbuffer, hrest, List.length_append]
    omega
  | refilled hempty _ hblock hrest =>
    have hsplit := congrArg List.length (List.take_append_drop BUFF_SIZE (contents.drop offset))
    rw [hblock, ← hrest, List.length_append, List.length_append] at hsplit
    rw [hempty, List.length_nil]
    omega

theorem Scanned.none_iff (h : Scanned contents offset fs c fs' offset') :
    c = none ↔ fs.buffer = [] ∧ contents.drop offset = [] := by
  refine ⟨?_, ?_⟩
  · intro hc
    cases h with
    | kept _ _ hnone => exact hnone hc
    | refilled _ hsome => simp [hc] at hsome
  · rintro ⟨hempty, hend⟩
    have hlen := h.length
    rw [hempty, hend, List.length_nil] at hlen
    cases c with
    | none => rfl
    | some c => simp at hlen

/-! ### A turn of the loop -/

def State.rest (contents : List α) (s : State α) : List α := contents.drop s.offset

/-- What one of the streams has printed, and what it is still going to print. -/
def State.due (contents : List α) (s : State α) : Fs → List α
  | .fs1 => printedBy .fs1 s.out ++ s.fs1.buffer ++ everyOther BUFF_SIZE (s.rest contents) 0
  | .fs2 => printedBy .fs2 s.out ++ s.fs2.buffer ++ everyOther BUFF_SIZE (s.rest contents) 1

def State.left (contents : List α) (s : State α) : ℕ :=
  s.fs1.buffer.length + s.fs2.buffer.length + (s.rest contents).length

/-- The invariant at the head of the loop. -/
structure Inv (contents : List α) (s : State α) : Prop where
  ended1 : Ended contents s.offset s.fs1
  ended2 : Ended contents s.offset s.fs2
  together : s.fs1.buffer.length = s.fs2.buffer.length ∨ s.rest contents = []

theorem inv_init : Inv contents init := ⟨nofun, nofun, .inl rfl⟩

theorem printedBy_fprintf (fs : Fs) (c : Option α) (out : List (Fs × α)) (fs' : Fs) :
    printedBy fs' (fprintf fs c out) = printedBy fs' out ++ if fs = fs' then c.toList else [] := by
  cases c <;> by_cases h : fs = fs' <;> simp [printedBy, fprintf, h]

theorem ne_nil_of_refilled {l rest : List α} (hsome : c.isSome)
    (hblock : l.take BUFF_SIZE = c.toList ++ rest) : l ≠ [] := by
  rintro rfl
  obtain ⟨a, rfl⟩ := Option.isSome_iff_exists.1 hsome
  simp at hblock

theorem length_take_of_drop_ne_nil {l : List α} (h : l.drop BUFF_SIZE ≠ []) :
    (l.take BUFF_SIZE).length = BUFF_SIZE := by
  rw [List.length_take, Nat.min_eq_left]
  by_contra hlt
  exact h (List.drop_eq_nil_of_le (by omega))

/-- One call of `fscanf` for each stream, when they stand together: the characters
delivered are the first of what each is due, and they stand together again. -/
structure Both (contents : List α) (s : State α) (c1 c2 : Option α) (fs1 fs2 : Stream α)
    (offset : ℕ) : Prop where
  together : fs1.buffer.length = fs2.buffer.length ∨ contents.drop offset = []
  first : c1.toList ++ (fs1.buffer ++ everyOther BUFF_SIZE (contents.drop offset) 0) =
    s.fs1.buffer ++ everyOther BUFF_SIZE (contents.drop s.offset) 0
  second : c2.toList ++ (fs2.buffer ++ everyOther BUFF_SIZE (contents.drop offset) 1) =
    s.fs2.buffer ++ everyOther BUFF_SIZE (contents.drop s.offset) 1

theorem both {s : State α} {c1 c2 : Option α} {fs1 fs2 : Stream α} {offset1 offset2 : ℕ}
    (h1 : Scanned contents s.offset s.fs1 c1 fs1 offset1)
    (h2 : Scanned contents offset1 s.fs2 c2 fs2 offset2)
    (htogether : s.fs1.buffer.length = s.fs2.buffer.length ∨ s.rest contents = []) :
    Both contents s c1 c2 fs1 fs2 offset2 := by
  cases h1 with
  | kept hbuffer1 hrest1 hnone1 =>
    cases h2 with
    | kept hbuffer2 hrest2 hnone2 =>
      rw [hrest1] at hrest2 hnone2
      refine ⟨?_, ?_, ?_⟩
      · rw [hrest2]
        refine or_iff_not_imp_right.2 fun hne => ?_
        have hlen := htogether.resolve_right hne
        rw [hbuffer1, hbuffer2, List.length_append, List.length_append] at hlen
        -- neither is without a character, since the file has some left
        obtain ⟨a1, rfl⟩ := Option.ne_none_iff_exists'.1 fun hc => hne (hnone1 hc).2
        obtain ⟨a2, rfl⟩ := Option.ne_none_iff_exists'.1 fun hc => hne (hnone2 hc).2
        exact Nat.add_left_cancel hlen
      · rw [hbuffer1, hrest2, List.append_assoc]
      · rw [hbuffer2, hrest2, List.append_assoc]
    | refilled hempty2 hsome2 hblock2 hrest2 =>
      rw [hrest1] at hblock2
      have hne := ne_nil_of_refilled hsome2 hblock2
      have hlen := htogether.resolve_right hne
      rw [hempty2, hbuffer1, List.length_append] at hlen
      have hc1 : c1 ≠ none := fun hc => hne (hnone1 hc).2
      obtain ⟨a1, rfl⟩ := Option.ne_none_iff_exists'.1 hc1
      simp at hlen
  | refilled hempty1 hsome1 hblock1 hrest1 =>
    have hne := ne_nil_of_refilled hsome1 hblock1
    have hlen := htogether.resolve_right hne
    have hempty2 : s.fs2.buffer = [] := by
      rw [hempty1] at hlen
      exact List.eq_nil_of_length_eq_zero hlen.symm
    have hzero := everyOther_zero buff_size_pos (contents.drop s.offset)
    have hone := everyOther_one buff_size_pos (contents.drop s.offset)
    rw [hblock1, ← hrest1] at hzero
    rw [← hrest1] at hone
    cases h2 with
    | kept hbuffer2 hrest2 hnone2 =>
      -- the first stream has read the last block
      obtain ⟨hc2, hfs2⟩ : c2 = none ∧ fs2.buffer = [] := by
        rw [hempty2] at hbuffer2
        obtain ⟨hc2, hfs2⟩ := List.append_eq_nil_iff.1 hbuffer2.symm
        exact ⟨Option.toList_eq_nil_iff.1 hc2, hfs2⟩
      have hend := (hnone2 hc2).2
      rw [hend] at hrest2 hzero hone
      refine ⟨.inr hrest2, ?_, ?_⟩
      · rw [hempty1, hrest2, hzero]
        simp
      · rw [hempty2, hrest2, hone, hc2, hfs2]
        simp
    | refilled _ hsome2 hblock2 hrest2 =>
      have hne1 := ne_nil_of_refilled hsome2 hblock2
      have hzero1 := everyOther_zero buff_size_pos (contents.drop offset1)
      have hone1 := everyOther_one buff_size_pos (contents.drop offset1)
      rw [hblock2, ← hrest2] at hzero1
      rw [← hrest2] at hone1
      refine ⟨?_, ?_, ?_⟩
      · refine or_iff_not_imp_right.2 fun hne2 => ?_
        -- both blocks are full, since more comes behind each
        have hfull1 := length_take_of_drop_ne_nil (hrest1 ▸ hne1)
        have hfull2 := length_take_of_drop_ne_nil (hrest2 ▸ hne2)
        rw [hblock1, List.length_append] at hfull1
        rw [hblock2, List.length_append] at hfull2
        obtain ⟨a1, rfl⟩ := Option.isSome_iff_exists.1 hsome1
        obtain ⟨a2, rfl⟩ := Option.isSome_iff_exists.1 hsome2
        exact Nat.add_left_cancel (hfull1.trans hfull2.symm)
      · rw [hempty1, List.nil_append, hzero, hone1, List.append_assoc]
      · rw [hempty2, List.nil_append, hone, hzero1, List.append_assoc]

/-- What a turn does: it keeps the invariant and what each stream has due, and it brings
the loop nearer to its end or is the last. -/
structure Turned (contents : List α) (s : State α) (rc1 rc2 : Bool) (s' : State α) : Prop where
  inv : Inv contents s'
  due : ∀ fs, s'.due contents fs = s.due contents fs
  left : (rc1 || rc2) = true → s'.left contents < s.left contents
  last : (rc1 || rc2) = false → s'.left contents = 0

variable {s s' : State α} {rc1 rc2 : Bool}

theorem turn_turned (hi : Inv contents s) (h : turn contents s = (rc1, rc2, s')) :
    Turned contents s rc1 rc2 s' := by
  obtain ⟨hended1, hended2, htogether⟩ := hi
  rcases h1 : fscanf contents s.offset s.fs1 with ⟨c1, fs1, offset1⟩
  rcases h2 : fscanf contents offset1 s.fs2 with ⟨c2, fs2, offset2⟩
  obtain ⟨hscan1, hended1'⟩ := fscanf_scanned hended1 h1
  have hended2₁ : Ended contents offset1 s.fs2 := fun heof =>
    ⟨(hended2 heof).1, hscan1.drop_eq_nil (hended2 heof).2⟩
  obtain ⟨hscan2, hended2'⟩ := fscanf_scanned hended2₁ h2
  have hended1₂ : Ended contents offset2 fs1 := fun heof =>
    ⟨(hended1' heof).1, hscan2.drop_eq_nil (hended1' heof).2⟩
  simp only [turn, h1, h2, Prod.mk.injEq] at h
  obtain ⟨rfl, rfl, rfl⟩ := h
  have hleft : State.left contents ⟨offset2, fs1, fs2, fprintf .fs2 c2 (fprintf .fs1 c1 s.out)⟩ +
      c1.toList.length + c2.toList.length = s.left contents := by
    have hlen1 := hscan1.length
    have hlen2 := hscan2.length
    simp only [State.left, State.rest]
    omega
  have hboth := both hscan1 hscan2 htogether
  refine ⟨⟨hended1₂, hended2', hboth.together⟩, ?_, ?_, ?_⟩
  · rintro (_ | _)
    · simp [State.due, State.rest, printedBy_fprintf, List.append_assoc, hboth.first]
    · simp [State.due, State.rest, printedBy_fprintf, List.append_assoc, hboth.second]
  · intro hrc
    cases c1 <;> cases c2 <;> simp at hrc hleft <;> omega
  · intro hrc
    simp only [Bool.or_eq_false_iff, Option.isSome_eq_false_iff, Option.isNone_iff_eq_none] at hrc
    obtain ⟨rfl, rfl⟩ := hrc
    obtain ⟨hempty1, hend⟩ := hscan1.none_iff.1 rfl
    have hempty2 := (hscan2.none_iff.1 rfl).1
    have hzero : s.left contents = 0 := by simp [State.left, State.rest, hempty1, hempty2, hend]
    omega

/-! ### The whole loop -/

/-- A loop that goes on comes to its end, and by then each stream has printed what was
due. -/
theorem loop_ends {fuel : ℕ} (hi : Inv contents s)
    (hgo : (rc1 || rc2) = true → s.left contents < fuel)
    (hlast : (rc1 || rc2) = false → s.left contents = 0) :
    ∃ s', loop contents fuel rc1 rc2 s = some s' ∧ s'.left contents = 0 ∧
      ∀ fs, s'.due contents fs = s.due contents fs := by
  induction fuel generalizing s rc1 rc2 with
  | zero =>
    have hrc : (rc1 || rc2) = false := Bool.eq_false_iff.2 fun hrc => Nat.not_lt_zero _ (hgo hrc)
    exact ⟨s, by simp [loop, hrc], hlast hrc, fun _ => rfl⟩
  | succ fuel ih =>
    cases hrc : (rc1 || rc2) with
    | false => exact ⟨s, by simp [loop, hrc], hlast hrc, fun _ => rfl⟩
    | true =>
      rcases hturn : turn contents s with ⟨rc1', rc2', s₁⟩
      obtain ⟨hi₁, hdue, hless, hlast₁⟩ := turn_turned hi hturn
      have hlt := hgo hrc
      obtain ⟨s', hloop, hzero, hdue'⟩ := ih hi₁ (fun hrc' => by
        have := hless hrc'
        omega) hlast₁
      refine ⟨s', ?_, hzero, fun fs => (hdue' fs).trans (hdue fs)⟩
      rw [loop, if_pos hrc, hturn]
      exact hloop

theorem due_init (fs : Fs) : (init : State α).due contents fs = match fs with
    | .fs1 => everyOther BUFF_SIZE contents 0
    | .fs2 => everyOther BUFF_SIZE contents 1 := by
  cases fs <;> simp [State.due, State.rest, init, printedBy]

theorem due_left_zero (h : s.left contents = 0) (fs : Fs) :
    s.due contents fs = printedBy fs s.out := by
  have hrest : s.rest contents = [] := by
    apply List.eq_nil_of_length_eq_zero
    unfold State.left at h
    omega
  have hbuffer1 : s.fs1.buffer = [] :=
    List.eq_nil_of_length_eq_zero (by unfold State.left at h; omega)
  have hbuffer2 : s.fs2.buffer = [] :=
    List.eq_nil_of_length_eq_zero (by unfold State.left at h; omega)
  cases fs <;> simp [State.due, hrest, hbuffer1, hbuffer2]

theorem printedBy_perm (out : List (Fs × α)) :
    (out.map Prod.snd).Perm (printedBy .fs1 out ++ printedBy .fs2 out) := by
  have hnot : out.filter (fun p => !decide (p.1 = .fs1)) = out.filter (·.1 = .fs2) := by
    refine List.filter_congr fun p _ => ?_
    cases p.1 <;> rfl
  have hsplit := (List.filter_append_perm (·.1 = .fs1) out).map Prod.snd
  rw [List.map_append, hnot] at hsplit
  exact hsplit.symm

/-- For a file of any length the loop ends, every byte of it is printed once, and the
blocks of 20 are printed in order, the even ones by the first stream and the odd ones by
the second. -/
theorem blocks_alternate (contents : List α) {fuel : ℕ} (hfuel : contents.length < fuel) :
    ∃ out, main contents fuel = some out ∧ (out.map Prod.snd).Perm contents ∧
      printedBy .fs1 out =
        (List.range contents.length).flatMap (fun j => block BUFF_SIZE contents (2 * j)) ∧
      printedBy .fs2 out =
        (List.range contents.length).flatMap (fun j => block BUFF_SIZE contents (2 * j + 1)) := by
  have hleft : (init : State α).left contents < fuel := by
    simpa [State.left, State.rest, init] using hfuel
  obtain ⟨s, hloop, hzero, hdue⟩ : ∃ s, loop contents fuel true true init = some s ∧
      s.left contents = 0 ∧ ∀ fs, s.due contents fs = (init : State α).due contents fs :=
    loop_ends inv_init (fun _ => hleft) nofun
  have hprinted : ∀ fs, printedBy fs s.out = (init : State α).due contents fs := fun fs => by
    rw [← due_left_zero hzero, hdue]
  have hfirst := (hprinted .fs1).trans (due_init .fs1)
  have hsecond := (hprinted .fs2).trans (due_init .fs2)
  refine ⟨s.out, by rw [main, hloop]; rfl, ?_, hfirst, hsecond⟩
  have hperm := printedBy_perm s.out
  rw [hfirst, hsecond] at hperm
  exact hperm.trans (everyOther_perm buff_size_pos contents)

/-- The alphabet: 20 letters by the first stream, 6 by the second. -/
theorem blocks_alternate_alphabet :
    ∃ out, main (List.range 26) 27 = some out ∧ (out.map Prod.snd).Perm (List.range 26) ∧
      printedBy .fs1 out = List.range 20 ∧ printedBy .fs2 out = [20, 21, 22, 23, 24, 25] :=
  blocks_alternate (List.range 26) (by decide)

end OsLabs.Bio
