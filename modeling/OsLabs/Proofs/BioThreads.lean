import OsLabs.Spec.BioThreads
import OsLabs.Proofs.Bio

/-! Whichever thread's buffer runs empty first takes the next block of the file. However the
threads take turns, a block goes to one stream and whole, and each thread prints what its
stream was given, less the white space. -/

namespace OsLabs.Bio

namespace Streams

variable {contents rest : List UInt8} {s s' : State} {fs : Fs} {t t' u : Thread}
  {bytes printed text : List UInt8} {c : Option UInt8}

/-! ### White space -/

theorem squeeze_snoc (text : List UInt8) (a : UInt8) :
    squeeze (text ++ [a]) = squeeze text ++ if text = [] ∨ isspace a = false then [a] else [] := by
  cases text with
  | nil => simp [squeeze]
  | cons b text => cases h : isspace a <;> simp [squeeze, h]

theorem squeeze_le (text more : List UInt8) : squeeze text <+: squeeze (text ++ more) := by
  cases text with
  | nil => exact List.nil_prefix
  | cons b text =>
    rw [List.cons_append, squeeze, squeeze, List.filter_append, ← List.cons_append]
    exact List.prefix_append _ _

/-! ### One thread -/

/-- All that a thread can do, with the bytes its stream is given of the rest of the file and
the character it prints. -/
inductive Move (rest : List UInt8) : Thread → Thread → List UInt8 → Option UInt8 → Prop
  | scan (c : UInt8) (buffer : List UInt8) (eof : Bool) :
      Move rest ⟨⟨c :: buffer, eof⟩, .scan⟩ ⟨⟨buffer, eof⟩, .skip c⟩ [] none
  | finish : Move rest ⟨⟨[], true⟩, .scan⟩ ⟨⟨[], true⟩, .done⟩ [] none
  | skip (c a : UInt8) (buffer : List UInt8) (eof : Bool) (hspace : isspace a = true) :
      Move rest ⟨⟨a :: buffer, eof⟩, .skip c⟩ ⟨⟨buffer, eof⟩, .skip c⟩ [] none
  | stop (c a : UInt8) (buffer : List UInt8) (eof : Bool) (hspace : isspace a = false) :
      Move rest ⟨⟨a :: buffer, eof⟩, .skip c⟩ ⟨⟨a :: buffer, eof⟩, .print c⟩ [] none
  | stopAtEnd (c : UInt8) : Move rest ⟨⟨[], true⟩, .skip c⟩ ⟨⟨[], true⟩, .print c⟩ [] none
  | print (c : UInt8) (stream : Stream UInt8) :
      Move rest ⟨stream, .print c⟩ ⟨stream, .scan⟩ [] (some c)
  | refill (phase : Phase) (hasks : Thread.asks ⟨⟨[], false⟩, phase⟩ = true) (hrest : rest ≠ []) :
      Move rest ⟨⟨[], false⟩, phase⟩ ⟨⟨rest.take BUFF_SIZE, false⟩, phase⟩ (rest.take BUFF_SIZE) none
  | atEnd (phase : Phase) (hasks : Thread.asks ⟨⟨[], false⟩, phase⟩ = true) (hrest : rest = []) :
      Move rest ⟨⟨[], false⟩, phase⟩ ⟨⟨[], true⟩, phase⟩ [] none

/-- What a step does to the system, its thread's own part aside. -/
structure Stepped (contents : List UInt8) (s : State) (fs : Fs) (s' : State) (t' : Thread)
    (bytes : List UInt8) (c : Option UInt8) : Prop where
  move : Move (contents.drop s.offset) (s.threads fs) t' bytes c
  threads : s'.threads = Function.update s.threads fs t'
  out : s'.out = fprintf fs c s.out
  offset : s'.offset = s.offset + bytes.length
  given : givenStep contents s fs = if bytes = [] then none else some (fs, bytes)

theorem fprintf_none {α : Type} (fs : Fs) (out : List (Fs × α)) : fprintf fs none out = out :=
  List.append_nil out

theorem stepped_refill (ht : s.threads fs = t) (hempty : t.stream = ⟨[], false⟩)
    (hasks : t.asks = true) : ∃ t' bytes c, Stepped contents s fs (refill contents s fs) t' bytes c := by
  obtain ⟨⟨buffer, eof⟩, phase⟩ := t
  obtain ⟨rfl, rfl⟩ := Stream.mk.inj hempty
  have hgiven : ∀ bytes offset, read contents s.offset BUFF_SIZE = (bytes, offset) →
      givenStep contents s fs = if bytes = [] then none else some (fs, bytes) := by
    intro bytes offset hread
    rw [givenStep, ht, if_pos hasks, hread]
    cases bytes <;> rfl
  cases hrest : contents.drop s.offset with
  | nil =>
    have hread : read contents s.offset BUFF_SIZE = ([], s.offset) := by simp [read, hrest]
    refine ⟨⟨⟨[], true⟩, phase⟩, [], none, ?_⟩
    rw [refill, hread, ht]
    exact ⟨by rw [ht, hrest]; exact .atEnd phase hasks rfl, rfl, (fprintf_none _ _).symm, rfl,
      hgiven _ _ hread⟩
  | cons a rest =>
    have hread : read contents s.offset BUFF_SIZE =
        (a :: rest.take 19, s.offset + (a :: rest.take 19).length) := by
      simp [read, hrest, BUFF_SIZE]
    refine ⟨⟨⟨a :: rest.take 19, false⟩, phase⟩, a :: rest.take 19, none, ?_⟩
    rw [refill, hread, ht]
    exact ⟨by rw [ht, hrest]; exact .refill phase hasks (List.cons_ne_nil _ _), rfl, (fprintf_none _ _).symm, rfl,
      hgiven _ _ hread⟩

theorem step_stepped (h : step contents s fs = some s') :
    ∃ t' bytes c, Stepped contents s fs s' t' bytes c := by
  cases ht : s.threads fs with
  | mk stream phase =>
  obtain ⟨buffer, eof⟩ := stream
  have hgiven : Thread.asks ⟨⟨buffer, eof⟩, phase⟩ = false → givenStep contents s fs = none := by
    intro hasks
    rw [givenStep, ht, hasks, if_neg Bool.false_ne_true]
  simp only [step, ht] at h
  have hnone := (fprintf_none fs s.out).symm
  -- every step but a refill reads nothing
  cases phase with
  | scan =>
    cases buffer with
    | cons c rest =>
      obtain rfl := Option.some.inj h
      exact ⟨_, [], none, by rw [ht]; exact .scan c rest eof, rfl, hnone, rfl, hgiven rfl⟩
    | nil =>
      cases eof with
      | true =>
        obtain rfl := Option.some.inj h
        exact ⟨_, [], none, by rw [ht]; exact .finish, rfl, hnone, rfl, hgiven rfl⟩
      | false =>
        obtain rfl := Option.some.inj h
        exact stepped_refill ht rfl rfl
  | skip c =>
    cases buffer with
    | cons a rest =>
      cases hspace : isspace a with
      | true =>
        obtain rfl := Option.some.inj (by simpa [hspace] using h)
        exact ⟨_, [], none, by rw [ht]; exact .skip c a rest eof hspace, rfl, hnone, rfl,
          hgiven rfl⟩
      | false =>
        obtain rfl := Option.some.inj (by simpa [hspace] using h)
        exact ⟨_, [], none, by rw [ht]; exact .stop c a rest eof hspace, rfl, hnone, rfl,
          hgiven rfl⟩
    | nil =>
      cases eof with
      | true =>
        obtain rfl := Option.some.inj h
        exact ⟨_, [], none, by rw [ht]; exact .stopAtEnd c, rfl, hnone, rfl, hgiven rfl⟩
      | false =>
        obtain rfl := Option.some.inj h
        exact stepped_refill ht rfl rfl
  | print c =>
    obtain rfl := Option.some.inj h
    exact ⟨_, [], some c, by rw [ht]; exact .print c ⟨buffer, eof⟩, rfl, rfl, rfl,
      hgiven (by simp [Thread.asks])⟩
  | done => cases h

def Phase.taken : Phase → Option UInt8
  | .scan | .done => none
  | .skip c | .print c => some c

/-- The skipping is over: what comes next is no white space, or nothing comes. -/
def Stream.settled (stream : Stream UInt8) : Prop :=
  match stream.buffer with
  | [] => stream.eof = true
  | a :: _ => isspace a = false

/-- What a thread has printed, against what its stream was given: `used` is the part of this
that has left the buffer. -/
structure Told (rest : List UInt8) (t : Thread) (printed text used : List UInt8) : Prop where
  text : text = used ++ t.stream.buffer
  printed : printed ++ t.phase.taken.toList = squeeze used
  settled : used ≠ [] → (∀ c, t.phase ≠ .skip c) → Stream.settled t.stream
  taken : t.phase.taken.isSome → used ≠ []
  eof : t.stream.eof = true → t.stream.buffer = [] ∧ rest = []
  done : t.phase = .done → t.stream.eof = true

theorem told_init : Told rest ⟨⟨[], false⟩, .scan⟩ [] [] [] :=
  ⟨rfl, rfl, fun h => absurd rfl h, nofun, nofun, nofun⟩

/-- The other threads do not notice, except that the file gets shorter. -/
theorem Told.frame {used : List UInt8} (h : Told rest u printed text used) (n : ℕ) :
    Told (rest.drop n) u printed text used := by
  refine ⟨h.text, h.printed, h.settled, h.taken, ?_, h.done⟩
  intro heof
  obtain ⟨hbuffer, hrest⟩ := h.eof heof
  exact ⟨hbuffer, by rw [hrest, List.drop_nil]⟩

theorem told_move {used : List UInt8} (hm : Move rest t t' bytes c)
    (h : Told rest t printed text used) :
    ∃ used', Told (rest.drop bytes.length) t' (printed ++ c.toList) (text ++ bytes) used' := by
  obtain ⟨htext, hprinted, hsettled, htaken, heof, hdone⟩ := h
  cases hm with
  | scan c buffer eof =>
    refine ⟨used ++ [c], ?_, ?_, fun _ hskip => absurd rfl (hskip c), by simp, ?_, nofun⟩
    · rw [htext, List.append_nil, List.append_assoc, List.singleton_append]
    · have hfree : used = [] ∨ isspace c = false := by
        by_cases hused : used = []
        · exact .inl hused
        · exact .inr (hsettled hused nofun)
      rw [squeeze_snoc, if_pos hfree, ← hprinted]
      simp [Phase.taken]
    · intro he
      exact absurd (heof he).1 nofun
  | finish =>
    refine ⟨used, ?_, ?_, fun _ _ => rfl, nofun, heof, fun _ => rfl⟩
    · rw [htext, List.append_nil]
    · simpa [Phase.taken] using hprinted
  | skip c a buffer eof hspace =>
    have hused : used ≠ [] := htaken rfl
    refine ⟨used ++ [a], ?_, ?_, fun _ hskip => absurd rfl (hskip c), by simp, ?_, nofun⟩
    · rw [htext, List.append_nil, List.append_assoc, List.singleton_append]
    · rw [squeeze_snoc, if_neg (by simp [hused, hspace]), List.append_nil, ← hprinted]
      simp
    · intro he
      exact absurd (heof he).1 nofun
  | stop c a buffer eof hspace =>
    refine ⟨used, ?_, ?_, fun _ _ => hspace, fun _ => htaken rfl, heof, nofun⟩
    · rw [htext, List.append_nil]
    · simpa [Phase.taken] using hprinted
  | stopAtEnd c =>
    refine ⟨used, ?_, ?_, fun _ _ => rfl, fun _ => htaken rfl, heof, nofun⟩
    · rw [htext, List.append_nil]
    · simpa [Phase.taken] using hprinted
  | print c stream =>
    refine ⟨used, ?_, ?_, fun hused _ => hsettled hused nofun, nofun, heof, nofun⟩
    · rw [htext, List.append_nil]
    · simpa [Phase.taken] using hprinted
  | refill phase hasks hrest =>
    refine ⟨used, ?_, ?_, ?_, htaken, nofun, ?_⟩
    · rw [htext, List.append_nil]
    · simpa using hprinted
    · -- a stream that has skipped to the end of its buffer has not settled
      intro hused hskip
      exact absurd (hsettled hused hskip) Bool.false_ne_true
    · rintro rfl
      exact absurd hasks Bool.false_ne_true
  | atEnd phase hasks hrest =>
    refine ⟨used, ?_, ?_, fun _ _ => rfl, htaken, fun _ => ⟨rfl, by rw [hrest]; rfl⟩, fun _ => rfl⟩
    · rw [htext, List.append_nil]
    · simpa using hprinted

/-! ### Runs -/

theorem given_snoc (tr : List (State × Fs)) (s : State) (fs : Fs) :
    given contents (tr ++ [(s, fs)]) = given contents tr ++ (givenStep contents s fs).toList := by
  rw [given, given, List.filterMap_append]
  cases h : givenStep contents s fs <;> simp [h]

theorem Stepped.givenTo {tr : List (State × Fs)} (h : Stepped contents s fs s' t' bytes c)
    (fs' : Fs) : givenTo contents fs' (tr ++ [(s, fs)]) =
      givenTo contents fs' tr ++ if fs = fs' then bytes else [] := by
  rw [Streams.givenTo, given_snoc, List.flatMap_append, ← Streams.givenTo, h.given]
  split_ifs <;> simp_all

/-- The file, the blocks handed out, and each thread. -/
structure Inv (contents : List UInt8) (tr : List (State × Fs)) (s : State) : Prop where
  offset : s.offset = min (BUFF_SIZE * (given contents tr).length) contents.length
  blocks : (given contents tr).map Prod.snd =
    (List.range (given contents tr).length).map (block BUFF_SIZE contents)
  told : ∀ fs, ∃ used, Told (contents.drop s.offset) (s.threads fs) (printedBy fs s.out)
    (givenTo contents fs tr) used

theorem inv_init : Inv contents [] init :=
  ⟨by simp [init, given], rfl, fun _ => ⟨[], told_init⟩⟩

theorem Move.bytes_eq (h : Move rest t t' bytes c) (hne : bytes ≠ []) :
    rest ≠ [] ∧ bytes = rest.take BUFF_SIZE := by
  cases h with
  | refill phase hasks hrest => exact ⟨hrest, rfl⟩
  | _ => exact absurd rfl hne

theorem inv_step {tr : List (State × Fs)} (hi : Inv contents tr s)
    (h : step contents s fs = some s') : Inv contents (tr ++ [(s, fs)]) s' := by
  obtain ⟨t', bytes, c, hs⟩ := step_stepped h
  have htold : ∀ fs', ∃ used, Told (contents.drop s'.offset) (s'.threads fs')
      (printedBy fs' s'.out) (Streams.givenTo contents fs' (tr ++ [(s, fs)])) used := by
    intro fs'
    obtain ⟨used, ht⟩ := hi.told fs'
    rw [hs.threads, hs.out, hs.givenTo, printedBy_fprintf, hs.offset, ← List.drop_drop]
    by_cases hfs : fs = fs'
    · subst hfs
      rw [Function.update_self, if_pos rfl, if_pos rfl]
      exact told_move hs.move ht
    · rw [Function.update_of_ne (Ne.symm hfs), if_neg hfs, if_neg hfs, List.append_nil,
        List.append_nil]
      exact ⟨used, ht.frame _⟩
  by_cases hbytes : bytes = []
  · have hgiven : given contents (tr ++ [(s, fs)]) = given contents tr := by
      rw [given_snoc, hs.given, if_pos hbytes, Option.toList_none, List.append_nil]
    refine ⟨?_, by rw [hgiven]; exact hi.blocks, htold⟩
    rw [hgiven, hs.offset, hbytes, ← hi.offset]
    rfl
  · obtain ⟨hrest, hblock⟩ := hs.move.bytes_eq hbytes
    have hgiven : given contents (tr ++ [(s, fs)]) = given contents tr ++ [(fs, bytes)] := by
      rw [given_snoc, hs.given, if_neg hbytes, Option.toList_some]
    -- the file had not come to its end, so the blocks before this one were full
    have hlt : s.offset < contents.length := by simpa using hrest
    have hoffset : s.offset = BUFF_SIZE * (given contents tr).length := by
      have := hi.offset
      omega
    refine ⟨?_, ?_, htold⟩
    · rw [hgiven, hs.offset, hblock, List.length_take, List.length_drop, List.length_append,
        List.length_singleton, Nat.mul_succ]
      omega
    · rw [hgiven, List.map_append, hi.blocks, List.length_append, List.length_singleton,
        List.range_succ, List.map_append, hblock, hoffset]
      rfl

theorem inv_run {tr : List (State × Fs)} (h : Run (step contents) init tr s) :
    Inv contents tr s := by
  induction h with
  | nil => exact inv_init
  | snoc _ he ih => exact inv_step ih he

def Thread.ahead (t : Thread) : ℕ :=
  3 * t.stream.buffer.length + (if t.stream.eof then 0 else 1) +
    match t.phase with
    | .scan => 1
    | .skip _ => 3
    | .print _ => 2
    | .done => 0

def State.ahead (contents : List UInt8) (s : State) : ℕ :=
  4 * (contents.length - s.offset) + (s.threads .fs1).ahead + (s.threads .fs2).ahead

theorem Move.lowers (h : Move rest t t' bytes c) :
    4 * (rest.length - bytes.length) + t'.ahead < 4 * rest.length + t.ahead := by
  cases h with
  | refill phase hasks hrest =>
    have hpos : 0 < (rest.take BUFF_SIZE).length := by
      rw [List.length_pos_iff]
      simpa [BUFF_SIZE] using hrest
    have hle : (rest.take BUFF_SIZE).length ≤ rest.length := List.length_take_le' _ _
    simp only [Thread.ahead, List.length_nil]
    omega
  | scan c buffer eof =>
    simp only [Thread.ahead, List.length_cons, List.length_nil]
    omega
  | skip | stop | finish | stopAtEnd | print | atEnd => simp [Thread.ahead]

theorem step_lowers (s : State) (fs : Fs) (s' : State) (h : step contents s fs = some s') :
    s'.ahead contents < s.ahead contents := by
  obtain ⟨t', bytes, c, hs⟩ := step_stepped h
  have hlow := hs.move.lowers
  rw [List.length_drop] at hlow
  simp only [State.ahead, hs.threads, hs.offset]
  cases fs <;> simp only [Function.update_apply, reduceCtorEq, if_true, if_false] <;> omega

theorem done_of_stuck (h : step contents s fs = none) : (s.threads fs).phase = .done := by
  unfold step at h
  cases hp : (s.threads fs).phase with
  | done => rfl
  | scan =>
    cases hb : (s.threads fs).stream.buffer <;> simp only [hp, hb, reduceCtorEq] at h
    split_ifs at h
  | skip c =>
    cases hb : (s.threads fs).stream.buffer <;> simp only [hp, hb] at h <;> split_ifs at h
  | print c => simp [hp] at h

/-- However the two threads take turns, the streams are given the blocks of 20 of the file one
after the other, each block to one stream; each thread prints, in order, what its own stream
was given without the white space behind the first character; and after at most four steps
for each byte and four more nobody has a step left, all of the file has been given out, and
everything due has been printed. -/
theorem blocks_given (contents : List UInt8) {tr : List (State × Fs)}
    (h : Run (step contents) init tr s) :
    (given contents tr).map Prod.snd =
      (List.range (given contents tr).length).map (block BUFF_SIZE contents) ∧
    (∀ fs, printedBy fs s.out <+: squeeze (givenTo contents fs tr)) ∧
    tr.length ≤ 4 * contents.length + 4 ∧
    ((∀ fs, step contents s fs = none) →
      (given contents tr).flatMap Prod.snd = contents ∧
      ∀ fs, printedBy fs s.out = squeeze (givenTo contents fs tr)) := by
  have hi := inv_run h
  refine ⟨hi.blocks, ?_, ?_, ?_⟩
  · intro fs
    obtain ⟨used, ht⟩ := hi.told fs
    rw [ht.text]
    have hprinted : printedBy fs s.out <+: squeeze used := by
      rw [← ht.printed]
      exact List.prefix_append _ _
    exact hprinted.trans (squeeze_le _ _)
  · have hle := h.length_le step_lowers
    have hinit : (init).ahead contents = 4 * contents.length + 4 := rfl
    omega
  · intro hstuck
    have hdone : ∀ fs, (s.threads fs).phase = .done := fun fs => done_of_stuck (hstuck fs)
    obtain ⟨used, ht⟩ := hi.told .fs1
    have hrest : contents.length ≤ s.offset :=
      List.drop_eq_nil_iff.1 (ht.eof (ht.done (hdone .fs1))).2
    refine ⟨?_, ?_⟩
    · have hall := hi.offset
      rw [List.flatMap_def, hi.blocks, flatten_blocks]
      apply List.take_of_length_le
      omega
    · intro fs
      obtain ⟨used, ht⟩ := hi.told fs
      have hbuffer := (ht.eof (ht.done (hdone fs))).1
      have hprinted := ht.printed
      rw [hdone fs] at hprinted
      rw [ht.text, hbuffer, List.append_nil, ← hprinted]
      simp [Phase.taken]

/-- The second stream takes the only block there is, `a b`. -/
def oneBlock : List Fs := [.fs2, .fs1, .fs2, .fs2, .fs1, .fs2, .fs2, .fs2, .fs2, .fs2, .fs2, .fs2]

theorem blocks_given_oneBlock :
    let contents : List UInt8 := [97, 32, 98]
    let s := (exec (step contents) init oneBlock).get (by decide)
    let tr := trace (step contents) init oneBlock
    s.out = [(.fs2, 97), (.fs2, 98)] ∧
    (given contents tr).map Prod.snd =
      (List.range (given contents tr).length).map (block BUFF_SIZE contents) ∧
    (∀ fs, printedBy fs s.out <+: squeeze (givenTo contents fs tr)) ∧
    tr.length ≤ 4 * contents.length + 4 ∧
    ((∀ fs, step contents s fs = none) →
      (given contents tr).flatMap Prod.snd = contents ∧
      ∀ fs, printedBy fs s.out = squeeze (givenTo contents fs tr)) :=
  ⟨by decide, blocks_given [97, 32, 98] (run_of_isSome init oneBlock (by decide))⟩

end Streams

/-! ### Two descriptors -/

namespace Descriptors

variable {contents : List UInt8} {s s' : State} {fd : Fs} {t : Thread}

def Phase.taken : Phase → Option UInt8
  | .read | .done => none
  | .write c => some c

/-- What a thread has written is what its descriptor has gone through. -/
structure Copied (contents : List UInt8) (t : Thread) (written : List UInt8) : Prop where
  written : written ++ t.phase.taken.toList = contents.take t.offset
  done : t.phase = .done → contents.length ≤ t.offset

theorem step_cases (h : step contents s fd = some s') :
    ∃ t' c, s'.threads = Function.update s.threads fd t' ∧ s'.out = fprintf fd c s.out ∧
      ((∃ a rest, (s.threads fd).phase = .read ∧
          contents.drop (s.threads fd).offset = a :: rest ∧
          t' = ⟨(s.threads fd).offset + 1, .write a⟩ ∧ c = none) ∨
        ((s.threads fd).phase = .read ∧ contents.length ≤ (s.threads fd).offset ∧
          t' = ⟨(s.threads fd).offset, .done⟩ ∧ c = none) ∨
        ∃ a, (s.threads fd).phase = .write a ∧ t' = ⟨(s.threads fd).offset, .read⟩ ∧
          c = some a) := by
  have hnone : s.out = fprintf fd none s.out := (List.append_nil _).symm
  unfold step at h
  cases hp : (s.threads fd).phase with
  | read =>
    cases hrest : contents.drop (s.threads fd).offset with
    | nil =>
      have hread : read contents (s.threads fd).offset 1 = ([], (s.threads fd).offset) := by
        simp [read, hrest]
      simp only [hp, hread] at h
      obtain rfl := Option.some.inj h
      exact ⟨_, none, rfl, hnone, .inr (.inl ⟨rfl, List.drop_eq_nil_iff.1 hrest, rfl, rfl⟩)⟩
    | cons a rest =>
      have hread : read contents (s.threads fd).offset 1 = ([a], (s.threads fd).offset + 1) := by
        simp [read, hrest]
      simp only [hp, hread] at h
      obtain rfl := Option.some.inj h
      exact ⟨_, none, rfl, hnone, .inl ⟨a, rest, rfl, rfl, rfl, rfl⟩⟩
  | write a =>
    simp only [hp] at h
    obtain rfl := Option.some.inj h
    exact ⟨_, some a, rfl, rfl, .inr (.inr ⟨a, rfl, rfl, rfl⟩)⟩
  | done => simp [hp] at h

/-- The invariant: each thread is a copy of the file up to its own offset. -/
def Copies (contents : List UInt8) (s : State) : Prop :=
  ∀ fd, Copied contents (s.threads fd) (printedBy fd s.out)

theorem copies_init : Copies contents init := fun _ => ⟨rfl, nofun⟩

theorem copies_step (hi : Copies contents s) (h : step contents s fd = some s') :
    Copies contents s' := by
  obtain ⟨t', c, hthreads, hout, hmoved⟩ := step_cases h
  intro fd'
  rw [hthreads, hout, printedBy_fprintf]
  by_cases hfd : fd = fd'
  · subst hfd
    rw [Function.update_self, if_pos rfl]
    obtain ⟨hwritten, hdone⟩ := hi fd
    rcases hmoved with ⟨a, rest, hp, hrest, rfl, rfl⟩ | ⟨hp, hend, rfl, rfl⟩ | ⟨a, hp, rfl, rfl⟩
    · rw [hp] at hwritten
      refine ⟨?_, nofun⟩
      -- the character read is the one behind those before it
      rw [List.take_add, hrest, ← hwritten]
      simp [Phase.taken]
    · rw [hp] at hwritten
      exact ⟨by simpa [Phase.taken] using hwritten, fun _ => hend⟩
    · rw [hp] at hwritten
      exact ⟨by simpa [Phase.taken] using hwritten, nofun⟩
  · rw [Function.update_of_ne (Ne.symm hfd), if_neg hfd, List.append_nil]
    exact hi fd'

def Thread.ahead (contents : List UInt8) (t : Thread) : ℕ :=
  2 * (contents.length - t.offset) +
    match t.phase with
    | .read => 1
    | .write _ => 2
    | .done => 0

def State.ahead (contents : List UInt8) (s : State) : ℕ :=
  (s.threads .fs1).ahead contents + (s.threads .fs2).ahead contents

theorem step_lowers (s : State) (fd : Fs) (s' : State) (h : step contents s fd = some s') :
    s'.ahead contents < s.ahead contents := by
  obtain ⟨t', c, hthreads, -, hmoved⟩ := step_cases h
  have hlow : t'.ahead contents < (s.threads fd).ahead contents := by
    rcases hmoved with ⟨a, rest, hp, hrest, rfl, -⟩ | ⟨hp, -, rfl, -⟩ | ⟨a, hp, rfl, -⟩
    · have hlen := congrArg List.length hrest
      rw [List.length_drop, List.length_cons] at hlen
      simp only [Thread.ahead, hp]
      omega
    · simp [Thread.ahead, hp]
    · simp [Thread.ahead, hp]
  unfold State.ahead
  rw [hthreads]
  cases fd <;> simp only [Function.update_apply, reduceCtorEq, if_true, if_false] <;> omega

theorem done_of_stuck (h : step contents s fd = none) : (s.threads fd).phase = .done := by
  unfold step at h
  cases hp : (s.threads fd).phase with
  | done => rfl
  | read => cases hread : read contents (s.threads fd).offset 1 with | mk bytes offset =>
    cases bytes <;> simp [hp, hread] at h
  | write a => simp [hp] at h

/-- However the two threads take turns, each has printed a beginning of the file, and after at
most two steps for each byte it reads and one more each of them has printed all of it. -/
theorem each_copies (contents : List UInt8) {tr : List (State × Fs)}
    (h : Run (step contents) init tr s) :
    (∀ fd, printedBy fd s.out <+: contents) ∧ tr.length ≤ 4 * contents.length + 2 ∧
    ((∀ fd, step contents s fd = none) → ∀ fd, printedBy fd s.out = contents) := by
  have hi : Copies contents s := h.invariant copies_init fun _ _ _ => copies_step
  refine ⟨?_, ?_, ?_⟩
  · intro fd
    have hwritten := (hi fd).written
    have hprefix : printedBy fd s.out <+: contents.take (s.threads fd).offset := by
      rw [← hwritten]
      exact List.prefix_append _ _
    exact hprefix.trans (List.take_prefix _ _)
  · have hle := h.length_le step_lowers
    have hinit : (init).ahead contents = 2 * contents.length + 1 + (2 * contents.length + 1) := rfl
    omega
  · intro hstuck fd
    have hdone := done_of_stuck (hstuck fd)
    have hwritten := (hi fd).written
    rw [hdone, List.take_of_length_le ((hi fd).done hdone)] at hwritten
    simpa [Phase.taken] using hwritten

/-- The threads take turns, the second one is ahead. -/
def twoCopies : List Fs :=
  [.fs2, .fs1, .fs2, .fs2, .fs1, .fs2, .fs2, .fs1, .fs1, .fs1]

theorem each_copies_twoCopies :
    let contents : List UInt8 := [97, 98]
    let s := (exec (step contents) init twoCopies).get (by decide)
    s.out = [(.fs2, 97), (.fs1, 97), (.fs2, 98), (.fs1, 98)] ∧
    (∀ fd, printedBy fd s.out <+: contents) ∧
    (trace (step contents) init twoCopies).length ≤ 4 * contents.length + 2 ∧
    ((∀ fd, step contents s fd = none) → ∀ fd, printedBy fd s.out = contents) :=
  ⟨by decide, each_copies [97, 98] (run_of_isSome init twoCopies (by decide))⟩

end Descriptors

end OsLabs.Bio
