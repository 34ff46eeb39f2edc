import OsLabs.Spec.Pipes
import OsLabs.Lib.Population

/-! What the parent prints is what its children wrote, in the order of their writes, and it
meets the end of the pipe only when none of them is left. -/

namespace OsLabs.Pipes

namespace Flagged

variable {msgs : List (List Char)} {s s' : State} {e : Event} {tr : List (State × Event)}
  {k : ℕ} {c : Child}

theorem childrenAt_snoc (found : Child → Bool) (tr : List (State × Event)) (s : State)
    (e : Event) :
    childrenAt found (tr ++ [(s, e)]) = childrenAt found tr ++ (childAt found s e).toList := by
  rw [childrenAt, childrenAt, List.filterMap_append]
  cases h : childAt found s e <;> simp [h]

theorem childAt_child (found : Child → Bool) (hk : s.children[k]? = some c) :
    childAt found s (.run (some k)) = if found c then some k else none := by
  rw [childAt, hk]
  rfl

/-- A step is counted for nobody but the child that takes it. -/
theorem mem_childrenAt_other (found : Child → Bool) (he : e ≠ .run (some k)) :
    k ∈ childrenAt found (tr ++ [(s, e)]) ↔ k ∈ childrenAt found tr := by
  rw [childrenAt_snoc, List.mem_append]
  refine or_iff_left ?_
  rw [Option.mem_toList]
  intro hin
  cases e with
  | sigint who => cases hin
  | run who =>
    cases who with
    | none => cases hin
    | some j =>
      simp only [childAt] at hin
      split_ifs at hin
      · obtain rfl : j = k := Option.some.inj hin
        exact he rfl

theorem mem_childrenAt_own (found : Child → Bool) (hk : s.children[k]? = some c) :
    k ∈ childrenAt found (tr ++ [(s, .run (some k))]) ↔
      k ∈ childrenAt found tr ∨ found c = true := by
  rw [childrenAt_snoc, List.mem_append, childAt_child found hk]
  cases found c <;> simp

theorem mem_wrote_own (tr : List (State × Event)) (hk : s.children[k]? = some c) :
    k ∈ wrote (tr ++ [(s, .run (some k))]) ↔ k ∈ wrote tr ∨ c.phase = .write := by
  unfold wrote
  rw [mem_childrenAt_own _ hk, decide_eq_true_iff]

theorem mem_willing_own (tr : List (State × Event)) (hk : s.children[k]? = some c) :
    k ∈ willing (tr ++ [(s, .run (some k))]) ↔
      k ∈ willing tr ∨ c.phase = .check ∧ c.flag = true := by
  unfold willing
  rw [mem_childrenAt_own _ hk, Bool.and_eq_true, decide_eq_true_iff]

/-- Where a child stands tells what it has done. -/
def Tells (tr : List (State × Event)) (k : ℕ) : Phase → Prop
  | .check => k ∉ wrote tr ∧ k ∉ willing tr
  | .write => k ∉ wrote tr ∧ k ∈ willing tr
  | .exit | .gone => k ∈ wrote tr ↔ k ∈ willing tr

theorem Tells.other {ph : Phase} (h : Tells tr k ph) (he : e ≠ .run (some k)) :
    Tells (tr ++ [(s, e)]) k ph := by
  unfold Tells wrote willing at *
  simp only [mem_childrenAt_other _ he]
  exact h

structure Inv (msgs : List (List Char)) (tr : List (State × Event)) (s : State) : Prop where
  sent : s.pipe.sent = (wrote tr).flatMap fun k => msgs.getD k []
  printed : s.printed = s.pipe.received
  nodup : (wrote tr).Nodup
  child : ∀ k c, s.children[k]? = some c → Tells tr k c.phase
  unborn : ∀ k, s.children.length ≤ k → Tells tr k .check
  few : s.children.length ≤ msgs.length
  born : s.parent ≠ .fork → s.children.length = msgs.length
  done : s.parent = .done → s.writers = false ∧ s.pipe.received = s.pipe.sent

theorem inv_init : Inv msgs [] init :=
  ⟨rfl, rfl, List.nodup_nil, nofun, fun _ _ => ⟨nofun, nofun⟩, Nat.zero_le _,
    fun h => absurd rfl h, nofun⟩

theorem wrote_other (he : ∀ k, e ≠ .run (some k)) : wrote (tr ++ [(s, e)]) = wrote tr := by
  unfold wrote
  rw [childrenAt_snoc]
  cases e with
  | sigint who => exact List.append_nil _
  | run who =>
    cases who with
    | none => exact List.append_nil _
    | some j => exact absurd rfl (he j)

theorem wrote_child (tr : List (State × Event)) (hk : s.children[k]? = some c) :
    wrote (tr ++ [(s, .run (some k))]) = wrote tr ++ if c.phase = .write then [k] else [] := by
  unfold wrote
  rw [childrenAt_snoc, childAt_child _ hk]
  by_cases hw : c.phase = .write <;> simp [hw]

theorem writers_eq_false : s.writers = false ↔
    s.parent ≠ .fork ∧ s.parent ≠ .close ∧
      ∀ (k : ℕ) (c : Child), s.children[k]? = some c → c.phase = .gone := by
  have hall : (∀ c ∈ s.children, c.phase = .gone) ↔
      ∀ (k : ℕ) (c : Child), s.children[k]? = some c → c.phase = .gone := by
    simp only [List.mem_iff_getElem?]
    exact ⟨fun h k c hk => h c ⟨k, hk⟩, fun h c ⟨k, hk⟩ => h k c hk⟩
  rw [← hall]
  simp only [State.writers, Bool.or_eq_false_iff, decide_eq_false_iff_not, List.any_eq_false,
    decide_eq_true_eq, not_not, and_assoc, ne_eq]

theorem Inv.parent (hI : Inv msgs tr s) (h : step msgs s (.run none) = some s') :
    Inv msgs (tr ++ [(s, .run none)]) s' := by
  have hwrote : wrote (tr ++ [(s, .run none)]) = wrote tr := wrote_other (by simp)
  have hchild : ∀ k c, s.children[k]? = some c →
      Tells (tr ++ [(s, .run none)]) k c.phase := fun k c hk => (hI.child k c hk).other (by simp)
  have hunborn : ∀ k, s.children.length ≤ k → Tells (tr ++ [(s, .run none)]) k .check :=
    fun k hk => (hI.unborn k hk).other (by simp)
  have hsent := hI.sent
  have hnodup := hI.nodup
  rw [← hwrote] at hsent hnodup
  simp only [step] at h
  unfold stepParent at h
  split at h
  case h_1 hp =>
    split_ifs at h with hlt
    · obtain rfl := Option.some.inj h
      refine ⟨hsent, hI.printed, hnodup, ?_, ?_, ?_, fun hn => absurd hp hn, ?_⟩
      · intro k c hk
        rw [List.getElem?_append] at hk
        split_ifs at hk with hold
        · exact hchild k c hk
        · obtain rfl := List.mem_singleton.1 (List.mem_of_getElem? hk)
          exact hunborn k (Nat.le_of_not_lt hold)
      · intro k hk
        rw [List.length_append] at hk
        exact hunborn k (Nat.le_of_add_right_le hk)
      · rw [List.length_append, List.length_singleton]
        exact hlt
      · intro hd
        rw [hp] at hd
        cases hd
    · obtain rfl := Option.some.inj h
      refine ⟨hsent, hI.printed, hnodup, hchild, hunborn, hI.few, fun _ => ?_, nofun⟩
      exact Nat.le_antisymm hI.few (Nat.le_of_not_lt hlt)
  case h_2 hp =>
    obtain rfl := Option.some.inj h
    refine ⟨hsent, hI.printed, hnodup, hchild, hunborn, hI.few, fun _ => ?_, nofun⟩
    apply hI.born
    rw [hp]
    nofun
  case h_3 hp =>
    have hborn := hI.born (by simp [hp])
    split at h
    case h_1 => cases h
    case h_2 hread =>
      obtain rfl := Option.some.inj h
      obtain ⟨hwriters, hall, rfl⟩ := Pipe.read_eof Nat.one_pos hread
      refine ⟨hsent, hI.printed, hnodup, hchild, hunborn, hI.few, fun _ => hborn, fun _ => ?_⟩
      refine ⟨?_, hall⟩
      simp only [State.writers, Bool.or_eq_false_iff] at hwriters ⊢
      exact ⟨⟨rfl, rfl⟩, hwriters.2⟩
    case h_3 hread =>
      obtain rfl := Option.some.inj h
      refine ⟨?_, ?_, hnodup, hchild, hunborn, hI.few, fun _ => hborn, ?_⟩
      · rw [← hsent]
        exact Pipe.read_sent hread
      · rw [Pipe.read_received hread, ← hI.printed]
      · intro hd
        rw [hp] at hd
        cases hd
  case h_4 => cases h

/-- A step of a child, or a signal to one: the child has become `c'` and written `bytes`. -/
theorem Inv.child_step (hI : Inv msgs tr s) (hk : s.children[k]? = some c) (c' : Child)
    {bytes : List Char} (hlive : c.phase ≠ .gone ∨ c'.phase = c.phase ∧ bytes = [])
    (hother : ∀ j, j ≠ k → ∀ ph, Tells tr j ph → Tells (tr ++ [(s, e)]) j ph)
    (hown : Tells (tr ++ [(s, e)]) k c'.phase)
    (hnodup : (wrote (tr ++ [(s, e)])).Nodup)
    (hbytes : (wrote (tr ++ [(s, e)])).flatMap (fun k => msgs.getD k []) =
      ((wrote tr).flatMap fun k => msgs.getD k []) ++ bytes) :
    Inv msgs (tr ++ [(s, e)])
      { s with children := s.children.set k c', pipe := s.pipe.write bytes } := by
  have hlt := (List.getElem?_eq_some_iff.1 hk).1
  constructor
  case sent => rw [Pipe.sent_write, hI.sent, hbytes]
  case printed => exact hI.printed
  case nodup => exact hnodup
  case child =>
    intro j d hj
    rw [List.getElem?_set] at hj
    split_ifs at hj with hkj
    · obtain rfl := Option.some.inj hj
      rw [← hkj]
      exact hown
    · exact hother j (Ne.symm hkj) _ (hI.child j d hj)
  case unborn =>
    intro j hj
    rw [List.length_set] at hj
    exact hother j (by omega) _ (hI.unborn j hj)
  case few => rw [List.length_set]; exact hI.few
  case born =>
    intro hp
    rw [List.length_set]
    exact hI.born hp
  case done =>
    intro hp
    obtain ⟨hwriters, hall⟩ := hI.done hp
    obtain ⟨hfork, hclose, hgone⟩ := writers_eq_false.1 hwriters
    obtain ⟨hphase, rfl⟩ := hlive.resolve_left (not_not_intro (hgone k c hk))
    refine ⟨writers_eq_false.2 ⟨hfork, hclose, ?_⟩, ?_⟩
    · exact forall_set hgone (hphase.trans (hgone k c hk))
    · rw [Pipe.sent_write, List.append_nil]
      exact hall

theorem Inv.child_quiet (hI : Inv msgs tr s) (hk : s.children[k]? = some c) (c' : Child)
    (hlive : c.phase ≠ .gone ∨ c'.phase = c.phase)
    (hother : ∀ j, j ≠ k → ∀ ph, Tells tr j ph → Tells (tr ++ [(s, e)]) j ph)
    (hown : Tells (tr ++ [(s, e)]) k c'.phase) (hwrote : wrote (tr ++ [(s, e)]) = wrote tr) :
    Inv msgs (tr ++ [(s, e)]) { s with children := s.children.set k c' } := by
  have hnew := hI.child_step hk c' (hlive.imp_right fun h => ⟨h, rfl⟩) hother hown
    (hwrote ▸ hI.nodup) (by rw [hwrote, List.append_nil])
  rw [Pipe.write, List.append_nil] at hnew
  exact hnew

theorem wrote_flatMap (msgs : List (List Char)) (tr : List (State × Event))
    (hk : s.children[k]? = some c) :
    (wrote (tr ++ [(s, .run (some k))])).flatMap (fun k => msgs.getD k []) =
      ((wrote tr).flatMap fun k => msgs.getD k []) ++
        if c.phase = .write then msgs.getD k [] else [] := by
  rw [wrote_child tr hk, List.flatMap_append]
  split_ifs <;> simp

theorem inv_step (hI : Inv msgs tr s) (h : step msgs s e = some s') :
    Inv msgs (tr ++ [(s, e)]) s' := by
  cases e with
  | sigint who =>
    have hwrote : wrote (tr ++ [(s, .sigint who)]) = wrote tr := wrote_other (by simp)
    have hother : ∀ j ph, Tells tr j ph → Tells (tr ++ [(s, .sigint who)]) j ph :=
      fun j ph ht => ht.other (by simp)
    cases who with
    | none =>
      obtain rfl := Option.some.inj h
      refine ⟨?_, hI.printed, ?_, ?_, ?_, hI.few, hI.born, hI.done⟩
      · rw [hwrote]
        exact hI.sent
      · rw [hwrote]
        exact hI.nodup
      · exact fun k c hk => hother k _ (hI.child k c hk)
      · exact fun k hk => hother k _ (hI.unborn k hk)
    | some k =>
      obtain ⟨c, hk, h⟩ := Option.bind_eq_some_iff.1 h
      obtain rfl := Option.some.inj h
      apply hI.child_quiet hk { c with flag := true } (.inr rfl) (fun j _ => hother j) _ hwrote
      exact hother k _ (hI.child k c hk)
  | run who =>
    cases who with
    | none => exact hI.parent h
    | some k =>
      obtain ⟨c, hk, h⟩ := Option.bind_eq_some_iff.1 h
      have hother : ∀ j, j ≠ k → ∀ ph, Tells tr j ph → Tells (tr ++ [(s, .run (some k))]) j ph := by
        intro j hj ph ht
        apply ht.other
        intro heq
        exact hj (Option.some.inj (Event.run.inj heq)).symm
      have hnodup := wrote_child tr hk
      have hsent := wrote_flatMap msgs tr hk
      have htells := hI.child k c hk
      have hwrote := mem_wrote_own tr hk
      have hwilling := mem_willing_own tr hk
      unfold stepChild at h
      split at h
      case h_1 hc =>
        obtain rfl := Option.some.inj h
        rw [if_neg (by simp [hc]), List.append_nil] at hnodup
        refine hI.child_quiet hk _ (.inl (by simp [hc])) hother ?_ hnodup
        rw [hc] at htells hwrote hwilling
        obtain ⟨hnot, hnotw⟩ := htells
        cases hflag : c.flag <;> simp [Tells, hwrote, hwilling, hnot, hnotw, hflag]
      case h_2 hc =>
        obtain rfl := Option.some.inj h
        rw [if_pos hc] at hnodup hsent
        rw [hc] at htells
        refine hI.child_step hk _ (.inl (by simp [hc])) hother ?_ ?_ hsent
        · rw [hc] at hwrote hwilling
          simp [Tells, hwrote, hwilling, htells.2]
        · rw [hnodup]
          refine List.nodup_append.2 ⟨hI.nodup, List.pairwise_singleton _ k, ?_⟩
          intro j hj i hi heq
          rw [List.mem_singleton] at hi
          rw [heq, hi] at hj
          exact htells.1 hj
      case h_3 hc =>
        obtain rfl := Option.some.inj h
        rw [if_neg (by simp [hc]), List.append_nil] at hnodup
        refine hI.child_quiet hk _ (.inl (by simp [hc])) hother ?_ hnodup
        rw [hc] at htells hwrote hwilling
        simpa [Tells, hwrote, hwilling] using htells
      case h_4 => cases h

theorem inv_run (h : Run (step msgs) init tr s) : Inv msgs tr s := by
  induction h with
  | nil => exact inv_init
  | snoc _ he ih => exact inv_step ih he

/-! ### How long it takes -/

/-- The steps a child still has before it, a read of each byte of its message among them. -/
def childLeft (msg : List Char) (c : Child) : ℕ :=
  match c.phase with
  | .check => 3 + msg.length
  | .write => 2 + msg.length
  | .exit => 1
  | .gone => 0

def left : List (List Char) → List Child → ℕ
  | [], _ => 0
  | msg :: msgs, [] => 4 + msg.length + left msgs []
  | msg :: msgs, c :: cs => childLeft msg c + left msgs cs

def Parent.left : Parent → ℕ
  | .fork => 3
  | .close => 2
  | .read => 1
  | .done => 0

def State.left (msgs : List (List Char)) (s : State) : ℕ :=
  s.parent.left + Flagged.left msgs s.children + s.pipe.queue.length

theorem left_nil (msgs : List (List Char)) :
    left msgs [] = 4 * msgs.length + msgs.flatten.length := by
  induction msgs with
  | nil => rfl
  | cons msg msgs ih =>
    rw [left, ih, List.flatten_cons, List.length_append, List.length_cons]
    omega

theorem left_snoc {cs : List Child} (hc : c.phase = .check) (hlt : cs.length < msgs.length) :
    left msgs (cs ++ [c]) + 1 = left msgs cs := by
  induction msgs generalizing cs with
  | nil => cases hlt
  | cons msg msgs ih =>
    cases cs with
    | nil =>
      rw [List.nil_append, left, left, childLeft, hc]
      dsimp only
      omega
    | cons d cs =>
      rw [List.cons_append, left, left, ← ih (Nat.lt_of_succ_lt_succ hlt), Nat.add_assoc]

theorem left_set {cs : List Child} (hk : cs[k]? = some c) (hlt : k < msgs.length) (c' : Child) :
    left msgs (cs.set k c') + childLeft (msgs.getD k []) c =
      left msgs cs + childLeft (msgs.getD k []) c' := by
  induction msgs generalizing cs k with
  | nil => cases hlt
  | cons msg msgs ih =>
    cases cs with
    | nil => cases hk
    | cons d cs =>
      cases k with
      | zero =>
        obtain rfl : d = c := Option.some.inj hk
        simp only [List.set_cons_zero, left, List.getD_cons_zero]
        omega
      | succ k =>
        have := ih (k := k) hk (Nat.lt_of_succ_lt_succ hlt)
        simp only [List.set_cons_succ, left, List.getD_cons_succ]
        omega

theorem left_step (hI : Inv msgs tr s) (h : step msgs s e = some s') :
    s'.left msgs + (if e.own then 1 else 0) ≤ s.left msgs := by
  unfold State.left
  cases e with
  | sigint who =>
    cases who with
    | none =>
      obtain rfl := Option.some.inj h
      exact Nat.le_refl _
    | some k =>
      obtain ⟨c, hk, h⟩ := Option.bind_eq_some_iff.1 h
      obtain rfl := Option.some.inj h
      have hlt := (List.getElem?_eq_some_iff.1 hk).1.trans_le hI.few
      have hset := left_set hk hlt { c with flag := true }
      simp only [childLeft] at hset
      simp only [Event.own, Bool.false_eq_true, if_false]
      omega
  | run who =>
    cases who with
    | none =>
      simp only [step] at h
      unfold stepParent at h
      split at h
      case h_1 hp =>
        split_ifs at h with hlt
        · obtain rfl := Option.some.inj h
          have hsnoc := left_snoc (c := ⟨s.flag, .check⟩) rfl hlt
          simp only [Event.own, if_true]
          omega
        · obtain rfl := Option.some.inj h
          simp only [hp, Parent.left, Event.own, if_true]
          omega
      case h_2 hp =>
        obtain rfl := Option.some.inj h
        simp only [hp, Parent.left, Event.own, if_true]
        omega
      case h_3 hp =>
        split at h
        case h_1 => cases h
        case h_2 hread =>
          obtain rfl := Option.some.inj h
          obtain ⟨-, -, rfl⟩ := Pipe.read_eof Nat.one_pos hread
          simp only [hp, Parent.left, Event.own, if_true]
          omega
        case h_3 bytes pipe hne hread =>
          obtain rfl := Option.some.inj h
          have hqueue := Pipe.read_queue Nat.one_pos hread hne
          simp only [Event.own, if_true]
          omega
      case h_4 => cases h
    | some k =>
      obtain ⟨c, hk, h⟩ := Option.bind_eq_some_iff.1 h
      have hlt := (List.getElem?_eq_some_iff.1 hk).1.trans_le hI.few
      unfold stepChild at h
      split at h
      case h_1 hc =>
        obtain rfl := Option.some.inj h
        have hset := left_set hk hlt { c with phase := if c.flag then .write else .exit }
        cases hflag : c.flag <;> simp [childLeft, hc, hflag, Event.own] at hset ⊢ <;> omega
      case h_2 hc =>
        obtain rfl := Option.some.inj h
        have hset := left_set hk hlt { c with phase := .exit }
        simp only [childLeft, hc] at hset
        simp only [Pipe.write, List.length_append, Event.own, if_true]
        omega
      case h_3 hc =>
        obtain rfl := Option.some.inj h
        have hset := left_set hk hlt { c with phase := .gone }
        simp only [childLeft, hc] at hset
        simp only [Event.own, if_true]
        omega
      case h_4 => cases h

theorem left_run (h : Run (step msgs) init tr s) :
    (tr.countP fun p => p.2.own) + s.left msgs ≤ init.left msgs := by
  induction h with
  | nil => exact Nat.le_of_eq (Nat.zero_add _)
  | snoc hr he ih =>
    have hstep := left_step (inv_run hr) he
    rw [List.countP_append, List.countP_singleton]
    dsimp only
    omega

/-- As long as the parent has not met the end of the pipe, somebody has a step to take. -/
theorem enabled (hp : s.parent ≠ .done) : ∃ who, (step msgs s (.run who)).isSome := by
  cases hparent : s.parent with
  | fork =>
    refine ⟨none, ?_⟩
    simp only [step, stepParent, hparent]
    split_ifs <;> rfl
  | close => exact ⟨none, by simp [step, stepParent, hparent]⟩
  | done => exact absurd hparent hp
  | read =>
    by_cases hread : (s.pipe.read s.writers 1).isSome
    · refine ⟨none, ?_⟩
      obtain ⟨⟨bytes, pipe⟩, hread⟩ := Option.isSome_iff_exists.1 hread
      simp only [step, stepParent, hparent, hread]
      cases bytes <;> rfl
    -- an empty pipe with a writer: that one is a child
    · rw [Pipe.read_isSome, not_or, Bool.not_eq_false] at hread
      have hwriters := hread.2
      simp only [State.writers, hparent, reduceCtorEq, decide_false, Bool.false_or, List.any_eq_true,
        decide_eq_true_eq, List.mem_iff_getElem?] at hwriters
      obtain ⟨c, ⟨k, hk⟩, hlive⟩ := hwriters
      refine ⟨some k, ?_⟩
      simp only [step, hk, Option.bind_eq_bind, Option.bind_some, stepChild]
      cases hc : c.phase with
      | gone => exact absurd hc hlive
      | check | write | exit => rfl

theorem left_init : init.left msgs = 3 + 4 * msgs.length + msgs.flatten.length := by
  rw [State.left, init, left_nil]
  simp only [Parent.left, Pipe.empty, List.length_nil]
  omega

/-- The parent prints what its children wrote, in the order of their writes. When it meets the
end of the pipe every child that found its flag set has written once, and none is left; it gets
there in a bounded number of steps, as some process always has one to take. -/
theorem parent_told (h : Run (step msgs) init tr s) :
    s.printed <+: ((wrote tr).flatMap fun k => msgs.getD k []) ∧ (wrote tr).Nodup ∧
      (tr.countP fun p => p.2.own) ≤ 3 + 4 * msgs.length + msgs.flatten.length ∧
      (s.parent ≠ .done → ∃ who, (step msgs s (.run who)).isSome) ∧
      (s.parent = .done → s.printed = ((wrote tr).flatMap fun k => msgs.getD k []) ∧
        s.children.length = msgs.length ∧ (∀ c ∈ s.children, c.phase = .gone) ∧
        ∀ k, k ∈ wrote tr ↔ k ∈ willing tr) := by
  have hI := inv_run h
  have hleft := left_run h
  rw [left_init] at hleft
  refine ⟨?_, hI.nodup, Nat.le_of_add_right_le hleft, enabled, ?_⟩
  · rw [hI.printed, ← hI.sent]
    exact s.pipe.received_prefix
  · intro hdone
    obtain ⟨hwriters, hall⟩ := hI.done hdone
    obtain ⟨hfork, -, hgone⟩ := writers_eq_false.1 hwriters
    refine ⟨by rw [hI.printed, hall, hI.sent], hI.born hfork, ?_, ?_⟩
    · intro c hc
      obtain ⟨k, hk⟩ := List.mem_iff_getElem?.1 hc
      exact hgone k c hk
    · intro k
      cases hk : s.children[k]? with
      | none =>
        obtain ⟨hnot, hnotw⟩ := hI.unborn k (List.getElem?_eq_none_iff.1 hk)
        exact iff_of_false hnot hnotw
      | some c =>
        have htells := hI.child k c hk
        rw [hgone k c hk] at htells
        exact htells

/-- The second child gets the signal between its `fork` and its test, the first too late. -/
def lateSignal : List Event :=
  [.run none, .run (some 0), .run none, .sigint (some 0), .sigint (some 1), .run (some 1),
    .run none, .run none, .run (some 1), .run none, .run none, .run (some 0), .run (some 1)] ++
  List.replicate 5 (.run none)

theorem parent_told_lateSignal :
    ∃ s, exec (step Flagged.msgs) init lateSignal = some s ∧ s.parent = .done ∧
      s.printed = "bbbbb\n".toList ∧ s.printed =
        (wrote (trace (step Flagged.msgs) init lateSignal)).flatMap fun k => Flagged.msgs.getD k [] := by
  have hrun := run_of_isSome init lateSignal
    (by decide : (exec (step Flagged.msgs) init lateSignal).isSome)
  obtain ⟨-, -, -, -, htold⟩ := parent_told hrun
  exact ⟨_, (Option.some_get _).symm, by decide, by decide, (htold (by decide)).1⟩

end Flagged

end OsLabs.Pipes
