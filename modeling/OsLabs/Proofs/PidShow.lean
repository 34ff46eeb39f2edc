import OsLabs.Spec.PidShow

/-! What the show functions do with the references they take. The task is given back,
the `struct pid` it was looked up by never is. -/

namespace OsLabs.PidShow

def Refs.leak (refs : Refs) (nrs : List ℤ) : Refs := { refs with pid := getRefs refs.pid nrs }

@[simp] theorem leak_nil (refs : Refs) : refs.leak [] = refs := rfl

theorem leak_leak (refs : Refs) (nrs nrs' : List ℤ) :
    (refs.leak nrs).leak nrs' = refs.leak (nrs ++ nrs') := by
  simp only [Refs.leak, getRefs_append]

theorem leak_eq_self_iff (refs : Refs) (nrs : List ℤ) : refs.leak nrs = refs ↔ nrs = [] := by
  rw [← getRefs_eq_self_iff refs.pid]
  refine ⟨?_, ?_⟩
  · intro h
    exact congrArg Refs.pid h
  · intro h
    rw [Refs.leak, h]

theorem showPid_refs (first rest : String) (live : Live) (pid : ℤ) (refs : Refs) :
    (showPid first rest live pid refs).2 = refs.leak (if live.pid pid then [pid] else []) := by
  unfold showPid findGetPid getPidTask
  cases live.pid pid with
  | false => rfl
  | true => cases ht : live.task pid <;> simp [Refs.leak, putTaskStruct, ht]

theorem SeqIter.seqShow_refs (live : Live) (pid : ℤ) (refs : Refs) :
    (seqShow live pid refs).2 =
      refs.leak (if (0 ≤ pid && live.pid pid) = true then [pid] else []) := by
  unfold seqShow
  by_cases hneg : pid < 0
  · rw [if_pos hneg, decide_eq_false (Int.not_le.2 hneg), Bool.false_and]
    rfl
  · rw [if_neg hneg, showPid_refs, decide_eq_true (Int.not_lt.1 hneg), Bool.true_and]

theorem SeqSingle.showLoop_refs (live : Call) (i : ℕ) (pids : List ℤ) (refs : Refs) :
    (showLoop live i pids refs).2 =
      refs.leak (((pids.zipIdx i).filter fun p => (live p.2).pid p.1).map Prod.fst) := by
  induction pids generalizing i refs with
  | nil => rfl
  | cons pid pids ih =>
    simp only [showLoop]
    rw [ih, showPid_refs, leak_leak, List.zipIdx_cons, List.filter_cons]
    cases (live i).pid pid <;> rfl

/-- What a show function leaves of the references is what it found and kept. -/
def Leaks {κ : Type} (shows : Module → κ → Option Refs) (found : Module → κ → List ℤ) : Prop :=
  ∀ m call refs, shows m call = some refs → refs = m.refs.leak (found m call)

theorem SeqIter.leaks : Leaks shows found := by
  intro m call refs h
  obtain ⟨pid, hpid, rfl⟩ := Option.map_eq_some_iff.1 h
  rw [seqShow_refs, found, show m.pids[call.pos]? = some pid from hpid]
  simp [List.filter_cons]

theorem SeqSingle.leaks : Leaks shows found := by
  intro m live refs h
  obtain rfl := Option.some.inj h
  unfold singleShow found
  split_ifs with hnone
  · rw [List.eq_nil_of_length_eq_zero hnone]
    rfl
  · exact showLoop_refs live 0 m.pids m.refs

theorem myWrite_refs (kstrtoint : List Char → Option ℤ) (m : Module) (buf : List Char)
    (copied : Bool) : (myWrite kstrtoint m buf copied).2.refs = m.refs := by
  simp only [myWrite]
  generalize List.takeWhile _ _ = kbuf
  split_ifs
  · rfl
  · rfl
  · cases kstrtoint kbuf <;> rfl
  · rfl

section Runs

variable {κ : Type} {shows : Module → κ → Option Refs} {found : Module → κ → List ℤ}
  {kstrtoint : List Char → Option ℤ} {m m' : Module} {e : Event κ}

def Event.lookedUp (found : Module → κ → List ℤ) (m : Module) : Event κ → List ℤ
  | .write _ _ => []
  | .read call => found m call

theorem noPid_iff : NoPid found m e ↔ e.lookedUp found m = [] := by
  cases e with
  | write => simp [NoPid, Event.lookedUp]
  | read call => rfl

theorem refs_step (hl : Leaks shows found) (h : step kstrtoint shows m e = some m') :
    m'.refs = m.refs.leak (e.lookedUp found m) := by
  cases e with
  | write buf copied =>
    obtain rfl := Option.some.inj h
    exact myWrite_refs kstrtoint m buf copied
  | read call =>
    obtain ⟨refs, hrefs, rfl⟩ := Option.map_eq_some_iff.1 h
    exact hl m call refs hrefs

/-- The references left behind add up over the run. -/
theorem refs_run (hl : Leaks shows found) {tr : List (Module × Event κ)}
    (h : Run (step kstrtoint shows) init tr m) :
    m.refs = noRefs.leak (tr.flatMap fun p => p.2.lookedUp found p.1) := by
  induction h with
  | nil => rfl
  | snoc _ he ih =>
    rw [refs_step hl he, ih, leak_leak, List.flatMap_append, List.flatMap_singleton]

/-- The calls that keep the references are those that find nothing. -/
theorem kept_iff (hl : Leaks shows found) {tr : List (Module × Event κ)}
    (h : Run (step kstrtoint shows) init tr m) :
    EachStep (KeepsRefs shows) tr ∧ Always HoldsNone tr m ↔ EachStep (NoPid found) tr := by
  refine h.good_iff (I := HoldsNone) (show HoldsNone init from rfl) (fun _ hi => hi) ?_ ?_
  · intro m e m' hi hc he
    have hrefs := refs_step hl he
    rw [noPid_iff.1 hc, leak_nil] at hrefs
    refine ⟨?_, hrefs.trans hi⟩
    cases e with
    | write => trivial
    | read call =>
      intro refs hcall
      rw [hl m call refs hcall, show found m call = [] from hc, leak_nil]
  · intro m e m' hi hc he hkept
    have hrefs := refs_step hl he
    rw [hkept.2, ← show m.refs = noRefs from hi, eq_comm, leak_eq_self_iff] at hrefs
    exact hc (noPid_iff.2 hrefs)

end Runs

/-- Neither module leaves a reference behind as long as none of its calls looks up a
number that has a `struct pid`. -/
theorem refs_kept_iff {kstrtoint : List Char → Option ℤ}
    {trI : List (Module × Event SeqIter.Call)} {mI : Module}
    {trS : List (Module × Event SeqSingle.Call)} {mS : Module}
    (hI : Run (step kstrtoint SeqIter.shows) init trI mI)
    (hS : Run (step kstrtoint SeqSingle.shows) init trS mS) :
    (EachStep (KeepsRefs SeqIter.shows) trI ∧ Always HoldsNone trI mI ↔
        EachStep (NoPid SeqIter.found) trI) ∧
      (EachStep (KeepsRefs SeqSingle.shows) trS ∧ Always HoldsNone trS mS ↔
        EachStep (NoPid SeqSingle.found) trS) :=
  ⟨kept_iff SeqIter.leaks hI, kept_iff SeqSingle.leaks hS⟩

def parseOne (s : List Char) : Option ℤ := if s = ['1'] then some 1 else none

def initRuns : Live :=
  ⟨(· = 1), fun nr => if nr = 1 then some ⟨0, 120, 0x400100, 1, 7, 5⟩ else none⟩

def readInit : List (Event SeqIter.Call) := [.write ['1', '\n'] true, .read ⟨0, initRuns⟩]

def readInitSingle : List (Event SeqSingle.Call) :=
  [.write ['1', '\n'] true, .read fun _ => initRuns]

def nobodyRuns : Live := ⟨fun _ => false, fun _ => none⟩

def readNobody : List (Event SeqIter.Call) := [.write ['1', '\n'] true, .read ⟨0, nobodyRuns⟩]

def readNobodySingle : List (Event SeqSingle.Call) :=
  [.write ['1', '\n'] true, .read fun _ => nobodyRuns]

theorem refs_kept_iff_readNobody :
    (EachStep (KeepsRefs SeqIter.shows) (trace (step parseOne SeqIter.shows) init readNobody) ∧
        Always HoldsNone (trace (step parseOne SeqIter.shows) init readNobody)
          ((exec (step parseOne SeqIter.shows) init readNobody).get (by decide))) ∧
      EachStep (KeepsRefs SeqSingle.shows)
          (trace (step parseOne SeqSingle.shows) init readNobodySingle) ∧
        Always HoldsNone (trace (step parseOne SeqSingle.shows) init readNobodySingle)
          ((exec (step parseOne SeqSingle.shows) init readNobodySingle).get (by decide)) := by
  have hI : Run (step parseOne SeqIter.shows) init
    (trace (step parseOne SeqIter.shows) init readNobody) _ := run_of_isSome _ _ (by decide)
  have hS : Run (step parseOne SeqSingle.shows) init
    (trace (step parseOne SeqSingle.shows) init readNobodySingle) _ :=
    run_of_isSome _ _ (by decide)
  obtain ⟨hiter, hsingle⟩ := refs_kept_iff hI hS
  have hnoneI : EachStep (fun _ e => ∀ m, NoPid SeqIter.found m e)
      (trace (step parseOne SeqIter.shows) init readNobody) :=
    eachStep_trace init (by simp [readNobody, NoPid, SeqIter.found, nobodyRuns])
  have hnoneS : EachStep (fun _ e => ∀ m, NoPid SeqSingle.found m e)
      (trace (step parseOne SeqSingle.shows) init readNobodySingle) :=
    eachStep_trace init (by simp [readNobodySingle, NoPid, SeqSingle.found, nobodyRuns])
  exact ⟨hiter.2 fun p hp => hnoneI p hp p.1, hsingle.2 fun p hp => hnoneS p hp p.1⟩

/-- The reference to the `struct pid` stays with the module. -/
theorem refs_kept_fails :
    (¬ ∀ (kstrtoint : List Char → Option ℤ) (tr : List (Module × Event SeqIter.Call))
      (m : Module), Run (step kstrtoint SeqIter.shows) init tr m →
        EachStep (KeepsRefs SeqIter.shows) tr) ∧
    ¬ ∀ (kstrtoint : List Char → Option ℤ) (tr : List (Module × Event SeqSingle.Call))
      (m : Module), Run (step kstrtoint SeqSingle.shows) init tr m →
        EachStep (KeepsRefs SeqSingle.shows) tr := by
  refine ⟨?_, ?_⟩
  · intro h
    have hkept := h parseOne _ _ (run_of_isSome init readInit (by decide))
    have hlast := hkept _ (List.mem_cons_of_mem _ List.mem_cons_self) _ rfl
    exact absurd (congrFun (congrArg Refs.pid hlast) 1) (by decide)
  · intro h
    have hkept := h parseOne _ _ (run_of_isSome init readInitSingle (by decide))
    have hlast := hkept _ (List.mem_cons_of_mem _ List.mem_cons_self) _ rfl
    exact absurd (congrFun (congrArg Refs.pid hlast) 1) (by decide)

end OsLabs.PidShow
