import OsLabs.Lib.Worklist
import OsLabs.Spec.Ftw

/-! The walk is the recursive traversal. Read from the top, the stack holds what is
left of the directory one is in, the sentinel that leads out of it, what is left of
the directory above, and so on. -/

namespace OsLabs.Ftw

/-- Induction over a tree, from the entries of a directory to the directory. -/
theorem Entry.induct {p : Entry → Prop} (h : ∀ e : Entry, (∀ b ∈ e.entries, p b) → p e) :
    ∀ e, p e := by
  intro e
  refine @Entry.rec p (fun es => ∀ b ∈ es, p b) ?_ ?_ ?_ ?_ e
  · intro name mode hmode lstat
    apply h
    simp [entries]
  · intro name lstat opendir chdir es hes
    exact h (.dir name lstat opendir chdir es) hes
  · simp
  · intro e es he hes b hb
    rcases List.mem_cons.1 hb with rfl | hb
    · exact he
    · exact hes b hb

theorem Entry.All.self {p : Entry → Prop} {e : Entry} (h : e.All p) : p e := by
  cases h with
  | file h => exact h
  | dir h _ => exact h

theorem Entry.All.of_mem {p : Entry → Prop} {d e : Entry} (h : d.All p) (he : e ∈ d.entries) :
    e.All p := by
  cases h with
  | file => simp [Entry.entries] at he
  | dir _ h => exact h e he

/-- Neither `lstat` nor `opendir` nor `chdir` fails on the entry. -/
def Entry.entered (e : Entry) : Bool := e.stat.isSome && e.canOpen && e.canEnter

theorem Entry.traverse_eq (e : Entry) (cwd : Cwd) (depth : ℤ) :
    e.traverse cwd depth = ⟨e, cwd, depth⟩ ::
      if e.entered then traverseEntries (e :: cwd) (depth + 1) e.entries else [] := by
  cases e with
  | file => simp [traverse, entered, canOpen]
  | dir name lstat => cases lstat <;> simp [traverse, entered, stat, canOpen, canEnter, entries]

theorem Tree.traverse_eq (t : Tree) :
    t.traverse = ⟨t.root, [t.root], 0⟩ ::
      if t.root.entered then traverseEntries [t.root] 1 t.root.entries else [] := by
  cases hl : t.lstat <;>
    simp [Tree.traverse, Tree.root, Entry.entered, Entry.stat, Entry.canOpen, Entry.canEnter,
      Entry.entries, hl]

/-! ### What a visit changes -/

def State.visit (s : State) (v : Visit) : State where
  cwd := s.cwd
  stats := (v.entry.stat.map fun mode => incStat mode s.stats).getD s.stats
  calls := s.calls ++ v.call.toList
  processed := s.processed ++ [(v.entry.name, v.cwd)]

def State.visits (s : State) (vs : List Visit) : State := vs.foldl State.visit s

variable {s : State} {vs : List Visit}

theorem visits_cwd : (s.visits vs).cwd = s.cwd := by
  induction vs generalizing s with
  | nil => rfl
  | cons v vs ih => exact ih

theorem visits_setCwd (cwd : Cwd) : { s with cwd }.visits vs = { s.visits vs with cwd } := by
  induction vs generalizing s with
  | nil => rfl
  | cons v vs ih => exact ih (s := s.visit v)

theorem visits_append (ws : List Visit) : s.visits (vs ++ ws) = (s.visits vs).visits ws :=
  List.foldl_append

theorem visits_calls : (s.visits vs).calls = s.calls ++ vs.filterMap Visit.call := by
  induction vs generalizing s with
  | nil => simp [State.visits]
  | cons v vs ih =>
    have h := ih (s := s.visit v)
    cases hc : v.call <;> simpa [State.visits, State.visit, hc] using h

theorem visits_processed :
    (s.visits vs).processed = s.processed ++ vs.map fun v => (v.entry.name, v.cwd) := by
  induction vs generalizing s with
  | nil => simp [State.visits]
  | cons v vs ih =>
    have h := ih (s := s.visit v)
    simpa [State.visits, State.visit] using h

theorem incStat_count (mode mode' : Mode) (stats : Stat) :
    (incStat mode stats).count mode' = stats.count mode' + if mode = mode' then 1 else 0 := by
  cases mode <;> cases mode' <;> rfl

theorem incStat_total (mode : Mode) (stats : Stat) :
    (printStat (incStat mode stats)).ntotal = (printStat stats).ntotal + 1 := by
  cases mode <;> simp only [incStat, printStat] <;> omega

theorem visits_count (s : State) (vs : List Visit) (mode : Mode) : (s.visits vs).stats.count mode =
    s.stats.count mode + vs.countP fun v => v.entry.stat = some mode := by
  induction vs generalizing s with
  | nil => rfl
  | cons v vs ih =>
    have h := ih (s.visit v)
    rw [State.visits, List.foldl_cons, ← State.visits, h, List.countP_cons]
    cases hm : v.entry.stat with
    | none => simp [State.visit, hm]
    | some mode' =>
      simp only [State.visit, hm, Option.map_some, Option.getD_some, incStat_count,
        Option.some.injEq, decide_eq_true_eq]
      omega

/-- The sum of the counters goes up with every call of `func`. -/
theorem visits_total (s : State) (vs : List Visit) : (printStat (s.visits vs).stats).ntotal =
    (printStat s.stats).ntotal + (vs.filterMap Visit.call).length := by
  induction vs generalizing s with
  | nil => rfl
  | cons v vs ih =>
    have h := ih (s.visit v)
    rw [State.visits, List.foldl_cons, ← State.visits, h]
    cases hm : v.entry.stat with
    | none => simp [State.visit, Visit.call, hm]
    | some mode =>
      simp only [State.visit, Visit.call, hm, Option.map_some, Option.getD_some, incStat_total,
        List.filterMap_cons, List.length_cons]
      omega

/-! ### One element of the stack -/

/-- The element for an entry, and the sentinel. -/
def node (depth : ℤ) (e : Entry) : Node := ⟨e.name, depth⟩
def sentinel : Node := ⟨dotdot, -1⟩

def NameFits (e : Entry) : Prop := e.name.length < MAX_NAME

instance : DecidablePred NameFits := fun e => inferInstanceAs (Decidable (e.name.length < MAX_NAME))

theorem push_eq (elem : Node) (h : elem.fileName.length < MAX_NAME) (stk : List Node) :
    push stk elem = .ok (elem :: stk) := by
  simp only [push, createNode, if_pos h, bind, Except.bind, pure, Except.pure]

theorem pushEntry_eq {n : Name} (hn : n ≠ dot ∧ n ≠ dotdot) (hlen : n.length < MAX_NAME)
    (depth : ℤ) (stk : List Node) : pushEntry depth stk n = .ok (⟨n, depth⟩ :: stk) := by
  unfold pushEntry
  rw [if_pos hn]
  simp only [createNode, if_pos hlen, bind, Except.bind]
  exact push_eq ⟨n, depth⟩ hlen stk

theorem pushEntry_skipped {n : Name} (hn : ¬ (n ≠ dot ∧ n ≠ dotdot)) (depth : ℤ)
    (stk : List Node) : pushEntry depth stk n = .ok stk := by
  unfold pushEntry
  rw [if_neg hn]
  rfl

theorem pushEntries_eq (names : List Name) (depth : ℤ) (stk : List Node)
    (h : ∀ n ∈ names.filter (fun n => n ≠ dot ∧ n ≠ dotdot), n.length < MAX_NAME) :
    names.foldlM (pushEntry depth) stk = .ok (((names.filter
      (fun n => n ≠ dot ∧ n ≠ dotdot)).map (fun n => (⟨n, depth⟩ : Node))).reverse ++ stk) := by
  induction names generalizing stk with
  | nil => rfl
  | cons n names ih =>
    rw [List.foldlM_cons]
    by_cases hn : n ≠ dot ∧ n ≠ dotdot
    · rw [List.filter_cons_of_pos (by simpa using hn)] at h ⊢
      obtain ⟨hlen, h⟩ := List.forall_mem_cons.1 h
      rw [pushEntry_eq hn hlen]
      simpa [bind, Except.bind] using ih (⟨n, depth⟩ :: stk) h
    · rw [List.filter_cons_of_neg (by simpa using hn)] at h ⊢
      rw [pushEntry_skipped hn]
      exact ih stk h

/-- What the stream of a directory makes the walk push: its entries. -/
theorem readdir_eq (t : Tree) {d : Entry} (hd : d.NamesEntries) :
    (t.readdir d).filter (fun n => n ≠ dot ∧ n ≠ dotdot) = d.entries.map Entry.name := by
  rw [t.readdir_entries, List.filter_eq_self]
  intro n hn
  obtain ⟨e, he, rfl⟩ := List.mem_map.1 hn
  obtain ⟨h1, h2, -⟩ := hd.2 e he
  simp [h1, h2]

theorem Tree.path_ne (t : Tree) : t.root.name ≠ dotdot := by
  intro h
  have := t.absolute
  rw [show t.path = dotdot from h] at this
  simp [dotdot, slash] at this

theorem resolve_root (t : Tree) (cwd : Cwd) : resolve t cwd t.path = some (t.root, []) := if_pos rfl

/-- A name listed in the working directory stands for the entry that has it. -/
theorem resolve_entry (t : Tree) {d e : Entry} (hd : d.NamesEntries) (he : e ∈ d.entries)
    (up : Cwd) : resolve t (d :: up) e.name = some (e, d :: up) := by
  have hpath : e.name ≠ t.path := by
    intro h
    apply (hd.2 e he).2.2
    rw [h]
    exact List.mem_of_mem_head? t.absolute
  have hfind : d.entries.find? (·.name = e.name) = some e := by
    cases hf : d.entries.find? (·.name = e.name) with
    | none =>
      have := List.find?_eq_none.1 hf e he
      simp at this
    | some b =>
      have hname : b.name = e.name := by simpa using List.find?_some hf
      rw [List.inj_on_of_nodup_map hd.1 (List.mem_of_find?_eq_some hf) he hname]
  simp only [resolve, if_neg hpath, hfind, Option.map_some]

variable {t : Tree} {s s' : State} {e : Entry} {dir : Cwd} {depth : ℤ}

theorem doPath_sentinel (stk : List Node) :
    doPath t stk s sentinel = .ok (stk, { s with cwd := s.cwd.tail }) := by
  simp [doPath, sentinel, chdir, pure, Except.pure]

theorem dotdot_length : dotdot.length < MAX_NAME := by decide

theorem lstat_eq (hr : resolve t s.cwd e.name = some (e, dir)) :
    lstat t s.cwd e.name = e.stat := by
  simp only [lstat, hr, Option.bind_eq_bind, Option.bind_some]

theorem opendir_eq (hr : resolve t s.cwd e.name = some (e, dir)) :
    opendir t s.cwd e.name = if e.canOpen then some (t.readdir e) else none := by
  simp only [opendir, hr, Option.bind_eq_bind, Option.bind_some]

theorem chdir_eq (hr : resolve t s.cwd e.name = some (e, dir)) (hname : e.name ≠ dotdot) :
    chdir t s.cwd e.name = if e.canEnter then some (e :: dir) else none := by
  simp only [chdir, if_neg hname, hr, Option.bind_eq_bind, Option.bind_some]

/-- An entry that is no directory, or on which a call fails, is met and left. -/
theorem doPath_leaf (hr : resolve t s.cwd e.name = some (e, dir)) (hname : e.name ≠ dotdot)
    (hdepth : 0 ≤ depth) (he : e.entered = false) (stk : List Node) :
    doPath t stk s (node depth e) = .ok (stk, s.visit ⟨e, s.cwd, depth⟩) := by
  have hl := lstat_eq hr
  have ho := opendir_eq hr
  have hc := chdir_eq hr hname
  have hneg : ¬ depth < 0 := not_lt.2 hdepth
  unfold doPath node
  simp only [if_neg hneg, hl]
  cases e with
  | file name mode hmode lstat =>
    cases lstat <;> simp [Entry.stat, hmode, State.visit, Visit.call, pure, Except.pure]
  | dir name lstat opendir chdir entries =>
    cases lstat with
    | false => simp [Entry.stat, State.visit, Visit.call, pure, Except.pure]
    | true =>
      cases opendir with
      | false =>
        simp [ho, Entry.stat, Entry.canOpen, State.visit, Visit.call, incStat, pure, Except.pure]
      | true =>
        obtain rfl : chdir = false := by
          simpa [Entry.entered, Entry.stat, Entry.canOpen, Entry.canEnter] using he
        simp [ho, hc, Entry.stat, Entry.canOpen, Entry.canEnter, State.visit, Visit.call, incStat,
          pure, Except.pure]

/-- A directory is met and entered, and its stream is read onto a sentinel. -/
theorem doPath_entered (hr : resolve t s.cwd e.name = some (e, dir)) (hname : e.name ≠ dotdot)
    (hdepth : 0 ≤ depth) (he : e.entered = true) (stk : List Node) :
    doPath t stk s (node depth e) =
      ((t.readdir e).foldlM (pushEntry (depth + 1)) (sentinel :: stk)).map fun stk =>
        (stk, { s.visit ⟨e, s.cwd, depth⟩ with cwd := e :: dir }) := by
  have hl := lstat_eq hr
  have ho := opendir_eq hr
  have hc := chdir_eq hr hname
  have hneg : ¬ depth < 0 := not_lt.2 hdepth
  have hnode : createNode dotdot (-1) = .ok sentinel := if_pos dotdot_length
  have hpush := push_eq sentinel dotdot_length stk
  simp only [Entry.entered, Bool.and_eq_true, Option.isSome_iff_exists] at he
  obtain ⟨⟨⟨mode, hm⟩, hopen⟩, henter⟩ := he
  obtain rfl : mode = .dir := by
    cases e <;> simp_all [Entry.stat, Entry.canOpen]
  unfold doPath node
  simp only [if_neg hneg, hl, hm, ho, hc, hopen, henter, if_true, hnode, hpush, bind,
    Except.bind, pure, Except.pure]
  cases (t.readdir e).foldlM (pushEntry (depth + 1)) (sentinel :: stk) <;>
    simp [State.visit, Visit.call, hm, incStat, Except.map]

/-- What is pushed are the entries, when their names fit. -/
theorem doPath_dir (hr : resolve t s.cwd e.name = some (e, dir)) (hname : e.name ≠ dotdot)
    (hdepth : 0 ≤ depth) (he : e.entered = true) (hd : e.NamesEntries)
    (hfit : ∀ b ∈ e.entries, NameFits b) (stk : List Node) :
    doPath t stk s (node depth e) =
      .ok ((e.entries.map (node (depth + 1))).reverse ++ sentinel :: stk,
        { s.visit ⟨e, s.cwd, depth⟩ with cwd := e :: dir }) := by
  have hpushes := pushEntries_eq (t.readdir e) (depth + 1) (sentinel :: stk) (by
    rw [readdir_eq t hd]
    intro n hn
    obtain ⟨b, hb, rfl⟩ := List.mem_map.1 hn
    exact hfit b hb)
  rw [readdir_eq t hd, List.map_map] at hpushes
  rw [doPath_entered hr hname hdepth he, hpushes]
  rfl

/-! ### The whole stack -/

def Acts (t : Tree) (s : State) (elem : Node) (s' : State) (new : List Node) : Prop :=
  ∀ stk, doPath t stk s elem = .ok (new ++ stk, s')

theorem mem_traverseEntries {es : List Entry} {cwd : Cwd} {v : Visit} :
    v ∈ traverseEntries cwd depth es ↔ ∃ e ∈ es, v ∈ e.traverse cwd depth := by
  induction es with
  | nil => simp [traverseEntries]
  | cons e es ih =>
    rw [traverseEntries, List.mem_append, ih, or_comm]
    simp

/-- An entry met in the traversal of a directory's entries fits, and so do those met
below it. -/
theorem fits_entry {es : List Entry} {cwd : Cwd}
    (h : ∀ v ∈ traverseEntries cwd depth es, NameFits v.entry) {b : Entry} (hb : b ∈ es) :
    NameFits b ∧ ∀ v ∈ (b.traverse cwd depth).tail, NameFits v.entry := by
  refine ⟨?_, ?_⟩
  · refine h ⟨b, cwd, depth⟩ (mem_traverseEntries.2 ⟨b, hb, ?_⟩)
    rw [b.traverse_eq]
    exact List.mem_cons_self
  · intro v hv
    exact h v (mem_traverseEntries.2 ⟨b, hb, List.mem_of_mem_tail hv⟩)

/-- The entries pushed for a directory and the sentinel below them: the entries are
traversed, the last one first, and the walk is back where the directory is listed. -/
theorem worksOff_entries
    (hentry : ∀ b ∈ e.entries, ∀ s : State, s.cwd = e :: dir →
      WorksOff (Acts t) [node (depth + 1) b] s (s.visits (b.traverse (e :: dir) (depth + 1))))
    (hs : s.cwd = e :: dir) :
    WorksOff (Acts t) ((e.entries.map (node (depth + 1))).reverse ++ [sentinel]) s
      { s.visits (traverseEntries (e :: dir) (depth + 1) e.entries) with cwd := dir } := by
  have htraverse : ∀ es : List Entry, s.visits (traverseEntries (e :: dir) (depth + 1) es) =
      es.reverse.foldl (fun s b => s.visits (b.traverse (e :: dir) (depth + 1))) s := by
    intro es
    induction es with
    | nil => simp [traverseEntries, State.visits]
    | cons b es ih =>
      rw [traverseEntries, visits_append, ih, List.reverse_cons, List.foldl_append]
      rfl
  obtain ⟨hworks, hcwd⟩ := WorksOff.fold (node (depth + 1))
    (fun s b => s.visits (b.traverse (e :: dir) (depth + 1)))
    (I := fun s => s.cwd = e :: dir) (l := e.entries.reverse)
    (fun b hb s hs => ⟨hentry b (List.mem_reverse.1 hb) s hs, visits_cwd.trans hs⟩) hs
  rw [← List.map_reverse, htraverse]
  refine hworks.append (WorksOff.single ?_)
  intro stk
  rw [doPath_sentinel, hcwd]
  rfl

/-- Working off an element the working directory resolves. -/
theorem worksOff_node (hr : resolve t s.cwd e.name = some (e, dir)) (hname : e.name ≠ dotdot)
    (hdepth : 0 ≤ depth) (hd : e.NamesEntries)
    (hfit : e.entered = true → ∀ b ∈ e.entries, NameFits b)
    (hentry : e.entered = true → ∀ b ∈ e.entries, ∀ s : State, s.cwd = e :: dir →
      WorksOff (Acts t) [node (depth + 1) b] s (s.visits (b.traverse (e :: dir) (depth + 1)))) :
    WorksOff (Acts t) [node depth e] s
      (if e.entered then
        { s.visits (⟨e, s.cwd, depth⟩ :: traverseEntries (e :: dir) (depth + 1) e.entries) with
          cwd := dir }
      else s.visit ⟨e, s.cwd, depth⟩) := by
  by_cases he : e.entered
  · have hact : Acts t s (node depth e) { s.visit ⟨e, s.cwd, depth⟩ with cwd := e :: dir }
        ((e.entries.map (node (depth + 1))).reverse ++ [sentinel]) := by
      intro stk
      rw [doPath_dir hr hname hdepth he hd (hfit he) stk, List.append_assoc]
      rfl
    refine .cons hact ?_
    have hworks := worksOff_entries (hentry he)
      (s := { s.visit ⟨e, s.cwd, depth⟩ with cwd := e :: dir }) rfl
    rw [visits_setCwd] at hworks
    rw [List.append_nil, if_pos he]
    exact hworks
  · rw [if_neg he]
    exact WorksOff.single (doPath_leaf hr hname hdepth (by simpa using he))

/-- Working off the element of an entry is traversing it. -/
theorem worksOff_entry (t : Tree) (e : Entry) (hall : e.All Entry.NamesEntries) {d : Entry}
    (hd : d.NamesEntries) (he : e ∈ d.entries) (up : Cwd)
    (hfit : ∀ v ∈ (e.traverse (d :: up) depth).tail, NameFits v.entry)
    (hdepth : 0 ≤ depth) (hs : s.cwd = d :: up) :
    WorksOff (Acts t) [node depth e] s (s.visits (e.traverse (d :: up) depth)) := by
  induction e using Entry.induct generalizing d up depth s with
  | h e ih =>
    have hr : resolve t s.cwd e.name = some (e, d :: up) := by
      rw [hs]
      exact resolve_entry t hd he up
    have hbelow : e.entered = true → ∀ v ∈ traverseEntries (e :: d :: up) (depth + 1) e.entries,
        NameFits v.entry := by
      intro hent
      rw [e.traverse_eq, if_pos hent] at hfit
      exact hfit
    have hworks := worksOff_node hr (hd.2 e he).2.1 hdepth hall.self
      (fun hent b hb => (fits_entry (hbelow hent) hb).1) (fun hent b hb s hs =>
        ih b hb (hall.of_mem hb) hall.self hb (d :: up) (fits_entry (hbelow hent) hb).2
          (by omega) hs)
    have hback : ∀ vs, { s.visits vs with cwd := d :: up } = s.visits vs := by
      intro vs
      rw [← visits_setCwd, ← hs]
    rw [hback, hs] at hworks
    rw [e.traverse_eq]
    by_cases hent : e.entered
    · rw [if_pos hent] at hworks ⊢
      exact hworks
    · rw [if_neg hent] at hworks ⊢
      exact hworks

/-- One turn of the loop, above the copy of the root at the bottom of the stack. -/
theorem loop_turn {a : Node} {as new : List Node} (hact : Acts t s a s' new) (spare : Node)
    (m : ℕ) : loop t (m + 1) (pop (a :: as ++ [spare])).1 (pop (a :: as ++ [spare])).2 s =
      loop t m (pop (new ++ as ++ [spare])).1 (pop (new ++ as ++ [spare])).2 s' := by
  have hdo := hact (as ++ [spare])
  rw [List.append_assoc]
  cases as <;>
    simp only [List.nil_append, List.cons_append] at hdo ⊢ <;>
    simp only [loop, pop, hdo, bind, Except.bind]

/-- The loop works the stack off down to the copy of the root at its bottom. -/
theorem loop_worksOff {elems : List Node} (h : WorksOff (Acts t) elems s s') (spare : Node) :
    ∃ n, ∀ m, n ≤ m → loop t m (pop (elems ++ [spare])).1 (pop (elems ++ [spare])).2 s = .ok s' := by
  induction h with
  | nil =>
    refine ⟨1, ?_⟩
    intro m hm
    obtain ⟨m, rfl⟩ : ∃ k, m = k + 1 := ⟨m - 1, by omega⟩
    rfl
  | @cons a as new s s₁ s₂ hact _ ih =>
    obtain ⟨n, ih⟩ := ih
    refine ⟨n + 1, ?_⟩
    intro m hm
    obtain ⟨m, rfl⟩ : ∃ k, m = k + 1 := ⟨m - 1, by omega⟩
    exact (loop_turn hact spare m).trans (ih m (by omega))

/-- What holds of an entry and of all below it holds of those met. -/
theorem Entry.All.traverse {p : Entry → Prop} {e : Entry} (h : e.All p) (cwd : Cwd) {v : Visit}
    (hv : v ∈ e.traverse cwd depth) : p v.entry := by
  induction e using Entry.induct generalizing cwd depth with
  | h e ih =>
    rw [e.traverse_eq] at hv
    rcases List.mem_cons.1 hv with rfl | hv
    · exact h.self
    · split_ifs at hv with hent
      · obtain ⟨b, hb, hv⟩ := mem_traverseEntries.1 hv
        exact ih b hb (h.of_mem hb) (e :: cwd) hv
      · simp at hv

theorem Tree.traverse_all {p : Entry → Prop} (t : Tree) (h : t.root.All p) :
    ∀ v ∈ t.traverse, p v.entry := by
  intro v hv
  rw [t.traverse_eq] at hv
  rcases List.mem_cons.1 hv with rfl | hv
  · exact h.self
  · split_ifs at hv with hent
    · obtain ⟨b, hb, hv⟩ := mem_traverseEntries.1 hv
      exact (h.of_mem hb).traverse [t.root] hv
    · simp at hv

/-- The entry met is one that the working directory lists. -/
def Visit.Listed (v : Visit) : Prop := ∃ d up, v.cwd = d :: up ∧ v.entry ∈ d.entries

theorem traverse_listed (e : Entry) {d : Entry} {up : Cwd} (he : e ∈ d.entries) {v : Visit}
    (hv : v ∈ e.traverse (d :: up) depth) : v.Listed := by
  induction e using Entry.induct generalizing d up depth with
  | h e ih =>
    rw [e.traverse_eq] at hv
    rcases List.mem_cons.1 hv with rfl | hv
    · exact ⟨d, up, rfl, he⟩
    · split_ifs at hv with hent
      · obtain ⟨b, hb, hv⟩ := mem_traverseEntries.1 hv
        exact ih b hb hb hv
      · simp at hv

theorem Tree.traverse_listed (t : Tree) : ∀ v ∈ t.traverse.tail, v.Listed := by
  intro v hv
  rw [t.traverse_eq, List.tail_cons] at hv
  split_ifs at hv with hent
  · obtain ⟨b, hb, hv⟩ := mem_traverseEntries.1 hv
    exact OsLabs.Ftw.traverse_listed b hb hv
  · simp at hv

def walked (t : Tree) : State := (init t).visits t.traverse

/-- The loop ends in the state the traversal leads to, whatever directory it is in. -/
theorem loop_eq_traverse (t : Tree) (hfit : ∀ v ∈ t.traverse.tail, NameFits v.entry) :
    ∃ n cwd, ∀ m, n ≤ m →
      loop t m (some ⟨t.path, 0⟩) [⟨t.path, 0⟩] (init t) = .ok { walked t with cwd } := by
  have hall : t.root.All Entry.NamesEntries := t.named
  have hbelow : t.root.entered = true → ∀ v ∈ traverseEntries [t.root] (0 + 1) t.root.entries,
      NameFits v.entry := by
    intro hent
    rw [t.traverse_eq, if_pos hent] at hfit
    exact hfit
  have hworks := worksOff_node (t := t) (e := t.root) (s := init t) (resolve_root t _) t.path_ne
    (le_refl (0 : ℤ)) hall.self
    (fun hent b hb => (fits_entry (hbelow hent) hb).1) (fun hent b hb s hs =>
      worksOff_entry t b (hall.of_mem hb) hall.self hb [] (fits_entry (hbelow hent) hb).2
        (by omega) hs)
  obtain ⟨n, hn⟩ := loop_worksOff hworks ⟨t.path, 0⟩
  by_cases hent : t.root.entered
  · refine ⟨n, [], ?_⟩
    rw [if_pos hent, Int.zero_add] at hn
    rw [walked, t.traverse_eq, if_pos hent]
    exact hn
  · refine ⟨n, [t.root], ?_⟩
    rw [if_neg hent] at hn
    rw [walked, t.traverse_eq, if_neg hent]
    exact hn

theorem ftw_eq_loop (hfit : NameFits t.root) (fuel : ℕ) : ftw t true fuel =
    (loop t fuel (some ⟨t.path, 0⟩) [⟨t.path, 0⟩] (init t)).map fun s =>
      { s with stats := printStat s.stats } := by
  have hcreate : createNode t.path 0 = .ok ⟨t.path, 0⟩ := if_pos hfit
  have hpush : push [] ⟨t.path, 0⟩ = .ok [⟨t.path, 0⟩] := push_eq (node 0 t.root) hfit []
  simp only [ftw, hcreate, hpush, bind, Except.bind, pure, Except.pure, Bool.not_true,
    Bool.false_eq_true, if_false]
  cases loop t fuel (some ⟨t.path, 0⟩) [⟨t.path, 0⟩] (init t) <;> rfl

/-- The walk ends, its calls of `func` are those of the recursive traversal, every
entry is processed in the directory that lists it, and the counters count the
entries met by their modes. -/
theorem ftw_eq_traverse (t : Tree) (hfit : t.root.All NameFits) :
    ∃ n s, (∀ m, n ≤ m → ftw t true m = .ok s) ∧
      s.calls = t.traverse.filterMap Visit.call ∧
      s.processed = t.traverse.map (fun v => (v.entry.name, v.cwd)) ∧
      (∀ v ∈ t.traverse.tail, v.Listed) ∧
      (∀ mode, s.stats.count mode = t.traverse.countP fun v => v.entry.stat = some mode) ∧
      s.stats.ntotal = s.calls.length := by
  obtain ⟨n, cwd, hloop⟩ := loop_eq_traverse t fun v hv =>
    t.traverse_all hfit v (List.mem_of_mem_tail hv)
  refine ⟨n, { walked t with cwd, stats := printStat (walked t).stats }, ?_, ?_, ?_,
    t.traverse_listed, ?_, ?_⟩
  · intro m hm
    rw [ftw_eq_loop hfit.self, hloop m hm]
    rfl
  · exact visits_calls.trans (List.nil_append _)
  · exact visits_processed.trans (List.nil_append _)
  · intro mode
    have hcount := visits_count (init t) t.traverse mode
    have hprint : ∀ stats, (printStat stats).count mode = stats.count mode := by
      intro stats
      cases mode <;> rfl
    rw [hprint, walked, hcount]
    cases mode <;> exact Nat.zero_add _
  · have htotal := visits_total (init t) t.traverse
    have hcalls : (walked t).calls = t.traverse.filterMap Visit.call :=
      visits_calls.trans (List.nil_append _)
    rw [hcalls]
    exact htotal.trans (Nat.zero_add _)

/-- `/t` with a file `a`, a directory `d` holding a pipe `f`, and a directory `x`
that cannot be opened. -/
def sampleEntries : List Entry :=
  [.file [97] .reg (by decide) true,
    .dir [100] true true true [.file [102] .fifo (by decide) true],
    .dir [120] true false true []]

def sample : Tree where
  path := [47, 116]
  lstat := true
  opendir := true
  chdir := true
  entries := sampleEntries
  absolute := rfl
  named := by
    refine .dir ⟨by decide, by decide⟩ ?_
    simp only [sampleEntries, List.forall_mem_cons]
    refine ⟨.file ⟨by decide, by decide⟩, .dir ⟨by decide, by decide⟩ ?_,
      .dir ⟨by decide, by decide⟩ (by simp), by simp⟩
    simp only [List.forall_mem_cons]
    exact ⟨.file ⟨by decide, by decide⟩, by simp⟩
  readdir := fun d => dot :: dotdot :: d.entries.map Entry.name
  readdir_entries := fun _ => rfl

theorem ftw_eq_traverse_sample : ∃ n s, (∀ m, n ≤ m → ftw sample true m = .ok s) ∧
    s.calls = [⟨[47, 116], FTW_DIR, 0⟩, ⟨[120], FTW_DIR, 1⟩, ⟨[100], FTW_DIR, 1⟩,
      ⟨[102], FTW_FILE, 2⟩, ⟨[97], FTW_FILE, 1⟩] ∧
    s.stats.ntotal = 5 := by
  have hfit : sample.root.All NameFits := by
    refine .dir (by decide) ?_
    simp only [sample, sampleEntries, List.forall_mem_cons]
    refine ⟨.file (by decide), .dir (by decide) ?_, .dir (by decide) (by simp), by simp⟩
    simp only [List.forall_mem_cons]
    exact ⟨.file (by decide), by simp⟩
  obtain ⟨n, s, hwalk, hcalls, -, -, -, htotal⟩ := ftw_eq_traverse sample hfit
  have hlist : sample.traverse.filterMap Visit.call = [⟨[47, 116], FTW_DIR, 0⟩,
    ⟨[120], FTW_DIR, 1⟩, ⟨[100], FTW_DIR, 1⟩, ⟨[102], FTW_FILE, 2⟩, ⟨[97], FTW_FILE, 1⟩] := by
    decide
  rw [hlist] at hcalls
  exact ⟨n, s, hwalk, hcalls, by rw [htotal, hcalls]; rfl⟩

end OsLabs.Ftw
