import OsLabs.Proofs.Ftw

/-! Which names fit into a node of the stack. The walk pushes the entries of a directory
when it enters it, so that the first name that is too long ends it there. -/

namespace OsLabs.Ftw

variable {t : Tree} {s s' : State} {e : Entry} {dir : Cwd} {depth : ℤ}

/-- The call of `doPath` copies a name past the end of its array. -/
def Overflows (t : Tree) (s : State) (elem : Node) : Prop :=
  ∃ name, ∀ stk, doPath t stk s elem = .error (.nameTooLong name)

theorem pushEntries_error (names : List Name) (depth : ℤ)
    (h : ¬ ∀ n ∈ names.filter (fun n => n ≠ dot ∧ n ≠ dotdot), n.length < MAX_NAME) :
    ∃ name, ∀ stk, names.foldlM (pushEntry depth) stk = .error (.nameTooLong name) := by
  induction names with
  | nil => exact absurd nofun h
  | cons n names ih =>
    by_cases hn : n ≠ dot ∧ n ≠ dotdot
    · rw [List.filter_cons_of_pos (by simpa using hn), List.forall_mem_cons] at h
      by_cases hlen : n.length < MAX_NAME
      · obtain ⟨name, hname⟩ := ih fun hall => h ⟨hlen, hall⟩
        refine ⟨name, fun stk => ?_⟩
        rw [List.foldlM_cons, pushEntry_eq hn hlen]
        exact hname _
      · refine ⟨n, fun stk => ?_⟩
        have hstep : pushEntry depth stk n = .error (.nameTooLong n) := by
          unfold pushEntry
          rw [if_pos hn]
          simp only [createNode, if_neg hlen, bind, Except.bind]
        rw [List.foldlM_cons, hstep]
        rfl
    · rw [List.filter_cons_of_neg (by simpa using hn)] at h
      obtain ⟨name, hname⟩ := ih h
      refine ⟨name, fun stk => ?_⟩
      rw [List.foldlM_cons, pushEntry_skipped hn]
      exact hname stk

theorem doPath_overflows (hr : resolve t s.cwd e.name = some (e, dir)) (hname : e.name ≠ dotdot)
    (hdepth : 0 ≤ depth) (he : e.entered = true) (hd : e.NamesEntries)
    (hlong : ¬ ∀ b ∈ e.entries, NameFits b) : Overflows t s (node depth e) := by
  obtain ⟨name, herror⟩ := pushEntries_error (t.readdir e) (depth + 1) (by
    rw [readdir_eq t hd, List.forall_mem_map]
    exact hlong)
  refine ⟨name, fun stk => ?_⟩
  rw [doPath_entered hr hname hdepth he, herror]
  rfl

/-! ### The whole stack -/

/-- No name below the entry that the walk comes to is too long. -/
def FitsBelow (cwd : Cwd) (depth : ℤ) (b : Entry) : Prop :=
  ∀ v ∈ (b.traverse cwd depth).tail, NameFits v.entry

/-- The entries of a directory that is entered: a name among them is too long, or below
one of them. -/
theorem not_fits_entries {es : List Entry} {cwd : Cwd} (hfit : ∀ b ∈ es, NameFits b)
    (h : ¬ ∀ v ∈ traverseEntries cwd depth es, NameFits v.entry) :
    ¬ ∀ b ∈ es, FitsBelow cwd depth b := by
  intro hbelow
  apply h
  intro v hv
  obtain ⟨b, hb, hv⟩ := mem_traverseEntries.1 hv
  have htail := hbelow b hb
  unfold FitsBelow at htail
  rw [b.traverse_eq] at hv htail
  rcases List.mem_cons.1 hv with rfl | hv
  · exact hfit b hb
  · exact htail v hv

/-- The walk stops at a directory's entries or below one of them. -/
theorem stops_node (hr : resolve t s.cwd e.name = some (e, dir)) (hname : e.name ≠ dotdot)
    (hdepth : 0 ≤ depth) (hd : e.NamesEntries) (he : e.entered = true)
    (hworks : ∀ b ∈ e.entries, FitsBelow (e :: dir) (depth + 1) b → ∀ s : State,
      s.cwd = e :: dir →
      WorksOff (Acts t) [node (depth + 1) b] s (s.visits (b.traverse (e :: dir) (depth + 1))))
    (hstops : ∀ b ∈ e.entries, ¬ FitsBelow (e :: dir) (depth + 1) b → ∀ s : State,
      s.cwd = e :: dir → Stops (Acts t) (Overflows t) [node (depth + 1) b] s)
    (h : ¬ ∀ v ∈ traverseEntries (e :: dir) (depth + 1) e.entries, NameFits v.entry) :
    Stops (Acts t) (Overflows t) [node depth e] s := by
  by_cases hfit : ∀ b ∈ e.entries, NameFits b
  · have hact : Acts t s (node depth e) { s.visit ⟨e, s.cwd, depth⟩ with cwd := e :: dir }
        ((e.entries.map (node (depth + 1))).reverse ++ [sentinel]) := by
      intro stk
      rw [doPath_dir hr hname hdepth he hd hfit stk, List.append_assoc]
      rfl
    have hfold := Stops.fold (node (depth + 1))
      (fun s b => s.visits (b.traverse (e :: dir) (depth + 1)))
      (I := fun s => s.cwd = e :: dir) (l := e.entries.reverse)
      (fun b hb hgood s hs => ⟨hworks b (List.mem_reverse.1 hb) hgood s hs, visits_cwd.trans hs⟩)
      (fun b hb hbad s hs => hstops b (List.mem_reverse.1 hb) hbad s hs)
      (s := { s.visit ⟨e, s.cwd, depth⟩ with cwd := e :: dir }) rfl
      (by simpa using not_fits_entries hfit h)
    rw [List.map_reverse] at hfold
    refine .later hact ?_
    rw [List.append_nil]
    exact hfold.append
  · exact .here (doPath_overflows hr hname hdepth he hd hfit)

/-- Where a name below an entry is too long the walk stops while it works off the
element of the entry. -/
theorem stops_entry (t : Tree) (e : Entry) (hall : e.All Entry.NamesEntries) {d : Entry}
    (hd : d.NamesEntries) (he : e ∈ d.entries) (up : Cwd) (hdepth : 0 ≤ depth)
    (hs : s.cwd = d :: up) (h : ¬ FitsBelow (d :: up) depth e) :
    Stops (Acts t) (Overflows t) [node depth e] s := by
  induction e using Entry.induct generalizing d up depth s with
  | h e ih =>
    have hr : resolve t s.cwd e.name = some (e, d :: up) := by
      rw [hs]
      exact resolve_entry t hd he up
    unfold FitsBelow at h
    rw [e.traverse_eq, List.tail_cons] at h
    cases hent : e.entered with
    | false => simp [hent] at h
    | true =>
      rw [if_pos hent] at h
      exact stops_node hr (hd.2 e he).2.1 hdepth hall.self hent
        (fun b hb hgood s hs =>
          worksOff_entry t b (hall.of_mem hb) hall.self hb (d :: up) hgood (by omega) hs)
        (fun b hb hbad s hs =>
          ih b hb (hall.of_mem hb) hall.self hb (d :: up) (by omega) hs hbad) h

/-! ### The loop -/

/-- More turns make no difference to a loop that has come to its end. -/
theorem loop_succ {m : ℕ} {elem : Option Node} {stk : List Node} {r : Except Fault State}
    (h : loop t m elem stk s = r) (hr : r ≠ .error .running) : loop t (m + 1) elem stk s = r := by
  induction m generalizing elem stk s with
  | zero => exact absurd h.symm hr
  | succ m ih =>
    cases stk with
    | nil => cases elem <;> exact h
    | cons a stk =>
      cases elem with
      | none => exact h
      | some elem =>
        simp only [loop] at h ⊢
        cases hdo : doPath t (a :: stk) s elem with
        | error f =>
          rw [hdo] at h
          exact h
        | ok p =>
          rw [hdo] at h
          exact ih h

theorem loop_mono {m n : ℕ} (hmn : m ≤ n) {elem : Option Node} {stk : List Node}
    {r : Except Fault State} (h : loop t m elem stk s = r) (hr : r ≠ .error .running) :
    loop t n elem stk s = r := by
  induction hmn with
  | refl => exact h
  | step _ ih => exact loop_succ ih hr

/-- The loop comes to the name that is too long. -/
theorem loop_stops {elems : List Node} (h : Stops (Acts t) (Overflows t) elems s) (spare : Node) :
    ∃ n name, loop t n (pop (elems ++ [spare])).1 (pop (elems ++ [spare])).2 s =
      .error (.nameTooLong name) := by
  induction h with
  | @here a as s hbad =>
    obtain ⟨name, hname⟩ := hbad
    refine ⟨1, name, ?_⟩
    have hdo := hname (as ++ [spare])
    cases as <;>
      simp only [List.nil_append, List.cons_append, pop] at hdo ⊢ <;>
      simp only [loop, hdo, bind, Except.bind]
  | @later a as new s s₁ hact _ ih =>
    obtain ⟨n, name, ih⟩ := ih
    exact ⟨n + 1, name, (loop_turn hact spare n).trans ih⟩

theorem ftw_not_started (t : Tree) (fuel : ℕ) : ftw t false fuel = .error .exitFailure := rfl

/-- A root's path that is too long overflows before the loop. -/
theorem ftw_root_too_long (hlong : ¬ NameFits t.root) (fuel : ℕ) :
    ftw t true fuel = .error (.nameTooLong t.path) := by
  have hcreate : createNode t.path 0 = .error (.nameTooLong t.path) := if_neg hlong
  simp only [ftw, hcreate, bind, Except.bind, Bool.not_true, Bool.false_eq_true, if_false]

/-- A name below the root that is too long overflows in the loop. -/
theorem loop_overflows (t : Tree) (h : ¬ ∀ v ∈ t.traverse.tail, NameFits v.entry) :
    ∃ n name, loop t n (some ⟨t.path, 0⟩) [⟨t.path, 0⟩] (init t) =
      .error (.nameTooLong name) := by
  have hall : t.root.All Entry.NamesEntries := t.named
  rw [t.traverse_eq, List.tail_cons] at h
  cases hent : t.root.entered with
  | false => simp [hent] at h
  | true =>
    rw [if_pos hent] at h
    have hstops := stops_node (t := t) (e := t.root) (s := init t) (resolve_root t _) t.path_ne
      (le_refl (0 : ℤ)) hall.self hent
      (fun b hb hgood s hs =>
        worksOff_entry t b (hall.of_mem hb) hall.self hb [] hgood (by omega) hs)
      (fun b hb hbad s hs =>
        stops_entry t b (hall.of_mem hb) hall.self hb [] (by omega) hs hbad) h
    exact loop_stops hstops ⟨t.path, 0⟩

/-- No name is copied past the end of its array exactly when those of the root and of
all entries the recursive traversal meets are shorter than the array. -/
theorem names_fit_iff (t : Tree) (start : Bool) :
    (∀ fuel name, ftw t start fuel ≠ .error (.nameTooLong name)) ↔
      (start = true → ∀ v ∈ t.traverse, v.entry.name.length < MAX_NAME) := by
  cases start with
  | false => simp [ftw_not_started]
  | true =>
    have htraverse : (∀ v ∈ t.traverse, NameFits v.entry) ↔
        NameFits t.root ∧ ∀ v ∈ t.traverse.tail, NameFits v.entry := by
      rw [t.traverse_eq, List.forall_mem_cons, List.tail_cons]
    refine Iff.trans ?_ (htraverse.symm.trans (by simp [NameFits]))
    refine ⟨?_, ?_⟩
    · intro h
      by_contra hbad
      by_cases hroot : NameFits t.root
      · obtain ⟨n, name, hloop⟩ := loop_overflows t fun hall => hbad ⟨hroot, hall⟩
        apply h n name
        rw [ftw_eq_loop hroot, hloop]
        rfl
      · exact h 0 t.path (ftw_root_too_long hroot 0)
    · rintro ⟨hroot, hbelow⟩ fuel name hftw
      obtain ⟨n, cwd, hend⟩ := loop_eq_traverse t hbelow
      rw [ftw_eq_loop hroot] at hftw
      cases hloop : loop t fuel (some ⟨t.path, 0⟩) [⟨t.path, 0⟩] (init t) with
      | ok s => simp [hloop, Except.map] at hftw
      | error f =>
        obtain rfl : f = .nameTooLong name := by simpa [hloop, Except.map] using hftw
        -- the loop would still end so after the turns in which it comes to its end
        have hlater := loop_mono (Nat.le_max_left fuel n) hloop nofun
        rw [hend _ (Nat.le_max_right fuel n)] at hlater
        simp at hlater

def longName : Name := List.replicate 200 97

theorem longName_length : longName.length = 200 := List.length_replicate

theorem reg_ne_dir : Mode.reg ≠ .dir := by decide

def longNamed : Tree :=
  { sample with
    entries := [.file longName .reg reg_ne_dir true]
    named := by
      refine .dir ⟨by decide, by decide⟩ ?_
      simp only [List.forall_mem_cons]
      exact ⟨.file ⟨by decide, by decide⟩, by simp⟩ }

theorem names_fit_fails : ¬ ∀ (t : Tree) (start : Bool), t.path.length < PATH_MAX →
    (∀ e ∈ t.entries, e.All fun e => e.name.length ≤ NAME_MAX) →
    ∀ fuel name, ftw t start fuel ≠ .error (.nameTooLong name) := by
  intro h
  have hnames : ∀ e ∈ longNamed.entries, e.All fun e => e.name.length ≤ NAME_MAX := by
    simp only [longNamed, List.forall_mem_cons]
    exact ⟨.file (by simp [Entry.name, longName_length, NAME_MAX]), by simp⟩
  have hlong : ¬ ∀ v ∈ longNamed.traverse.tail, NameFits v.entry := by
    intro hfit
    have := hfit ⟨_, _, _⟩ List.mem_cons_self
    simp [NameFits, Entry.name, longName_length, MAX_NAME] at this
  obtain ⟨n, name, hloop⟩ := loop_overflows longNamed hlong
  apply h longNamed true (by decide) hnames n name
  rw [ftw_eq_loop (by decide), hloop]
  rfl

end OsLabs.Ftw
