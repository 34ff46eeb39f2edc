import OsLabs.Spec.ProcEntries
import OsLabs.Lib.Run

/-! A module that fails to load has removed what it had created, in an order in which that can
be removed, and nothing else; unloading it undoes its loading. -/

namespace OsLabs.ProcEntries

open Entries

variable {t : Tree} {m : Module} {ok : Entry → Bool}

def withNames (m : Module) (t : Tree) : Tree := fun e => t e || decide (e.module = m)

/-- Loading leaves the tree as it was, or the module has its names, which were free. -/
def Loads (m : Module) (t : Tree) (r : Option (Tree × Option Statics)) : Prop :=
  r = some (t, none) ∨
    (∀ e : Entry, e.module = m → t e = false) ∧
      r = some (withNames m t, some ⟨true, true, true⟩)

def Plain (e : Entry) : Prop := ∀ c : Entry, c.parent ≠ some e

instance (e : Entry) : Decidable (Plain e) := inferInstanceAs (Decidable (∀ _, _))

theorem Plain.vacant {e : Entry} (h : Plain e) (t : Tree) : Vacant Entry.parent e t :=
  fun c hc => absurd hc (h c)

theorem parent_ne_self (e : Entry) : e.parent ≠ some e := by
  cases e <;> decide

/-- What was created last comes off again. -/
theorem remove_created {e : Entry} (he : t e = false) (hv : Vacant Entry.parent e t) :
    remove e (Function.update t e true) = some t := remove_update (parent_ne_self e) he hv

theorem fortune_loads (ok : Entry → Bool) (t : Tree) : Loads .fortune t (Fortune.mdInit ok t) := by
  have hpot : Plain .cookiePot := by decide
  have hfile : Plain .fortuneFile := by decide
  have hdir : Plain .fortuneDir := by decide
  unfold Fortune.mdInit
  rcases create_cases .cookiePot (ok .cookiePot) t with h1 | ⟨free1, h1⟩
  · rw [create, h1]
    exact .inl rfl
  have hpot' := remove_created free1 (hpot.vacant _)
  rcases create_cases .fortuneFile (ok .fortuneFile) (Function.update t .cookiePot true) with
    h2 | ⟨free2, h2⟩
  · simp only [create, h1, h2]
    left
    simp [Fortune.freeMemory, hpot']
  have hfile' := remove_created free2 (hfile.vacant _)
  generalize ht1 : Function.update t .cookiePot true = t1 at *
  rcases create_cases .fortuneDir (ok .fortuneDir) (Function.update t1 .fortuneFile true) with
    h3 | ⟨free3, h3⟩
  · simp only [create, h1, h2, h3]
    left
    simp [Fortune.freeMemory, hfile', hpot']
  have free3' : t1 .fortuneDir = false := by simpa using free3
  rcases create_cases .fortuneLink (ok .fortuneLink)
    (Function.update (Function.update t1 .fortuneFile true) .fortuneDir true) with h4 | ⟨free4, h4⟩
  · simp only [create, h1, h2, h3, h4]
    left
    -- the file goes first, though the directory came last
    have hcomm : Function.update (Function.update t1 .fortuneFile true) .fortuneDir true =
        Function.update (Function.update t1 .fortuneDir true) .fortuneFile true :=
      Function.update_comm (by decide) _ _ _
    have hfile'' := remove_created (t := Function.update t1 .fortuneDir true) (e := .fortuneFile)
      (by simpa using free2) (hfile.vacant _)
    have hdir' := remove_created free3' (hdir.vacant _)
    simp [Fortune.freeMemory, hcomm, hfile'', hdir', hpot']
  · simp only [create, h1, h2, h3, h4]
    subst ht1
    refine .inr ⟨?_, ?_⟩
    · intro e he
      cases e <;> simp_all [Entry.module]
    · congr 2
      funext e
      cases e <;> simp [withNames, Entry.module]

/-- Only its own file is put into the directory of a module. -/
theorem seqDir_vacant (h : t .seqFile = false) : Vacant Entry.parent .seqDir t := by
  intro c hc
  cases c <;> simp_all [Entry.parent]

theorem myDir_vacant (h : t .myFile = false) : Vacant Entry.parent .myDir t := by
  intro c hc
  cases c <;> simp_all [Entry.parent]

theorem seqIter_loads (ok : Entry → Bool) (hwf : WellFormed Entry.parent t) :
    Loads .seqIter t (SeqIter.mdInit ok t) := by
  have hfile : Plain .seqFile := by decide
  unfold SeqIter.mdInit
  rcases create_cases .seqDir (ok .seqDir) t with h1 | ⟨free1, h1⟩
  · rw [create, h1]
    exact .inl rfl
  have hdir' := remove_created free1 (hwf.vacant free1)
  generalize ht1 : Function.update t .seqDir true = t1 at *
  rcases create_cases .seqFile (ok .seqFile) t1 with h2 | ⟨free2, h2⟩
  · simp only [create, h1, h2]
    left
    simp [SeqIter.freeResources, hdir']
  have hfile' := remove_created free2 (hfile.vacant _)
  rcases create_cases .seqLink (ok .seqLink) (Function.update t1 .seqFile true) with
    h3 | ⟨free3, h3⟩
  · simp only [create, h1, h2, h3]
    left
    simp [SeqIter.freeResources, hfile', hdir']
  · simp only [create, h1, h2, h3]
    subst ht1
    refine .inr ⟨?_, ?_⟩
    · intro e he
      cases e <;> simp_all [Entry.module]
    · congr 2
      funext e
      cases e <;> simp [withNames, Entry.module]

theorem seqSingle_loads (ok : Entry → Bool) (hwf : WellFormed Entry.parent t) :
    Loads .seqSingle t (SeqSingle.mdInit ok t) := by
  have hfile : Plain .myFile := by decide
  unfold SeqSingle.mdInit
  rcases create_cases .myDir (ok .myDir) t with h1 | ⟨free1, h1⟩
  · rw [create, h1]
    exact .inl rfl
  have hdir' := remove_created free1 (hwf.vacant free1)
  generalize ht1 : Function.update t .myDir true = t1 at *
  rcases create_cases .myFile (ok .myFile) t1 with h2 | ⟨free2, h2⟩
  · simp only [create, h1, h2, hdir']
    exact .inl rfl
  have hfile' := remove_created free2 (hfile.vacant _)
  rcases create_cases .mySymlink (ok .mySymlink) (Function.update t1 .myFile true) with
    h3 | ⟨free3, h3⟩
  · simp only [create, h1, h2, h3, hfile', Option.bind_some, hdir']
    exact .inl rfl
  · simp only [create, h1, h2, h3]
    subst ht1
    refine .inr ⟨?_, ?_⟩
    · intro e he
      cases e <;> simp_all [Entry.module]
    · congr 2
      funext e
      cases e <;> simp [withNames, Entry.module]

theorem mdInit_loads (m : Module) (ok : Entry → Bool) (hwf : WellFormed Entry.parent t) :
    Loads m t (mdInit m ok t) := by
  cases m with
  | fortune => exact fortune_loads ok t
  | seqIter => exact seqIter_loads ok hwf
  | seqSingle => exact seqSingle_loads ok hwf

theorem remove_there {e : Entry} (he : t e = true) (hv : Vacant Entry.parent e t) :
    remove e t = some (Function.update t e false) := remove_eq he hv

theorem mdExit_eq (m : Module) (ht : ∀ e : Entry, e.module = m → t e = true) :
    mdExit m ⟨true, true, true⟩ t = some fun e => t e && !decide (e.module = m) := by
  cases m with
  | fortune =>
    have hfile := remove_there (ht .fortuneFile rfl) (Plain.vacant (by decide) t)
    have hdir := remove_there (e := .fortuneDir) (t := Function.update t .fortuneFile false)
      (by simpa using ht .fortuneDir rfl) (Plain.vacant (by decide) _)
    have hlink := remove_there (e := .fortuneLink)
      (t := Function.update (Function.update t .fortuneFile false) .fortuneDir false)
      (by simpa using ht .fortuneLink rfl) (Plain.vacant (by decide) _)
    have hpot := remove_there (e := .cookiePot)
      (t := Function.update (Function.update (Function.update t .fortuneFile false) .fortuneDir
        false) .fortuneLink false)
      (by simpa using ht .cookiePot rfl) (Plain.vacant (by decide) _)
    simp only [mdExit, Fortune.mdExit, Fortune.freeMemory, if_true, hfile, hdir, hlink, hpot,
      Option.bind_eq_bind, Option.bind_some]
    congr 1
    funext e
    cases e <;> simp [Entry.module]
  | seqIter =>
    have hlink := remove_there (ht .seqLink rfl) (Plain.vacant (by decide) t)
    have hfile := remove_there (e := .seqFile) (t := Function.update t .seqLink false)
      (by simpa using ht .seqFile rfl) (Plain.vacant (by decide) _)
    have hdir := remove_there (e := .seqDir)
      (t := Function.update (Function.update t .seqLink false) .seqFile false)
      (by simpa using ht .seqDir rfl) (seqDir_vacant (by simp))
    simp only [mdExit, SeqIter.mdExit, SeqIter.freeResources, if_true, hlink, hfile, hdir,
      Option.bind_eq_bind, Option.bind_some]
    congr 1
    funext e
    cases e <;> simp [Entry.module]
  | seqSingle =>
    have hlink := remove_there (ht .mySymlink rfl) (Plain.vacant (by decide) t)
    have hfile := remove_there (e := .myFile) (t := Function.update t .mySymlink false)
      (by simpa using ht .myFile rfl) (Plain.vacant (by decide) _)
    have hdir := remove_there (e := .myDir)
      (t := Function.update (Function.update t .mySymlink false) .myFile false)
      (by simpa using ht .myDir rfl) (myDir_vacant (by simp))
    simp only [mdExit, SeqSingle.mdExit, if_true, hlink, hfile, hdir, Option.bind_eq_bind,
      Option.bind_some]
    congr 1
    funext e
    cases e <;> simp [Entry.module]

/-! ### Runs -/

variable {s s' : State} {e : Event} {foreign : Tree}

/-- The names others have taken and those of the modules that are loaded. -/
def names (foreign : Tree) (loaded : Module → Option Statics) : Tree :=
  fun e => foreign e || (loaded e.module).isSome

/-- The invariant. What a loaded module has is its own. -/
structure Inv (foreign : Tree) (tree : Option Tree) (loaded : Module → Option Statics) :
    Prop where
  tree : tree = some (names foreign loaded)
  statics : ∀ m st, loaded m = some st → st = ⟨true, true, true⟩
  own : ∀ e : Entry, (loaded e.module).isSome = true → foreign e = false

theorem inv_init (foreign : Tree) : Inv foreign (init foreign).tree (init foreign).loaded := by
  have hnames : foreign = names foreign fun _ => none := by
    funext e
    simp [names]
  exact ⟨congrArg some hnames, nofun, nofun⟩

/-- An entry inside of another belongs to the same module. -/
theorem parent_module {c p : Entry} (h : c.parent = some p) : c.module = p.module := by
  cases c <;> simp_all [Entry.parent] <;> subst h <;> rfl

theorem names_wellFormed (hwf : WellFormed Entry.parent foreign)
    (loaded : Module → Option Statics) : WellFormed Entry.parent (names foreign loaded) := by
  intro c p hp hc
  rw [names, Bool.or_eq_true] at hc ⊢
  rcases hc with hc | hc
  · exact .inl (hwf c p hp hc)
  · rw [parent_module hp] at hc
    exact .inr hc

variable {tree : Option Tree} {loaded : Module → Option Statics}

theorem Inv.load (hi : Inv foreign tree loaded)
    (hfree : ∀ e : Entry, e.module = m → names foreign loaded e = false) :
    Inv foreign (some (withNames m (names foreign loaded)))
      (Function.update loaded m (some ⟨true, true, true⟩)) := by
  refine ⟨?_, ?_, ?_⟩
  · congr 1
    funext e
    by_cases he : e.module = m
    · simp [withNames, names, he]
    · simp [withNames, names, he]
  · intro m' st hst
    by_cases hm : m' = m
    · subst hm
      simpa using hst.symm
    · rw [Function.update_of_ne hm] at hst
      exact hi.statics m' st hst
  · intro e he
    by_cases hem : e.module = m
    · have hnone := hfree e hem
      rw [names, Bool.or_eq_false_iff] at hnone
      exact hnone.1
    · rw [Function.update_of_ne hem] at he
      exact hi.own e he

theorem Inv.unload (hi : Inv foreign tree loaded) (hm : (loaded m).isSome = true) :
    Inv foreign (some fun e => names foreign loaded e && !decide (e.module = m))
      (Function.update loaded m none) := by
  refine ⟨?_, ?_, ?_⟩
  · congr 1
    funext e
    by_cases he : e.module = m
    · have hown := hi.own e (by rw [he]; exact hm)
      simp [names, he, hown]
    · simp [names, he]
  · intro m' st hst
    by_cases hm' : m' = m
    · subst hm'
      simp at hst
    · rw [Function.update_of_ne hm'] at hst
      exact hi.statics m' st hst
  · intro e he
    by_cases hem : e.module = m
    · rw [hem, Function.update_self] at he
      contradiction
    · rw [Function.update_of_ne hem] at he
      exact hi.own e he

theorem inv_step (hwf : WellFormed Entry.parent foreign) (hi : Inv foreign s.tree s.loaded)
    (h : step s e = some s') : Inv foreign s'.tree s'.loaded := by
  have htree := hi.tree
  cases e with
  | load m ok =>
    cases hm : s.loaded m with
    | some st => simp [step, hm] at h
    | none =>
      simp only [step, hm, htree] at h
      rcases mdInit_loads m ok (names_wellFormed hwf s.loaded) with hr | ⟨hfree, hr⟩
      · have hsame : Function.update s.loaded m none = s.loaded := by
          rw [← hm, Function.update_eq_self]
        simp only [hr, Option.some.injEq, hsame] at h
        subst h
        exact ⟨rfl, hi.statics, hi.own⟩
      · simp only [hr, Option.some.injEq] at h
        subst h
        exact hi.load hfree
  | unload m =>
    cases hm : s.loaded m with
    | none => simp [step, hm] at h
    | some st =>
      obtain rfl := hi.statics m st hm
      have hthere : ∀ e : Entry, e.module = m → names foreign s.loaded e = true := by
        intro e he
        simp [names, he, hm]
      simp only [step, hm, htree, mdExit_eq m hthere, Option.some.injEq] at h
      subst h
      exact hi.unload (by rw [hm]; rfl)

/-- However the three modules are loaded and unloaded, with whichever calls failing and
whichever names taken, nothing is removed that is not there or has something inside; there are
always the entries of the modules that are loaded, all of them, besides those of others, and a
module has none of the names that others had. -/
theorem entries_of_loaded (hwf : WellFormed Entry.parent foreign)
    {tr : List (State × Event)} (h : Run step (init foreign) tr s) :
    s.tree = some (names foreign s.loaded) ∧
    ∀ e : Entry, (s.loaded e.module).isSome = true → foreign e = false := by
  have hi := h.invariant (I := fun s => Inv foreign s.tree s.loaded) (inv_init foreign)
    fun _ _ _ => inv_step hwf
  exact ⟨hi.tree, hi.own⟩

/-- Somebody has the name of a link: one module is loaded and unloaded, another fails at the
taken name. -/
def takenLink : List Event :=
  [.load .seqIter fun _ => true, .load .seqSingle fun _ => true,
    .load .fortune fun e => e != .fortuneDir, .unload .seqIter]

theorem entries_of_loaded_takenLink :
    let foreign : Tree := fun e => e == .mySymlink
    let s := (exec step (init foreign) takenLink).get (by decide)
    s.tree = some (names foreign s.loaded) ∧
    ∀ e : Entry, (s.loaded e.module).isSome = true → foreign e = false :=
  entries_of_loaded
    (by intro c p hp; cases c <;> simp_all [Entry.parent])
    (run_of_isSome (init fun e => e == .mySymlink) takenLink (by decide))

end OsLabs.ProcEntries
