import OsLabs.Lib.Run
import OsLabs.Lib.Semop
import Mathlib.Tactic.Ring

/-! Processes that bracket a body by two `semop` calls on one semaphore set,
each either in a loop or once. Processes are started at any time and in any
number, a `semop` may fail at any time, and a looping process may stop at the
head of its loop. What the semaphores are worth is then a matter of where the
processes stand and of how many bodies were run. -/

namespace OsLabs

/-- Where a process stands: before its lock call, before its body, before its
release call, ended while it held nothing, ended by a failed release call. -/
inductive Phase
  | outside
  | entered
  | finished
  | gone
  | goneInside
  deriving DecidableEq

/-- Past the lock call and not past the release call. -/
def Phase.inside : Phase → Bool
  | .entered | .finished | .goneInside => true
  | .outside | .gone => false

def Phase.unreleased : Phase → Bool
  | .finished | .goneInside => true
  | .entered | .outside | .gone => false

@[simp] theorem Phase.inside_outside : Phase.outside.inside = false := rfl
@[simp] theorem Phase.inside_entered : Phase.entered.inside = true := rfl
@[simp] theorem Phase.inside_finished : Phase.finished.inside = true := rfl
@[simp] theorem Phase.inside_gone : Phase.gone.inside = false := rfl
@[simp] theorem Phase.inside_goneInside : Phase.goneInside.inside = true := rfl

@[simp] theorem Phase.unreleased_outside : Phase.outside.unreleased = false := rfl
@[simp] theorem Phase.unreleased_entered : Phase.entered.unreleased = false := rfl
@[simp] theorem Phase.unreleased_finished : Phase.finished.unreleased = true := rfl
@[simp] theorem Phase.unreleased_gone : Phase.gone.unreleased = false := rfl
@[simp] theorem Phase.unreleased_goneInside : Phase.goneInside.unreleased = true := rfl

/-- A program of this shape: the two operation lists of each role, its body, and
whether a process comes back to its lock call after its release call. -/
structure Section (ι ρ δ : Type) where
  lock : ρ → List (Sembuf ι)
  release : ρ → List (Sembuf ι)
  body : ρ → δ → Option δ
  loops : Bool

namespace Section

structure Proc (ρ : Type) where
  role : ρ
  phase : Phase

/-- The semaphores, the shared data and the processes. `bodies` and `releases`
log the roles whose body was run and whose release call went through. -/
structure State (ι ρ δ : Type) where
  sem : ι → ℕ
  data : δ
  procs : List (Proc ρ)
  bodies : List ρ
  releases : List ρ

inductive Event (ρ : Type)
  | spawn (r : ρ)
  | run (k : ℕ)
  | fail (k : ℕ)
  | quit (k : ℕ)

variable {ι ρ δ : Type}

def State.init (sem : ι → ℕ) (data : δ) : State ι ρ δ := ⟨sem, data, [], [], []⟩

def State.goto (s : State ι ρ δ) (k : ℕ) (r : ρ) (ph : Phase) : State ι ρ δ :=
  { s with procs := s.procs.set k ⟨r, ph⟩ }

@[simp] theorem State.goto_bodies (s : State ι ρ δ) (k : ℕ) (r : ρ) (ph : Phase) :
    (s.goto k r ph).bodies = s.bodies := rfl

@[simp] theorem State.goto_releases (s : State ι ρ δ) (k : ℕ) (r : ρ) (ph : Phase) :
    (s.goto k r ph).releases = s.releases := rfl

@[simp] theorem State.goto_procs (s : State ι ρ δ) (k : ℕ) (r : ρ) (ph : Phase) :
    (s.goto k r ph).procs = s.procs.set k ⟨r, ph⟩ := rfl

variable [DecidableEq ι] (S : Section ι ρ δ)

def next : Phase := if S.loops then .outside else .gone

/-- `run k` is the next statement of process `k`, going through; `fail k` is the
`semop` it stands at returning -1; `quit k` is a loop that ends. -/
def step (s : State ι ρ δ) : Event ρ → Option (State ι ρ δ)
  | .spawn r => some { s with procs := s.procs ++ [⟨r, .outside⟩] }
  | .run k => do
    let p ← s.procs[k]?
    match p.phase with
    | .outside =>
      let sem ← (semop s.sem (S.lock p.role)).result
      some { s.goto k p.role .entered with sem := sem }
    | .entered =>
      let data ← S.body p.role s.data
      some { s.goto k p.role .finished with data := data, bodies := s.bodies ++ [p.role] }
    | .finished =>
      let sem ← (semop s.sem (S.release p.role)).result
      some { s.goto k p.role S.next with sem := sem, releases := s.releases ++ [p.role] }
    | .gone | .goneInside => none
  | .fail k => do
    let p ← s.procs[k]?
    match p.phase with
    | .outside => some (s.goto k p.role .gone)
    | .finished => some (s.goto k p.role .goneInside)
    | .entered | .gone | .goneInside => none
  | .quit k => do
    let p ← s.procs[k]?
    match p.phase, S.loops with
    | .outside, true => some (s.goto k p.role .gone)
    | _, _ => none

theorem step_cases {s s' : State ι ρ δ} {e : Event ρ} (h : S.step s e = some s') :
    (∃ r, e = .spawn r ∧ s' = { s with procs := s.procs ++ [⟨r, .outside⟩] }) ∨
    (∃ k r sem, e = .run k ∧ s.procs[k]? = some ⟨r, .outside⟩ ∧
      semop s.sem (S.lock r) = .done sem ∧ s' = { s.goto k r .entered with sem := sem }) ∨
    (∃ k r data, e = .run k ∧ s.procs[k]? = some ⟨r, .entered⟩ ∧ S.body r s.data = some data ∧
      s' = { s.goto k r .finished with data := data, bodies := s.bodies ++ [r] }) ∨
    (∃ k r sem, e = .run k ∧ s.procs[k]? = some ⟨r, .finished⟩ ∧
      semop s.sem (S.release r) = .done sem ∧
      s' = { s.goto k r S.next with sem := sem, releases := s.releases ++ [r] }) ∨
    (∃ k r, (e = .fail k ∨ e = .quit k) ∧ s.procs[k]? = some ⟨r, .outside⟩ ∧
      s' = s.goto k r .gone) ∨
    (∃ k r, e = .fail k ∧ s.procs[k]? = some ⟨r, .finished⟩ ∧ s' = s.goto k r .goneInside) := by
  cases e with
  | spawn r => exact .inl ⟨r, rfl, by simpa [step] using h.symm⟩
  | run k =>
    simp only [step, Option.bind_eq_bind, Option.bind_eq_some_iff] at h
    obtain ⟨⟨r, ph⟩, hk, h⟩ := h
    cases ph with
    | outside =>
      obtain ⟨sem, hsem, h⟩ := Option.bind_eq_some_iff.1 h
      exact .inr (.inl ⟨k, r, sem, rfl, hk, Semop.result_eq_some.1 hsem, by simpa using h.symm⟩)
    | entered =>
      obtain ⟨data, hdata, h⟩ := Option.bind_eq_some_iff.1 h
      exact .inr (.inr (.inl ⟨k, r, data, rfl, hk, hdata, by simpa using h.symm⟩))
    | finished =>
      obtain ⟨sem, hsem, h⟩ := Option.bind_eq_some_iff.1 h
      exact .inr (.inr (.inr (.inl
        ⟨k, r, sem, rfl, hk, Semop.result_eq_some.1 hsem, by simpa using h.symm⟩)))
    | gone => simp at h
    | goneInside => simp at h
  | fail k =>
    simp only [step, Option.bind_eq_bind, Option.bind_eq_some_iff] at h
    obtain ⟨⟨r, ph⟩, hk, h⟩ := h
    cases ph with
    | outside =>
      exact .inr (.inr (.inr (.inr (.inl ⟨k, r, .inl rfl, hk, by simpa using h.symm⟩))))
    | finished =>
      exact .inr (.inr (.inr (.inr (.inr ⟨k, r, rfl, hk, by simpa using h.symm⟩))))
    | entered => simp at h
    | gone => simp at h
    | goneInside => simp at h
  | quit k =>
    simp only [step, Option.bind_eq_bind, Option.bind_eq_some_iff] at h
    obtain ⟨⟨r, ph⟩, hk, h⟩ := h
    split at h
    · rename_i hph _
      simp only at hph
      subst hph
      exact .inr (.inr (.inr (.inr (.inl ⟨k, r, .inr rfl, hk, by simpa using h.symm⟩))))
    · simp at h

/-! ### The ledger -/

/-- What a process holds: the effect of its lock call until its body is run, and
from then on what its release call is going to give back. -/
def hold (p : Proc ρ) (i : ι) : ℤ :=
  match p.phase with
  | .outside | .gone => 0
  | .entered => -net (S.lock p.role) i
  | .finished | .goneInside => net (S.release p.role) i

@[simp] theorem hold_outside (r : ρ) (i : ι) : S.hold ⟨r, .outside⟩ i = 0 := rfl

@[simp] theorem hold_gone (r : ρ) (i : ι) : S.hold ⟨r, .gone⟩ i = 0 := rfl

@[simp] theorem hold_entered (r : ρ) (i : ι) : S.hold ⟨r, .entered⟩ i = -net (S.lock r) i := rfl

@[simp] theorem hold_finished (r : ρ) (i : ι) : S.hold ⟨r, .finished⟩ i = net (S.release r) i := rfl

@[simp] theorem hold_goneInside (r : ρ) (i : ι) :
    S.hold ⟨r, .goneInside⟩ i = net (S.release r) i := rfl

@[simp] theorem hold_next (r : ρ) (i : ι) : S.hold ⟨r, S.next⟩ i = 0 := by
  unfold next
  split_ifs <;> rfl

/-- What the bodies run so far have moved into (or out of) a semaphore. -/
def moved (bodies : List ρ) (i : ι) : ℤ :=
  (bodies.map fun r => net (S.lock r) i + net (S.release r) i).sum

def Ledger (sem₀ : ι → ℕ) (s : State ι ρ δ) : Prop :=
  Balanced S.hold (fun i => sem₀ i + S.moved s.bodies i) s.sem s.procs

theorem ledger_init (sem₀ : ι → ℕ) (data : δ) : S.Ledger sem₀ (.init sem₀ data) := by
  intro i
  simp [State.init, moved]

theorem ledger_step {sem₀ : ι → ℕ} {s s' : State ι ρ δ} {e : Event ρ} (hl : S.Ledger sem₀ s)
    (h : S.step s e = some s') : S.Ledger sem₀ s' := by
  obtain ⟨r, -, rfl⟩ | ⟨k, r, sem, -, hk, hsem, rfl⟩ | ⟨k, r, data, -, hk, -, rfl⟩ |
    ⟨k, r, sem, -, hk, hsem, rfl⟩ | ⟨k, r, -, hk, rfl⟩ | ⟨k, r, -, hk, rfl⟩ := S.step_cases h
  · exact Balanced.spawn hl fun i => rfl
  · exact Balanced.semop hl hsem hk fun i => by simp
  · refine Balanced.move hl hk fun i => ?_
    simp only [moved, List.map_append, List.sum_append, List.map_cons, List.map_nil,
      List.sum_cons, List.sum_nil, hold_entered, hold_finished]
    omega
  · exact Balanced.semop hl hsem hk fun i => by simp
  · exact Balanced.move hl hk fun i => by simp
  · exact Balanced.move hl hk fun i => by simp

theorem sem_le_step {s s' : State ι ρ δ} {e : Event ρ} (h0 : ∀ i, s.sem i ≤ SEMVMX)
    (h : S.step s e = some s') (i : ι) : s'.sem i ≤ SEMVMX := by
  obtain ⟨r, -, rfl⟩ | ⟨k, r, sem, -, -, hsem, rfl⟩ | ⟨k, r, data, -, -, -, rfl⟩ |
    ⟨k, r, sem, -, -, hsem, rfl⟩ | ⟨k, r, -, -, rfl⟩ | ⟨k, r, -, -, rfl⟩ := S.step_cases h
  · exact h0 i
  · exact semop_le h0 hsem i
  · exact h0 i
  · exact semop_le h0 hsem i
  · exact h0 i
  · exact h0 i

/-! ### Processes that go on -/

/-- Neither a `semop` that fails nor a loop that ends. -/
def Event.Undisturbed : Event ρ → Prop
  | .spawn _ | .run _ => True
  | .fail _ | .quit _ => False

def AllRunning (s : State ι ρ δ) : Prop :=
  ∀ p ∈ s.procs, p.phase ≠ .gone ∧ p.phase ≠ .goneInside

omit [DecidableEq ι] in
theorem AllRunning.goto {s : State ι ρ δ} (hs : AllRunning s) (k : ℕ) (r : ρ) {ph : Phase}
    (hg : ph ≠ .gone) (hi : ph ≠ .goneInside) : AllRunning (s.goto k r ph) := by
  intro p hp
  rcases List.mem_or_eq_of_mem_set hp with hp | rfl
  · exact hs p hp
  · exact ⟨hg, hi⟩

theorem allRunning_step {s s' : State ι ρ δ} {e : Event ρ} (hloops : S.loops = true)
    (hs : AllRunning s) (he : e.Undisturbed) (h : S.step s e = some s') : AllRunning s' := by
  obtain ⟨r, -, rfl⟩ | ⟨k, r, sem, -, -, -, rfl⟩ | ⟨k, r, data, -, -, -, rfl⟩ |
    ⟨k, r, sem, -, -, -, rfl⟩ | ⟨k, r, rfl | rfl, -, -⟩ | ⟨k, r, rfl, -, -⟩ := S.step_cases h
  · intro p hp
    rcases List.mem_append.1 hp with hp | hp
    · exact hs p hp
    · obtain rfl := List.mem_singleton.1 hp
      exact ⟨nofun, nofun⟩
  · exact hs.goto k r nofun nofun
  · exact hs.goto k r nofun nofun
  · have hnext : S.next = .outside := by rw [next, if_pos hloops]
    rw [hnext]
    exact hs.goto k r nofun nofun
  · exact he.elim
  · exact he.elim
  · exact he.elim

theorem step_lock {s : State ι ρ δ} {k : ℕ} {r : ρ} {sem : ι → ℕ}
    (hk : s.procs[k]? = some ⟨r, .outside⟩) (h : semop s.sem (S.lock r) = .done sem) :
    S.step s (.run k) = some { s.goto k r .entered with sem := sem } := by
  simp [step, hk, Semop.result_eq_some.2 h]

theorem step_body {s : State ι ρ δ} {k : ℕ} {r : ρ} {data : δ}
    (hk : s.procs[k]? = some ⟨r, .entered⟩) (h : S.body r s.data = some data) :
    S.step s (.run k) =
      some { s.goto k r .finished with data := data, bodies := s.bodies ++ [r] } := by
  simp [step, hk, h]

theorem step_release {s : State ι ρ δ} {k : ℕ} {r : ρ} {sem : ι → ℕ}
    (hk : s.procs[k]? = some ⟨r, .finished⟩) (h : semop s.sem (S.release r) = .done sem) :
    S.step s (.run k) =
      some { s.goto k r S.next with sem := sem, releases := s.releases ++ [r] } := by
  simp [step, hk, Semop.result_eq_some.2 h]

theorem enabled_outside {s : State ι ρ δ} {k : ℕ} {r : ρ}
    (hk : s.procs[k]? = some ⟨r, .outside⟩) (h : Completes s.sem (S.lock r)) :
    (S.step s (.run k)).isSome := by
  obtain ⟨sem, hsem⟩ := h
  rw [S.step_lock hk hsem]
  rfl

theorem enabled_entered {s : State ι ρ δ} {k : ℕ} {r : ρ}
    (hk : s.procs[k]? = some ⟨r, .entered⟩) (h : (S.body r s.data).isSome) :
    (S.step s (.run k)).isSome := by
  obtain ⟨data, hdata⟩ := Option.isSome_iff_exists.1 h
  rw [S.step_body hk hdata]
  rfl

theorem enabled_finished {s : State ι ρ δ} {k : ℕ} {r : ρ}
    (hk : s.procs[k]? = some ⟨r, .finished⟩) (h : Completes s.sem (S.release r)) :
    (S.step s (.run k)).isSome := by
  obtain ⟨sem, hsem⟩ := h
  rw [S.step_release hk hsem]
  rfl

/-! ### Counting processes -/

def insideCount (f : ρ → Bool) (ps : List (Proc ρ)) : ℕ :=
  ps.countP fun p => f p.role && p.phase.inside

theorem exists_enabled {s : State ι ρ δ} {f : ρ → Bool} (hs : AllRunning s)
    (hpos : 0 < insideCount f s.procs) (hbody : ∀ r, (S.body r s.data).isSome)
    (hrel : ∀ r, f r → Completes s.sem (S.release r)) : ∃ k, (S.step s (.run k)).isSome := by
  obtain ⟨⟨r, ph⟩, hp, hf⟩ := List.countP_pos_iff.1 hpos
  rw [Bool.and_eq_true] at hf
  obtain ⟨hfr, hin⟩ := hf
  obtain ⟨k, hk⟩ := List.mem_iff_getElem?.1 hp
  have hrun := hs _ hp
  refine ⟨k, ?_⟩
  cases ph with
  | outside => simp at hin
  | entered => exact S.enabled_entered hk (hbody r)
  | finished => exact S.enabled_finished hk (hrel r hfr)
  | gone => simp at hrun
  | goneInside => simp at hrun

omit [DecidableEq ι] in
theorem insideCount_set {f : ρ → Bool} {ps : List (Proc ρ)} {k : ℕ} {r : ρ} {ph : Phase}
    (hk : ps[k]? = some ⟨r, ph⟩) (ph' : Phase) :
    insideCount f (ps.set k ⟨r, ph'⟩) + (if f r && ph.inside then 1 else 0) =
      insideCount f ps + (if f r && ph'.inside then 1 else 0) :=
  countP_set (fun p : Proc ρ => f p.role && p.phase.inside) hk ⟨r, ph'⟩

/-- Only a lock call that goes through makes a process come inside. -/
theorem insideCount_step {s s' : State ι ρ δ} {e : Event ρ} (f : ρ → Bool)
    (h : S.step s e = some s') :
    insideCount f s'.procs ≤ insideCount f s.procs ∨
      ∃ k r sem, e = .run k ∧ s.procs[k]? = some ⟨r, .outside⟩ ∧ f r = true ∧
        semop s.sem (S.lock r) = .done sem ∧
        insideCount f s'.procs = insideCount f s.procs + 1 := by
  obtain ⟨r, -, rfl⟩ | ⟨k, r, sem, he, hk, hsem, rfl⟩ | ⟨k, r, data, -, hk, -, rfl⟩ |
    ⟨k, r, sem, -, hk, -, rfl⟩ | ⟨k, r, -, hk, rfl⟩ | ⟨k, r, -, hk, rfl⟩ := S.step_cases h
  · left
    simp [insideCount]
  · have hc := insideCount_set (f := f) hk .entered
    simp only [Phase.inside_outside, Phase.inside_entered, Bool.and_false, Bool.and_true,
      Bool.false_eq_true, if_false, add_zero] at hc
    cases hf : f r with
    | true =>
      right
      exact ⟨k, r, sem, he, hk, hf, hsem, by simpa [hf] using hc⟩
    | false =>
      left
      simpa [hf] using hc.le
  · left
    have hc := insideCount_set (f := f) hk .finished
    simp only [Phase.inside_entered, Phase.inside_finished, Bool.and_true] at hc
    simp only [State.goto_procs]
    omega
  · left
    have hc := insideCount_set (f := f) hk S.next
    have hn : S.next.inside = false := by unfold next; split_ifs <;> rfl
    simp only [hn, Bool.and_false, Bool.false_eq_true, if_false, add_zero] at hc
    simp only [State.goto_procs]
    omega
  · left
    have hc := insideCount_set (f := f) hk .gone
    simp only [Phase.inside_outside, Phase.inside_gone, Bool.and_false, Bool.false_eq_true,
      if_false, add_zero] at hc
    exact hc.le
  · left
    have hc := insideCount_set (f := f) hk .goneInside
    simp only [Phase.inside_finished, Phase.inside_goneInside, Bool.and_true] at hc
    simp only [State.goto_procs]
    omega

/-- A semaphore that the roles in `f` take one of on entry and give back on
exit, and that the others leave as it is: what is held of it is how many of them
are inside. -/
theorem held_eq_insideCount {i : ι} {f : ρ → Bool} {c : ℤ}
    (hlock : ∀ r, net (S.lock r) i = if f r then -c else 0)
    (hrel : ∀ r, net (S.release r) i = if f r then c else 0) (ps : List (Proc ρ)) :
    held S.hold ps i = c * insideCount f ps := by
  unfold insideCount held
  induction ps with
  | nil => simp
  | cons p ps ih =>
    obtain ⟨r, ph⟩ := p
    simp only [List.map_cons, List.sum_cons, List.countP_cons, ih]
    cases hf : f r <;> cases ph <;>
      simp only [hold, Phase.inside, hlock, hrel, hf, Bool.and_true, Bool.and_false,
        if_true, Bool.false_eq_true, if_false, Nat.cast_add, Nat.cast_one,
        Nat.cast_zero] <;> ring

theorem moved_eq_zero {i : ι} (h : ∀ r, net (S.lock r) i + net (S.release r) i = 0)
    (bodies : List ρ) : S.moved bodies i = 0 := by
  simp [moved, h]

theorem Ledger.sem_eq {S : Section ι ρ δ} {sem₀ : ι → ℕ} {s : State ι ρ δ}
    (hl : S.Ledger sem₀ s) {i : ι} {f : ρ → Bool} {c : ℤ}
    (hlock : ∀ r, net (S.lock r) i = if f r then -c else 0)
    (hrel : ∀ r, net (S.release r) i = if f r then c else 0) :
    (s.sem i : ℤ) + c * insideCount f s.procs = sem₀ i := by
  have h := hl i
  have hz : S.moved s.bodies i = 0 := S.moved_eq_zero (fun r => by
    rw [hlock, hrel]; split_ifs <;> ring) _
  simp only [S.held_eq_insideCount hlock hrel, hz, add_zero] at h
  exact h

theorem Ledger.exclusive {S : Section ι ρ δ} {sem₀ : ι → ℕ} {s : State ι ρ δ}
    (hl : S.Ledger sem₀ s) {i : ι} {f : ρ → Bool} (h1 : sem₀ i = 1)
    (hlock : ∀ r, net (S.lock r) i = if f r then -1 else 0)
    (hrel : ∀ r, net (S.release r) i = if f r then 1 else 0) : insideCount f s.procs ≤ 1 := by
  have := hl.sem_eq hlock hrel
  omega

/-! ### Lock calls and whole turns -/

/-- The lock calls of the roles in `f` that went through: the bodies run and those still
to be run. -/
def passed (f : ρ → Bool) (s : State ι ρ δ) : ℕ :=
  s.bodies.countP f + s.procs.countP fun p => f p.role && p.phase = .entered

theorem passed_step {f : ρ → Bool} {s s' : State ι ρ δ} {e : Event ρ}
    (h : S.step s e = some s') :
    passed f s' = passed f s ∨
      ∃ k r, e = .run k ∧ s.procs[k]? = some ⟨r, .outside⟩ ∧ f r = true ∧
        passed f s' = passed f s + 1 := by
  unfold passed
  obtain ⟨r, -, rfl⟩ | ⟨k, r, sem, he, hk, -, rfl⟩ | ⟨k, r, data, -, hk, -, rfl⟩ |
    ⟨k, r, sem, -, hk, -, rfl⟩ | ⟨k, r, -, hk, rfl⟩ | ⟨k, r, -, hk, rfl⟩ := S.step_cases h
  · left
    simp
  · have hc := countP_set (fun p : Proc ρ => f p.role && p.phase = .entered) hk ⟨r, .entered⟩
    cases hf : f r with
    | true =>
      right
      refine ⟨k, r, he, hk, hf, ?_⟩
      simp only [hf, Bool.true_and] at hc
      simp only [State.goto_bodies, State.goto_procs]
      simp at hc
      omega
    | false =>
      left
      simpa [hf] using hc
  · left
    have hc := countP_set (fun p : Proc ρ => f p.role && p.phase = .entered) hk ⟨r, .finished⟩
    simp only [State.goto_procs, List.countP_append, List.countP_singleton]
    simp at hc
    omega
  · left
    have hn : S.next ≠ .entered := by unfold next; split_ifs <;> nofun
    have hc := countP_set (fun p : Proc ρ => f p.role && p.phase = .entered) hk ⟨r, S.next⟩
    simpa [hn] using hc
  · left
    have hc := countP_set (fun p : Proc ρ => f p.role && p.phase = .entered) hk ⟨r, .gone⟩
    simpa using hc
  · left
    have hc := countP_set (fun p : Proc ρ => f p.role && p.phase = .entered) hk ⟨r, .goneInside⟩
    simpa using hc

theorem step_outside {s s' : State ι ρ δ} {k : ℕ} {r : ρ}
    (hk : s.procs[k]? = some ⟨r, .outside⟩) (h : S.step s (.run k) = some s') :
    ∃ sem, semop s.sem (S.lock r) = .done sem ∧
      s' = { s.goto k r .entered with sem := sem } := by
  simp only [step, hk, Option.bind_eq_bind, Option.bind_some] at h
  obtain ⟨sem, hsem, h⟩ := Option.bind_eq_some_iff.1 h
  exact ⟨sem, Semop.result_eq_some.1 hsem, (Option.some.inj h).symm⟩

/-- A whole turn of a looping process, from its lock call to its release call. -/
theorem run_turn {s : State ι ρ δ} {k : ℕ} {r : ρ} {sem sem' : ι → ℕ} {data : δ}
    (hloops : S.loops = true) (hk : s.procs[k]? = some ⟨r, .outside⟩)
    (hlock : semop s.sem (S.lock r) = .done sem) (hbody : S.body r s.data = some data)
    (hrelease : semop sem (S.release r) = .done sem') :
    ∃ tr, Run S.step s tr { s with
      sem := sem', data := data, bodies := s.bodies ++ [r], releases := s.releases ++ [r] } := by
  have hsame : s.procs.set k ⟨r, .outside⟩ = s.procs := by
    refine List.ext_getElem? fun i => ?_
    rw [List.getElem?_set]
    split_ifs with hi hlt
    · rw [← hi, hk]
    · rw [← hi, List.getElem?_eq_none (Nat.le_of_not_lt hlt)]
    · rfl
  have hnext : S.next = .outside := by rw [next, if_pos hloops]
  have h₁ := S.step_lock hk hlock
  have h₂ := S.step_body (s := { s.goto k r .entered with sem := sem }) (get_set hk _) hbody
  have h₃ := S.step_release
    (s := { s.goto k r .finished with sem := sem, data := data, bodies := s.bodies ++ [r] })
    (get_set hk _) hrelease
  simp only [State.goto, List.set_set] at h₁ h₂ h₃
  rw [hnext, hsame] at h₃
  exact ⟨_, ((Run.nil.snoc h₁).snoc h₂).snoc h₃⟩

def unreleased (f : ρ → Bool) (ps : List (Proc ρ)) : ℕ :=
  ps.countP fun p => f p.role && p.phase.unreleased

omit [DecidableEq ι] in
theorem unreleased_set {f : ρ → Bool} {ps : List (Proc ρ)} {k : ℕ} {r : ρ} {ph : Phase}
    (hk : ps[k]? = some ⟨r, ph⟩) (ph' : Phase) :
    unreleased f (ps.set k ⟨r, ph'⟩) + (if f r && ph.unreleased then 1 else 0) =
      unreleased f ps + (if f r && ph'.unreleased then 1 else 0) :=
  countP_set (fun p : Proc ρ => f p.role && p.phase.unreleased) hk ⟨r, ph'⟩

/-- Every body run is either released or still to be released. -/
def Settled (f : ρ → Bool) (s : State ι ρ δ) : Prop :=
  s.bodies.countP f = s.releases.countP f + unreleased f s.procs

theorem settled_step {f : ρ → Bool} {s s' : State ι ρ δ} {e : Event ρ} (hs : Settled f s)
    (h : S.step s e = some s') : Settled f s' := by
  unfold Settled at hs ⊢
  obtain ⟨r, -, rfl⟩ | ⟨k, r, sem, -, hk, -, rfl⟩ | ⟨k, r, data, -, hk, -, rfl⟩ |
    ⟨k, r, sem, -, hk, -, rfl⟩ | ⟨k, r, -, hk, rfl⟩ | ⟨k, r, -, hk, rfl⟩ := S.step_cases h
  · simpa [unreleased, Phase.unreleased] using hs
  · have hc := unreleased_set (f := f) hk .entered
    simp only [Phase.unreleased_outside, Phase.unreleased_entered, Bool.and_false,
      Bool.false_eq_true, if_false, add_zero] at hc
    simp only [State.goto_bodies, State.goto_releases, State.goto_procs, hc, hs]
  · have hc := unreleased_set (f := f) hk .finished
    simp only [Phase.unreleased_entered, Phase.unreleased_finished, Bool.and_false, Bool.and_true,
      Bool.false_eq_true, if_false] at hc
    simp only [State.goto_releases, State.goto_procs, List.countP_append, List.countP_singleton]
    omega
  · have hc := unreleased_set (f := f) hk S.next
    have hn : S.next.unreleased = false := by unfold next; split_ifs <;> rfl
    simp only [hn, Phase.unreleased_finished, Bool.and_false, Bool.and_true, Bool.false_eq_true,
      if_false] at hc
    simp only [State.goto_bodies, State.goto_procs, List.countP_append, List.countP_singleton]
    omega
  · have hc := unreleased_set (f := f) hk .gone
    simp only [Phase.unreleased_outside, Phase.unreleased_gone, Bool.and_false,
      Bool.false_eq_true, if_false, add_zero] at hc
    simp only [State.goto_bodies, State.goto_releases, State.goto_procs, hc, hs]
  · have hc := unreleased_set (f := f) hk .goneInside
    simp only [Phase.unreleased_finished, Phase.unreleased_goneInside, Bool.and_true] at hc
    simp only [State.goto_bodies, State.goto_releases, State.goto_procs]
    omega

theorem settled_run {sem₀ : ι → ℕ} {data : δ} {tr : List (State ι ρ δ × Event ρ)}
    {s : State ι ρ δ} (f : ρ → Bool) (h : Run S.step (.init sem₀ data) tr s) : Settled f s :=
  h.invariant (by simp [Settled, State.init, unreleased]) fun _ _ _ hs he => S.settled_step hs he

end Section

end OsLabs
