import OsLabs.Lib.Buffer

/-! Where the processes of a bounded buffer come to a halt. The tokens of `se` and `sf`
and the processes inside add up to the capacity, so a process that is inside can always go
on, and a halted system has nobody inside and one kind of token at most. -/

namespace OsLabs

def Phase.ahead : Phase → Bool
  | .outside | .entered => true
  | .finished | .gone | .goneInside => false

@[simp] theorem Phase.ahead_outside : Phase.outside.ahead = true := rfl
@[simp] theorem Phase.ahead_entered : Phase.entered.ahead = true := rfl
@[simp] theorem Phase.ahead_finished : Phase.finished.ahead = false := rfl
@[simp] theorem Phase.ahead_gone : Phase.gone.ahead = false := rfl

namespace Section

variable {ι ρ δ : Type} [DecidableEq ι]

/-- The calls of such a program, operation by operation. -/
structure Calls (S : Section ι ρ δ) (kind : ρ → Kind) (se sf sb : ι) : Prop where
  lock : ∀ r, S.lock r =
    match kind r with
    | .producer => [⟨se, -1⟩, ⟨sb, -1⟩]
    | .consumer => [⟨sf, -1⟩, ⟨sb, -1⟩]
  release : ∀ r, S.release r =
    match kind r with
    | .producer => [⟨sb, 1⟩, ⟨sf, 1⟩]
    | .consumer => [⟨sb, 1⟩, ⟨se, 1⟩]
  se_sf : se ≠ sf
  se_sb : se ≠ sb
  sf_sb : sf ≠ sb

variable {S : Section ι ρ δ} {kind : ρ → Kind} {se sf sb : ι} {sem₀ : ι → ℕ} {s s' : State ι ρ δ}
  {e : Event ρ}

theorem Calls.buffers (hc : S.Calls kind se sf sb) : S.Buffers kind se sf sb where
  lock_se r := by rw [hc.lock]; cases kind r <;> simp [hc.se_sb.symm, hc.se_sf.symm]
  lock_sf r := by rw [hc.lock]; cases kind r <;> simp [hc.sf_sb.symm, hc.se_sf]
  lock_sb r := by rw [hc.lock]; cases kind r <;> simp [hc.sf_sb, hc.se_sb]
  release_se r := by rw [hc.release]; cases kind r <;> simp [hc.se_sb.symm, hc.se_sf.symm]
  release_sf r := by rw [hc.release]; cases kind r <;> simp [hc.sf_sb.symm, hc.se_sf]
  release_sb r := by rw [hc.release]; cases kind r <;> simp [hc.sf_sb, hc.se_sb]

def token (kind : ρ → Kind) (se sf : ι) (r : ρ) : ι :=
  match kind r with
  | .producer => se
  | .consumer => sf

omit [DecidableEq ι] in
theorem token_producer {r : ρ} (hr : kind r = .producer) : token kind se sf r = se := by
  simp [token, hr]

omit [DecidableEq ι] in
theorem token_consumer {r : ρ} (hr : kind r = .consumer) : token kind se sf r = sf := by
  simp [token, hr]

theorem Calls.lock_completes (hc : S.Calls kind se sf sb) {sem : ι → ℕ}
    (hmax : ∀ i, sem i ≤ SEMVMX) {r : ρ} (ht : 0 < sem (token kind se sf r)) (hb : 0 < sem sb) :
    Completes sem (S.lock r) := by
  have hse := hmax se
  have hsf := hmax sf
  have hsb := hmax sb
  rw [hc.lock]
  cases hr : kind r with
  | producer =>
    rw [token_producer hr] at ht
    simp [Function.update_of_ne hc.se_sb.symm]
    omega
  | consumer =>
    rw [token_consumer hr] at ht
    simp [Function.update_of_ne hc.sf_sb.symm]
    omega

theorem Calls.release_completes (hc : S.Calls kind se sf sb) {sem : ι → ℕ}
    (hse : sem se < SEMVMX) (hsf : sem sf < SEMVMX) (hsb : sem sb < SEMVMX) (r : ρ) :
    Completes sem (S.release r) := by
  rw [hc.release]
  cases kind r with
  | producer =>
    simp [Function.update_of_ne hc.sf_sb]
    omega
  | consumer =>
    simp [Function.update_of_ne hc.se_sb]
    omega

theorem Buffers.held_tokens (hb : S.Buffers kind se sf sb) (ps : List (Proc ρ)) :
    held S.hold ps se + held S.hold ps sf = insideCount (fun _ => true) ps := by
  unfold insideCount held
  induction ps with
  | nil => simp
  | cons p ps ih =>
    obtain ⟨r, ph⟩ := p
    simp only [List.map_cons, List.sum_cons, List.countP_cons, Bool.true_and] at ih ⊢
    have hp : S.hold ⟨r, ph⟩ se + S.hold ⟨r, ph⟩ sf = if ph.inside then 1 else 0 := by
      cases ph <;> cases hr : kind r <;>
        simp [hb.lock_se, hb.lock_sf, hb.release_se, hb.release_sf, hr]
    push_cast
    linarith

theorem Buffers.tokens (hb : S.Buffers kind se sf sb) (hl : S.Ledger sem₀ s) (h0 : sem₀ sf = 0) :
    s.sem se + s.sem sf + insideCount (fun _ => true) s.procs = sem₀ se := by
  have hse := hl se
  have hsf := hl sf
  have ht := hb.held_tokens s.procs
  simp only [hb.moved_se, hb.moved_sf, h0] at hse hsf
  omega

/-! ### Halted systems -/

def Halted (S : Section ι ρ δ) (s : State ι ρ δ) : Prop := ∀ k, S.step s (.run k) = none

structure Filled (sem₀ : ι → ℕ) (se sf sb : ι) : Prop where
  sb : sem₀ sb = 1
  sf : sem₀ sf = 0
  le : sem₀ se ≤ SEMVMX

/-- The books of a system of which no process ended inside. -/
structure Sound (S : Section ι ρ δ) (sem₀ : ι → ℕ) (s : State ι ρ δ) : Prop where
  ledger : S.Ledger sem₀ s
  sem_le : ∀ i, s.sem i ≤ SEMVMX
  alive : ∀ p ∈ s.procs, p.phase ≠ .goneInside

theorem sound_init {data : δ} (hmax : ∀ i, sem₀ i ≤ SEMVMX) : S.Sound sem₀ (.init sem₀ data) where
  ledger := S.ledger_init sem₀ data
  sem_le := hmax
  alive _ hp := absurd hp List.not_mem_nil

omit [DecidableEq ι] in
theorem alive_goto (h : ∀ p ∈ s.procs, p.phase ≠ .goneInside) (k : ℕ) (r : ρ) {ph : Phase}
    (hph : ph ≠ .goneInside) : ∀ p ∈ (s.goto k r ph).procs, p.phase ≠ .goneInside := by
  intro p hp
  rcases List.mem_or_eq_of_mem_set hp with hp | rfl
  · exact h p hp
  · exact hph

theorem sound_step (h : S.Sound sem₀ s) (he : e.Undisturbed) (hstep : S.step s e = some s') :
    S.Sound sem₀ s' := by
  refine ⟨S.ledger_step h.ledger hstep, S.sem_le_step h.sem_le hstep, ?_⟩
  obtain ⟨r, -, rfl⟩ | ⟨k, r, sem, -, -, -, rfl⟩ | ⟨k, r, data, -, -, -, rfl⟩ |
    ⟨k, r, sem, -, -, -, rfl⟩ | ⟨k, r, -, -, rfl⟩ | ⟨k, r, rfl, -, -⟩ := S.step_cases hstep
  · intro p hp
    rcases List.mem_append.1 hp with hp | hp
    · exact h.alive p hp
    · obtain rfl := List.mem_singleton.1 hp
      exact nofun
  · exact alive_goto h.alive k r nofun
  · exact alive_goto h.alive k r nofun
  · apply alive_goto h.alive
    unfold next
    split_ifs <;> nofun
  · exact alive_goto h.alive k r nofun
  · exact he.elim

section
variable (hc : S.Calls kind se sf sb) (hf : Filled sem₀ se sf sb) (h : S.Sound sem₀ s)
include hc hf h

theorem Sound.enabled_inside {k : ℕ} {r : ρ} {ph : Phase} (hk : s.procs[k]? = some ⟨r, ph⟩)
    (hin : ph.inside = true) (hbody : ph = .entered → (S.body r s.data).isSome) :
    (S.step s (.run k)).isSome := by
  have hpos : 0 < insideCount (fun _ => true) s.procs :=
    List.countP_pos_iff.2 ⟨⟨r, ph⟩, List.mem_of_getElem? hk, by simpa using hin⟩
  have htok := hc.buffers.tokens h.ledger hf.sf
  have hsb := h.ledger.sem_eq (f := fun _ => true) (i := sb) (c := 1)
    (by simpa using hc.buffers.lock_sb) (by simpa using hc.buffers.release_sb)
  have hle := hf.le
  have hone := hf.sb
  have hmax : SEMVMX = 32767 := rfl
  cases ph with
  | outside => simp at hin
  | gone => simp at hin
  | goneInside => exact absurd rfl (h.alive _ (List.mem_of_getElem? hk))
  | entered => exact S.enabled_entered hk (hbody rfl)
  | finished =>
    apply S.enabled_finished hk
    apply hc.release_completes
    · omega
    · omega
    · omega

/-- In a halted system whose bodies can be run nobody is inside. -/
theorem Sound.nobody_inside (hstuck : S.Halted s)
    (hbody : ∀ p ∈ s.procs, p.phase = .entered → (S.body p.role s.data).isSome) :
    ∀ p ∈ s.procs, p.phase.inside = false := by
  intro p hp
  obtain ⟨k, hk⟩ := List.mem_iff_getElem?.1 hp
  by_contra hin
  have := h.enabled_inside hc hf hk (by simpa using hin) (hbody p hp)
  rw [hstuck k] at this
  exact Bool.noConfusion this

theorem Sound.blocked_iff (hin : ∀ p ∈ s.procs, p.phase.inside = false) {k : ℕ} {r : ρ}
    (hk : s.procs[k]? = some ⟨r, .outside⟩) :
    S.step s (.run k) = none ↔ s.sem (token kind se sf r) = 0 := by
  have hzero : insideCount (fun _ => true) s.procs = 0 := by
    apply List.countP_eq_zero.2
    intro p hp
    simp [hin p hp]
  have hsb := h.ledger.sem_eq (f := fun _ => true) (i := sb) (c := 1)
    (by simpa using hc.buffers.lock_sb) (by simpa using hc.buffers.release_sb)
  have hone := hf.sb
  refine ⟨?_, ?_⟩
  · intro hnone
    by_contra hne
    have hen := S.enabled_outside hk
      (hc.lock_completes h.sem_le (Nat.pos_of_ne_zero hne) (by omega))
    rw [hnone] at hen
    exact Bool.noConfusion hen
  · intro ht
    rw [Option.eq_none_iff_forall_not_mem]
    intro s' hs'
    obtain ⟨sem, hsem, -⟩ := S.step_outside hk hs'
    rw [hc.lock] at hsem
    cases hr : kind r with
    | producer =>
      rw [token_producer hr] at ht
      simp [hr, semop, ht] at hsem
    | consumer =>
      rw [token_consumer hr] at ht
      simp [hr, semop, ht] at hsem

omit hf in
theorem Sound.quiet_tokens (hf : Filled sem₀ se sf sb)
    (hin : ∀ p ∈ s.procs, p.phase.inside = false) :
    s.sem se + countKind kind .producer s.bodies =
        sem₀ se + countKind kind .consumer s.bodies ∧
      s.sem sf + countKind kind .consumer s.bodies = countKind kind .producer s.bodies := by
  have hzero : ∀ i, held S.hold s.procs i = 0 := by
    intro i
    apply List.sum_eq_zero
    intro x hx
    obtain ⟨⟨r, ph⟩, hp, rfl⟩ := List.mem_map.1 hx
    have := hin _ hp
    cases ph with
    | outside => rfl
    | gone => rfl
    | entered => simp at this
    | finished => simp at this
    | goneInside => simp at this
  have hse := h.ledger se
  have hsf := h.ledger sf
  simp only [hzero, hc.buffers.moved_se, hc.buffers.moved_sf, hf.sf] at hse hsf
  omega

end

/-! ### Bodies and processes -/

def Authored (s : State ι ρ δ) : Prop := ∀ r ∈ s.bodies, ∃ p ∈ s.procs, p.role = r

omit [DecidableEq ι] in
theorem authored_goto {k : ℕ} {r : ρ} {ph : Phase} (h : Authored s)
    (hk : s.procs[k]? = some ⟨r, ph⟩) (ph' : Phase) : Authored (s.goto k r ph') := by
  intro x hx
  obtain ⟨p, hp, hr⟩ := h x hx
  have hmem : x ∈ (s.procs.set k ⟨r, ph'⟩).map Proc.role := by
    rw [map_set (q := ⟨r, ph'⟩) Proc.role hk rfl]
    exact List.mem_map.2 ⟨p, hp, hr⟩
  exact List.mem_map.1 hmem

theorem authored_step (h : Authored s) (hstep : S.step s e = some s') : Authored s' := by
  obtain ⟨r, -, rfl⟩ | ⟨k, r, sem, -, hk, -, rfl⟩ | ⟨k, r, data, -, hk, -, rfl⟩ |
    ⟨k, r, sem, -, hk, -, rfl⟩ | ⟨k, r, -, hk, rfl⟩ | ⟨k, r, -, hk, rfl⟩ := S.step_cases hstep
  · intro x hx
    obtain ⟨p, hp, hr⟩ := h x hx
    exact ⟨p, List.mem_append_left _ hp, hr⟩
  · exact authored_goto h hk .entered
  · intro x hx
    rcases List.mem_append.1 hx with hx | hx
    · exact authored_goto h hk .finished x hx
    · obtain rfl := List.mem_singleton.1 hx
      exact ⟨⟨x, .finished⟩, List.mem_of_getElem? (get_set hk _), rfl⟩
  · exact authored_goto h hk S.next
  · exact authored_goto h hk .gone
  · exact authored_goto h hk .goneInside

/-! ### Processes that run once -/

/-- Every process has its body behind it, in the log, or ahead of it. -/
def Once (f : ρ → Bool) (s : State ι ρ δ) : Prop :=
  s.procs.countP (fun p => f p.role) =
    s.bodies.countP f + s.procs.countP fun p => f p.role && p.phase.ahead

omit [DecidableEq ι] in
theorem role_count_set {f : ρ → Bool} {ps : List (Proc ρ)} {k : ℕ} {r : ρ} {ph : Phase}
    (hk : ps[k]? = some ⟨r, ph⟩) (ph' : Phase) :
    (ps.set k ⟨r, ph'⟩).countP (fun p => f p.role) = ps.countP fun p => f p.role := by
  have := countP_set (fun p : Proc ρ => f p.role) hk ⟨r, ph'⟩
  simpa using this

theorem once_step {f : ρ → Bool} (hloops : S.loops = false) (h : Once f s) (he : e.Undisturbed)
    (hstep : S.step s e = some s') : Once f s' := by
  unfold Once at h ⊢
  have hnext : S.next = .gone := by rw [next, hloops, if_neg Bool.false_ne_true]
  obtain ⟨r, -, rfl⟩ | ⟨k, r, sem, -, hk, -, rfl⟩ | ⟨k, r, data, -, hk, -, rfl⟩ |
    ⟨k, r, sem, -, hk, -, rfl⟩ | ⟨k, r, rfl | rfl, -, -⟩ | ⟨k, r, rfl, -, -⟩ :=
    S.step_cases hstep
  · simp only [List.countP_append, List.countP_singleton, Phase.ahead_outside, Bool.and_true]
    omega
  · have hc := countP_set (fun p : Proc ρ => f p.role && p.phase.ahead) hk ⟨r, .entered⟩
    simp only [State.goto_procs, State.goto_bodies, role_count_set hk]
    simp only [Phase.ahead_outside, Phase.ahead_entered, Bool.and_true] at hc
    omega
  · have hc := countP_set (fun p : Proc ρ => f p.role && p.phase.ahead) hk ⟨r, .finished⟩
    simp only [State.goto_procs, role_count_set hk, List.countP_append, List.countP_singleton]
    simp only [Phase.ahead_entered, Phase.ahead_finished, Bool.and_true, Bool.and_false,
      Bool.false_eq_true, if_false] at hc
    omega
  · have hc := countP_set (fun p : Proc ρ => f p.role && p.phase.ahead) hk ⟨r, S.next⟩
    simp only [State.goto_procs, State.goto_bodies, role_count_set hk]
    rw [hnext] at hc ⊢
    simp only [Phase.ahead_finished, Phase.ahead_gone, Bool.and_false, Bool.false_eq_true,
      if_false] at hc
    omega
  · exact he.elim
  · exact he.elim
  · exact he.elim

/-- The steps a process that runs once still has before it. -/
def remaining (p : Proc ρ) : ℕ :=
  match p.phase with
  | .outside => 3
  | .entered => 2
  | .finished => 1
  | .gone | .goneInside => 0

@[simp] theorem remaining_outside (r : ρ) : remaining ⟨r, .outside⟩ = 3 := rfl
@[simp] theorem remaining_entered (r : ρ) : remaining ⟨r, .entered⟩ = 2 := rfl
@[simp] theorem remaining_finished (r : ρ) : remaining ⟨r, .finished⟩ = 1 := rfl
@[simp] theorem remaining_gone (r : ρ) : remaining ⟨r, .gone⟩ = 0 := rfl

def ahead (p : Proc ρ) (_ : Unit) : ℤ := remaining p

def Event.isRun : Event ρ → Bool
  | .run _ => true
  | .spawn _ | .fail _ | .quit _ => false

@[simp] theorem Event.isRun_run (k : ℕ) : (Event.run k : Event ρ).isRun = true := rfl
@[simp] theorem Event.isRun_spawn (r : ρ) : (Event.spawn r).isRun = false := rfl

/-- The steps taken and those still to be taken are three for each process. -/
def Paced (tr : List (State ι ρ δ × Event ρ)) (s : State ι ρ δ) : Prop :=
  (tr.countP (fun p => p.2.isRun) : ℤ) + held ahead s.procs () = 3 * s.procs.length

theorem paced_snoc {tr : List (State ι ρ δ × Event ρ)} (hloops : S.loops = false)
    (h : Paced tr s) (he : e.Undisturbed) (hstep : S.step s e = some s') :
    Paced (tr ++ [(s, e)]) s' := by
  unfold Paced at h ⊢
  have hnext : S.next = .gone := by rw [next, hloops, if_neg Bool.false_ne_true]
  simp only [List.countP_append, List.countP_singleton]
  obtain ⟨r, rfl, rfl⟩ | ⟨k, r, sem, rfl, hk, -, rfl⟩ | ⟨k, r, data, rfl, hk, -, rfl⟩ |
    ⟨k, r, sem, rfl, hk, -, rfl⟩ | ⟨k, r, rfl | rfl, -, -⟩ | ⟨k, r, rfl, -, -⟩ :=
    S.step_cases hstep
  · simp only [held_append, held_singleton, ahead, remaining_outside, Event.isRun_spawn,
      List.length_append, List.length_singleton, Bool.false_eq_true, if_false]
    push_cast
    linarith
  · simp only [State.goto_procs, held_set _ hk, ahead, remaining_outside, remaining_entered,
      Event.isRun_run, List.length_set, if_true]
    push_cast
    linarith
  · simp only [State.goto_procs, held_set _ hk, ahead, remaining_entered, remaining_finished,
      Event.isRun_run, List.length_set, if_true]
    push_cast
    linarith
  · simp only [State.goto_procs, held_set _ hk, hnext, ahead, remaining_finished, remaining_gone,
      Event.isRun_run, List.length_set, if_true]
    push_cast
    linarith
  · exact he.elim
  · exact he.elim
  · exact he.elim

/-- Undisturbed processes that run once take three steps each at the most. -/
theorem runs_le {sem₀ : ι → ℕ} {data : δ} {tr : List (State ι ρ δ × Event ρ)}
    (hloops : S.loops = false) (h : Run S.step (.init sem₀ data) tr s)
    (hok : EachStep (fun _ e => e.Undisturbed) tr) :
    tr.countP (fun p => p.2.isRun) ≤ 3 * s.procs.length := by
  have hpaced : Paced tr s := by
    induction h with
    | nil => simp [Paced, State.init]
    | snoc _ he ih =>
      obtain ⟨hok, hoke⟩ := eachStep_snoc.1 hok
      exact S.paced_snoc hloops (ih hok) hoke he
  have hahead : ∀ p : Proc ρ, 0 ≤ ahead p () := fun p => Int.natCast_nonneg _
  have := held_nonneg hahead s.procs
  unfold Paced at hpaced
  omega

end Section

end OsLabs
