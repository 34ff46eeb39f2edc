import OsLabs.Proofs.SeatsSnapshot
import OsLabs.Proofs.SeatsBooking
import OsLabs.Spec.SeatsSerial

/-! When the seat servers answer as if they took their clients one after the other. -/

namespace OsLabs.Seats

variable {v : Server} {s s' : State} {e : Event} {k : ℕ} {h : Handler}
  {tr : List (State × Event)}

/-- A writer about to store has read the cell of its index, and the cell holds what it held
then or is sold. -/
def Phase.ReadFrom (shmBuf : Fin SHM_BUFFER_SIZE → Char) : Phase → Prop
  | .store idx cell ch => idx = cell.val ∧ (shmBuf cell = ch ∨ shmBuf cell = '-')
  | _ => True

def Loaded (s : State) : Prop := ∀ h ∈ s.handlers, h.phase.ReadFrom s.shmBuf

theorem Phase.ReadFrom.sold {ph : Phase} {shmBuf : Fin SHM_BUFFER_SIZE → Char}
    (h : ph.ReadFrom shmBuf) (cell : Fin SHM_BUFFER_SIZE) :
    ph.ReadFrom (Function.update shmBuf cell '-') := by
  cases ph with
  | store idx c ch =>
    refine ⟨h.1, ?_⟩
    rw [Function.update_apply]
    split_ifs
    · exact .inr rfl
    · exact h.2
  | _ => trivial

theorem run_handler (hr : run v s k h = some s') :
    ∃ g, s'.handlers = s.handlers.set k g ∧
      ((∀ shmBuf, g.phase.ReadFrom shmBuf) ∨
        ∃ idx cell, g.phase = .store idx cell (s.shmBuf cell) ∧ idx = cell.val ∧
          s'.shmBuf = s.shmBuf) := by
  unfold run at hr
  cases hp : h.phase <;> simp only [hp, reduceCtorEq] at hr
  case startWrite idx =>
    obtain ⟨sem, -, rfl⟩ := Option.map_eq_some_iff.1 hr
    exact ⟨_, rfl, .inl fun _ => trivial⟩
  case load idx =>
    split_ifs at hr with hi
    · obtain rfl := Option.some.inj hr
      refine ⟨_, rfl, .inr ⟨idx, _, rfl, ?_, rfl⟩⟩
      exact (Int.toNat_of_nonneg hi.1).symm
    · obtain rfl := Option.some.inj hr
      exact ⟨_, rfl, .inl fun _ => trivial⟩
  case store idx cell ch =>
    split_ifs at hr
    · obtain rfl := Option.some.inj hr
      exact ⟨_, rfl, .inl fun _ => trivial⟩
    · obtain rfl := Option.some.inj hr
      exact ⟨_, rfl, .inl fun _ => trivial⟩
  case send idx reply =>
    obtain rfl := Option.some.inj hr
    refine ⟨_, rfl, .inl fun _ => ?_⟩
    dsimp only
    split_ifs <;> trivial
  case stopWrite =>
    obtain ⟨sem, -, rfl⟩ := Option.map_eq_some_iff.1 hr
    exact ⟨_, rfl, .inl fun _ => trivial⟩
  case startRead =>
    obtain ⟨sem, -, rfl⟩ := Option.map_eq_some_iff.1 hr
    exact ⟨_, rfl, .inl fun _ => trivial⟩
  case copy buffer =>
    obtain rfl := Option.some.inj hr
    refine ⟨_, rfl, .inl fun _ => ?_⟩
    rcases copyNext_phase s.shmBuf buffer with ⟨b, hb⟩ | ⟨b, hb⟩ <;> rw [hb] <;> trivial
  case sendBuf buffer =>
    obtain rfl := Option.some.inj hr
    exact ⟨_, rfl, .inl fun _ => trivial⟩
  case stopRead =>
    obtain ⟨sem, -, rfl⟩ := Option.map_eq_some_iff.1 hr
    exact ⟨_, rfl, .inl fun _ => trivial⟩

theorem loaded_step (hl : Loaded s) (hs : step v s e = some s') : Loaded s' := by
  have hold : ∀ h ∈ s.handlers, h.phase.ReadFrom s'.shmBuf := by
    intro h hh
    rcases shmBuf_step hs with hbuf | ⟨-, -, -, cell, -, -, hbuf⟩
    · rw [hbuf]
      exact hl h hh
    · rw [hbuf]
      exact (hl h hh).sold cell
  have hset : ∀ k g, g.phase.ReadFrom s'.shmBuf →
      ∀ h ∈ s.handlers.set k g, h.phase.ReadFrom s'.shmBuf := by
    intro k g hg h hh
    rcases List.mem_or_eq_of_mem_set hh with hh | rfl
    · exact hold h hh
    · exact hg
  unfold Loaded
  rcases step_cases hs with ⟨-, rfl⟩ | ⟨k, h, -, ⟨op, -, -, rfl⟩ | ⟨idx, -, -, rfl⟩ | ⟨-, hr⟩ |
    ⟨-, hf⟩⟩
  · rw [List.forall_mem_append]
    exact ⟨hold, fun h hh => by rw [List.mem_singleton.1 hh]; trivial⟩
  · apply hset
    rcases dispatch_phase h op with hd | hd | hd <;> rw [hd] <;> trivial
  · apply hset
    rcases dispatchIdx_phase h idx with hd | ⟨i, hd⟩ <;> rw [hd] <;> trivial
  · obtain ⟨g, hhandlers, hg⟩ := run_handler hr
    rw [hhandlers]
    apply hset
    rcases hg with hg | ⟨idx, cell, hp, hidx, hbuf⟩
    · exact hg _
    · rw [hp, hbuf]
      exact ⟨hidx, .inl rfl⟩
  · obtain ⟨rfl, -⟩ := fail_cases hf
    exact hset _ _ trivial

theorem snap_run (h : Run (step v) init tr s) : Snap s :=
  h.invariant snap_init fun _ _ _ hi he => snap_step hi he

theorem loaded_run (h : Run (step v) init tr s) : Loaded s :=
  h.invariant (by simp [Loaded, init]) fun _ _ _ hi he => loaded_step hi he

/-! ### The points -/

theorem point_cases {a : Ask} {o : Answer} (hp : point v s e = some ((k, a), o)) :
    ∃ h, e = .run k ∧ s.handlers[k]? = some h ∧
      ((∃ idx, h.phase = .load idx ∧ ¬ (0 ≤ idx ∧ idx < SHM_BUFFER_SIZE) ∧ a = .write idx ∧
          o = .reply (.error (badIndexText v))) ∨
        (∃ idx cell ch, h.phase = .store idx cell ch ∧ a = .write idx ∧
          o = .reply (if ch = '-' then .error occupiedText else .symbol ch)) ∨
        ∃ buffer, h.phase = .sendBuf buffer ∧ a = .read ∧ o = .buf buffer) := by
  cases e with
  | run j =>
    obtain ⟨h, hj, hp⟩ := Option.bind_eq_some_iff.1 hp
    cases hph : h.phase <;> simp only [hph, reduceCtorEq] at hp
    case load idx =>
      split_ifs at hp with hi
      obtain ⟨⟨rfl, rfl⟩, rfl⟩ := (by simpa using hp : (j = k ∧ .write idx = a) ∧ _ = o)
      exact ⟨h, rfl, hj, .inl ⟨idx, hph, hi, rfl, rfl⟩⟩
    case store idx cell ch =>
      obtain ⟨⟨rfl, rfl⟩, rfl⟩ := (by simpa using hp : (j = k ∧ .write idx = a) ∧ _ = o)
      exact ⟨h, rfl, hj, .inr (.inl ⟨idx, cell, ch, hph, rfl, rfl⟩)⟩
    case sendBuf buffer =>
      obtain ⟨⟨rfl, rfl⟩, rfl⟩ := (by simpa using hp : (j = k ∧ .read = a) ∧ _ = o)
      exact ⟨h, rfl, hj, .inr (.inr ⟨buffer, hph, rfl, rfl⟩)⟩
  | _ => cases hp

theorem point_store {idx : ℤ} {cell : Fin SHM_BUFFER_SIZE} {ch : Char}
    (hk : s.handlers[k]? = some h) (hp : h.phase = .store idx cell ch) :
    point v s (.run k) = some ((k, .write idx),
      .reply (if ch = '-' then .error occupiedText else .symbol ch)) := by
  simp [point, hk, hp]

/-- A step that is no point does nothing to the buffer. -/
theorem quiet_step (hs : step v s e = some s') (hp : point v s e = none) :
    s'.shmBuf = s.shmBuf ∧ Fresh s e := by
  refine ⟨?_, ?_⟩
  · rcases step_cases hs with ⟨-, rfl⟩ | ⟨k, h, hk, ⟨op, -, -, rfl⟩ | ⟨idx, -, -, rfl⟩ |
      ⟨rfl, hr⟩ | ⟨-, hf⟩⟩
    · rfl
    · rfl
    · rfl
    · rcases run_cases hr with ⟨idx, sem, -, -, rfl⟩ | ⟨sem, -, -, rfl⟩ | ⟨sem, -, rfl⟩ |
        ⟨idx, cell, -, rfl⟩ | ⟨idx, text, -, rfl⟩ | ⟨idx, cell, ch, hstore, -, rfl⟩ |
        ⟨idx, reply, -, rfl⟩ | ⟨buffer, -, rfl⟩ | ⟨buffer, -, rfl⟩
      any_goals rfl
      rw [point_store hk hstore] at hp
      cases hp
    · obtain ⟨rfl, -⟩ := fail_cases hf
      rfl
  · rintro k h idx cell ch rfl hk hstore
    rw [point_store hk hstore] at hp
    cases hp

theorem serveAlone_cell (shmBuf : Fin SHM_BUFFER_SIZE → Char) (cell : Fin SHM_BUFFER_SIZE) :
    serveAlone v shmBuf (.write cell.val) =
      if shmBuf cell = '-' then (shmBuf, .reply (.error occupiedText))
      else (Function.update shmBuf cell '-', .reply (.symbol (shmBuf cell))) := by
  have hin : (0 : ℤ) ≤ cell.val ∧ (cell.val : ℤ) < SHM_BUFFER_SIZE := by omega
  rw [serveAlone, dif_pos hin]
  rfl

/-- At a point the buffer changes as it does for a client alone, and the answer is the one due
unless the writer stores what it has read too long ago. -/
theorem point_step {i : ℕ × Ask} {o : Answer} (hsnap : Snap s) (hl : Loaded s)
    (hs : step v s e = some s') (hp : point v s e = some (i, o)) :
    s'.shmBuf = (serveAlone v s.shmBuf i.2).1 ∧
      ((serveAlone v s.shmBuf i.2).2 = o ↔ Fresh s e) := by
  obtain ⟨k, a⟩ := i
  obtain ⟨h, rfl, hk, hcases⟩ := point_cases hp
  have hmem := List.mem_of_getElem? hk
  have hfresh : Fresh s (.run k) ↔ ∀ idx cell ch, h.phase = .store idx cell ch →
      s.shmBuf cell = ch := by
    constructor
    · intro hf idx cell ch hph
      exact hf k h idx cell ch rfl hk hph
    · rintro hf j g idx cell ch hj hg hph
      obtain rfl := Event.run.inj hj
      obtain rfl : h = g := Option.some.inj (hk.symm.trans hg)
      exact hf idx cell ch hph
  have hr : run v s k h = some s' := by
    obtain ⟨g, hg, hr⟩ := Option.bind_eq_some_iff.1 hs
    obtain rfl : h = g := Option.some.inj (hk.symm.trans hg)
    exact hr
  rw [hfresh]
  unfold run at hr
  rcases hcases with ⟨idx, hph, hout, rfl, rfl⟩ | ⟨idx, cell, ch, hph, rfl, rfl⟩ |
    ⟨buffer, hph, rfl, rfl⟩
  · simp only [hph, dif_neg hout] at hr
    obtain rfl := Option.some.inj hr
    simp [serveAlone, dif_neg hout, State.goto, hph]
  · obtain ⟨rfl, hread⟩ : idx = cell.val ∧ (s.shmBuf cell = ch ∨ s.shmBuf cell = '-') := by
      have := hl h hmem
      rwa [hph] at this
    have hcell : (∀ idx c x, Phase.store cell.val cell ch = .store idx c x → s.shmBuf c = x) ↔
        s.shmBuf cell = ch := by
      constructor
      · intro hf
        exact hf _ _ _ rfl
      · rintro hf idx c x hstore
        obtain ⟨-, rfl, rfl⟩ := Phase.store.inj hstore
        exact hf
    rw [hph, hcell, serveAlone_cell]
    simp only [hph] at hr
    by_cases hch : ch = '-'
    · have hsold : s.shmBuf cell = '-' := hread.elim (fun h => h.trans hch) id
      rw [if_pos hch] at hr
      obtain rfl := Option.some.inj hr
      rw [if_pos hsold, if_pos hch, hch]
      exact ⟨rfl, iff_of_true rfl hsold⟩
    · rw [if_neg hch] at hr
      obtain rfl := Option.some.inj hr
      rw [if_neg hch]
      rcases hread with rfl | hsold
      · rw [if_neg hch]
        exact ⟨rfl, iff_of_true rfl rfl⟩
      -- sold again: the cell stays as it is, but alone the client would be told so
      · rw [if_pos hsold]
        refine ⟨Function.update_eq_self_iff.2 hsold.symm, iff_of_false (by simp) ?_⟩
        rw [hsold]
        exact Ne.symm hch
  · simp only [hph] at hr
    obtain rfl := Option.some.inj hr
    have hcopied := hsnap.copied h hmem
    rw [hph] at hcopied
    obtain rfl : buffer = List.ofFn s.shmBuf := hcopied
    simp [serveAlone, State.goto, hph]

/-! ### Whose answers they are -/

def whos (v : Server) (tr : List (State × Event)) : List ℕ :=
  (effects (point v) tr).map fun p => p.1.1

theorem Asked.later {a : Ask} (h : Asked tr k a) (tr' : List (State × Event)) :
    Asked (tr ++ tr') k a := by
  cases a with
  | read =>
    obtain ⟨s, hmem⟩ := h
    exact ⟨s, List.mem_append_left _ hmem⟩
  | write idx =>
    obtain ⟨s, i, hmem, hi⟩ := h
    exact ⟨s, i, List.mem_append_left _ hmem, hi⟩

/-- Where a handler stands tells what was asked of it, and whether it has its answer. -/
def Phase.Told (v : Server) (tr : List (State × Event)) (k : ℕ) : Phase → Prop
  | .recvOp | .recvIdx => k ∉ whos v tr
  | .startRead | .copy _ | .sendBuf _ => k ∉ whos v tr ∧ Asked tr k .read
  | .startWrite idx | .load idx | .store idx _ _ => k ∉ whos v tr ∧ Asked tr k (.write idx)
  | .send idx reply => ((k, .write idx), .reply reply) ∈ effects (point v) tr
  | .stopWrite | .stopRead | .done => True

theorem notMem_whos_snoc (hk : k ∉ whos v tr) (hp : ∀ a o, point v s e ≠ some ((k, a), o)) :
    k ∉ whos v (tr ++ [(s, e)]) := by
  rw [whos, effects_snoc, List.map_append, List.mem_append]
  rintro (hmem | hmem)
  · exact hk hmem
  · obtain ⟨⟨⟨j, a⟩, o⟩, hpoint, rfl⟩ := List.mem_map.1 hmem
    exact hp a o (Option.mem_toList.1 hpoint)

theorem Phase.Told.later {ph : Phase} (h : ph.Told v tr k)
    (hp : ∀ a o, point v s e ≠ some ((k, a), o)) : ph.Told v (tr ++ [(s, e)]) k := by
  cases ph with
  | recvOp => exact notMem_whos_snoc h hp
  | recvIdx => exact notMem_whos_snoc h hp
  | startRead => exact ⟨notMem_whos_snoc h.1 hp, h.2.later _⟩
  | copy buffer => exact ⟨notMem_whos_snoc h.1 hp, h.2.later _⟩
  | sendBuf buffer => exact ⟨notMem_whos_snoc h.1 hp, h.2.later _⟩
  | startWrite idx => exact ⟨notMem_whos_snoc h.1 hp, h.2.later _⟩
  | load idx => exact ⟨notMem_whos_snoc h.1 hp, h.2.later _⟩
  | store idx cell ch => exact ⟨notMem_whos_snoc h.1 hp, h.2.later _⟩
  | send idx reply =>
    show _ ∈ effects (point v) (tr ++ [(s, e)])
    rw [effects_append]
    exact List.mem_append_left _ h
  | stopWrite => trivial
  | stopRead => trivial
  | done => trivial

theorem mem_effects_snoc {p : (ℕ × Ask) × Answer} (hp : point v s e = some p) :
    p ∈ effects (point v) (tr ++ [(s, e)]) := by
  rw [effects_snoc, hp]
  exact List.mem_append_right _ (List.mem_singleton_self p)

theorem told_run (ht : h.phase.Told v tr k) (hk : s.handlers[k]? = some h)
    (hr : run v s k h = some s') :
    ∃ g, s'.handlers = s.handlers.set k g ∧ g.phase.Told v (tr ++ [(s, .run k)]) k := by
  unfold run at hr
  cases hp : h.phase <;> simp only [hp, reduceCtorEq] at hr <;> rw [hp] at ht
  case startWrite idx =>
    obtain ⟨sem, -, rfl⟩ := Option.map_eq_some_iff.1 hr
    have ht : (Phase.load idx).Told v tr k := ht
    exact ⟨_, rfl, ht.later (by simp [point, hk, hp])⟩
  case load idx =>
    split_ifs at hr with hi
    · obtain rfl := Option.some.inj hr
      have ht (cell ch) : (Phase.store idx cell ch).Told v tr k := ht
      exact ⟨_, rfl, (ht _ _).later (by simp [point, hk, hp, hi])⟩
    · obtain rfl := Option.some.inj hr
      exact ⟨_, rfl, mem_effects_snoc (by simp [point, hk, hp, hi])⟩
  case store idx cell ch =>
    split_ifs at hr with hch
    · obtain rfl := Option.some.inj hr
      exact ⟨_, rfl, mem_effects_snoc (by simp [point, hk, hp, hch])⟩
    · obtain rfl := Option.some.inj hr
      exact ⟨_, rfl, mem_effects_snoc (by simp [point, hk, hp, hch])⟩
  case send idx reply =>
    obtain rfl := Option.some.inj hr
    refine ⟨_, rfl, ?_⟩
    dsimp only
    split_ifs <;> trivial
  case stopWrite =>
    obtain ⟨sem, -, rfl⟩ := Option.map_eq_some_iff.1 hr
    exact ⟨_, rfl, trivial⟩
  case startRead =>
    obtain ⟨sem, -, rfl⟩ := Option.map_eq_some_iff.1 hr
    have ht : (Phase.copy []).Told v tr k := ht
    exact ⟨_, rfl, ht.later (by simp [point, hk, hp])⟩
  case copy buffer =>
    obtain rfl := Option.some.inj hr
    refine ⟨_, rfl, ?_⟩
    have hquiet : ∀ a o, point v s (.run k) ≠ some ((k, a), o) := by simp [point, hk, hp]
    dsimp only
    rcases copyNext_phase s.shmBuf buffer with ⟨b, hb⟩ | ⟨b, hb⟩ <;> rw [hb]
    · have ht : (Phase.copy b).Told v tr k := ht
      exact ht.later hquiet
    · have ht : (Phase.sendBuf b).Told v tr k := ht
      exact ht.later hquiet
  case sendBuf buffer =>
    obtain rfl := Option.some.inj hr
    exact ⟨_, rfl, trivial⟩
  case stopRead =>
    obtain ⟨sem, -, rfl⟩ := Option.map_eq_some_iff.1 hr
    exact ⟨_, rfl, trivial⟩

theorem told_dispatch (ht : k ∉ whos v tr) (op : Option Char) :
    (dispatch h op).phase.Told v (tr ++ [(s, .recvOp k op)]) k := by
  have hnot : k ∉ whos v (tr ++ [(s, .recvOp k op)]) := notMem_whos_snoc ht (by simp [point])
  unfold dispatch
  split
  · trivial
  · exact ⟨hnot, s, List.mem_append_right _ (List.mem_singleton_self _)⟩
  · exact hnot
  · trivial

theorem told_dispatchIdx (ht : k ∉ whos v tr) (idx : Option Int8) :
    (dispatchIdx h idx).phase.Told v (tr ++ [(s, .recvIdx k idx)]) k := by
  cases idx with
  | none => trivial
  | some i =>
    refine ⟨notMem_whos_snoc ht (by simp [point]), s, i, ?_, rfl⟩
    exact List.mem_append_right _ (List.mem_singleton_self _)

theorem replied_step (hs : step v s e = some s') :
    s'.sent = s.sent ∨ ∃ k h idx reply, s.handlers[k]? = some h ∧ h.phase = .send idx reply ∧
      s'.sent = s.sent ++ [(k, reply)] := by
  rcases step_cases hs with ⟨-, rfl⟩ | ⟨k, h, hk, hs⟩
  · exact .inl rfl
  rcases hs with ⟨op, -, -, rfl⟩ | ⟨idx, -, -, rfl⟩ | ⟨-, hr⟩ | ⟨-, hf⟩
  · exact .inl rfl
  · exact .inl rfl
  · rcases run_cases hr with ⟨idx, sem, -, -, rfl⟩ | ⟨sem, -, -, rfl⟩ | ⟨sem, -, rfl⟩ |
      ⟨idx, cell, -, rfl⟩ | ⟨idx, text, -, rfl⟩ | ⟨idx, cell, ch, -, -, rfl⟩ |
      ⟨idx, reply, hp, rfl⟩ | ⟨buffer, -, rfl⟩ | ⟨buffer, -, rfl⟩
    · exact .inl rfl
    · exact .inl rfl
    · exact .inl rfl
    · exact .inl rfl
    · exact .inl rfl
    · exact .inl rfl
    · exact .inr ⟨k, h, idx, reply, hk, hp, rfl⟩
    · exact .inl rfl
    · exact .inl rfl
  · obtain ⟨rfl, -⟩ := fail_cases hf
    exact .inl rfl

/-- Every handler has one answer at most, to what its client asked, and sends no other. -/
structure Served (v : Server) (tr : List (State × Event)) (s : State) : Prop where
  told : ∀ (k : ℕ) (h : Handler), s.handlers[k]? = some h → h.phase.Told v tr k
  unborn : ∀ k, s.handlers.length ≤ k → k ∉ whos v tr
  nodup : (whos v tr).Nodup
  asked : ∀ p ∈ effects (point v) tr, Asked tr p.1.1 p.1.2
  sent : ∀ k reply, (k, reply) ∈ s.sent →
    ∃ idx, ((k, .write idx), .reply reply) ∈ effects (point v) tr
  sentBuf : ∀ k buffer, (k, buffer) ∈ s.sentBuf →
    ((k, .read), .buf buffer) ∈ effects (point v) tr

theorem served_init : Served v [] init :=
  ⟨by simp [init], by simp [whos, effects], List.nodup_nil, by simp [effects], by simp [init],
    by simp [init]⟩

theorem Served.at_point {a : Ask} {o : Answer} (h : Served v tr s)
    (hp : point v s e = some ((k, a), o)) : k ∉ whos v tr ∧ Asked tr k a := by
  obtain ⟨g, rfl, hk, ⟨idx, hph, -, rfl, -⟩ | ⟨idx, cell, ch, hph, rfl, -⟩ |
    ⟨buffer, hph, rfl, -⟩⟩ := point_cases hp
  · have ht := h.told k g hk
    rw [hph] at ht
    exact ht
  · have ht := h.told k g hk
    rw [hph] at ht
    exact ht
  · have ht := h.told k g hk
    rw [hph] at ht
    exact ht

theorem Served.told_set (hserved : Served v tr s) {g : Handler}
    (hother : ∀ j, j ≠ k → ∀ a o, point v s e ≠ some ((j, a), o))
    (hg : g.phase.Told v (tr ++ [(s, e)]) k) :
    ∀ (j : ℕ) (h : Handler), (s.handlers.set k g)[j]? = some h → h.phase.Told v (tr ++ [(s, e)]) j := by
  intro j h hj
  rw [List.getElem?_set] at hj
  split_ifs at hj with hkj
  · obtain rfl := Option.some.inj hj
    rw [← hkj]
    exact hg
  · exact (hserved.told j h hj).later (hother j (Ne.symm hkj))

theorem Served.told_step (hserved : Served v tr s) (hs : step v s e = some s') :
    ∀ (k : ℕ) (h : Handler), s'.handlers[k]? = some h → h.phase.Told v (tr ++ [(s, e)]) k := by
  rcases step_cases hs with ⟨rfl, rfl⟩ | ⟨k, h, hk, hs⟩
  · intro j g hj
    rw [List.getElem?_append] at hj
    split_ifs at hj with hold
    · exact (hserved.told j g hj).later (by simp [point])
    · obtain rfl := List.mem_singleton.1 (List.mem_of_getElem? hj)
      exact notMem_whos_snoc (hserved.unborn j (Nat.le_of_not_lt hold)) (by simp [point])
  have ht := hserved.told k h hk
  rcases hs with ⟨op, rfl, hp, rfl⟩ | ⟨idx, rfl, hp, rfl⟩ | ⟨rfl, hr⟩ | ⟨rfl, hf⟩
  · rw [hp] at ht
    exact hserved.told_set (by simp [point]) (told_dispatch ht op)
  · rw [hp] at ht
    exact hserved.told_set (by simp [point]) (told_dispatchIdx ht idx)
  · obtain ⟨g, hhandlers, hg⟩ := told_run ht hk hr
    rw [hhandlers]
    apply hserved.told_set _ hg
    intro j hj a o hpoint
    obtain ⟨-, hrun, -⟩ := point_cases hpoint
    exact hj (Event.run.inj hrun).symm
  · obtain ⟨rfl, -⟩ := fail_cases hf
    exact hserved.told_set (by simp [point]) trivial

theorem length_step (hs : step v s e = some s') : s.handlers.length ≤ s'.handlers.length := by
  rcases step_cases hs with ⟨-, rfl⟩ | ⟨k, h, -, ⟨op, -, -, rfl⟩ | ⟨idx, -, -, rfl⟩ | ⟨-, hr⟩ |
    ⟨-, hf⟩⟩
  · simp
  · simp
  · simp
  · obtain ⟨g, hhandlers, -⟩ := run_handler hr
    simp [hhandlers]
  · obtain ⟨rfl, -⟩ := fail_cases hf
    simp [State.goto]

theorem served_step (h : Served v tr s) (hs : step v s e = some s') :
    Served v (tr ++ [(s, e)]) s' := by
  constructor
  case told => exact h.told_step hs
  case unborn =>
    intro k hk
    have hold := (length_step hs).trans hk
    apply notMem_whos_snoc (h.unborn k hold)
    intro a o hp
    obtain ⟨g, -, hg, -⟩ := point_cases hp
    rw [List.getElem?_eq_none hold] at hg
    cases hg
  case nodup =>
    rw [whos, effects_snoc, List.map_append]
    cases hp : point v s e with
    | none =>
      rw [Option.toList_none, List.map_nil, List.append_nil]
      exact h.nodup
    | some p =>
      refine List.nodup_append.2 ⟨h.nodup, List.pairwise_singleton _ _, ?_⟩
      rintro i hi j hj rfl
      obtain rfl := List.mem_singleton.1 hj
      exact (h.at_point hp).1 hi
  case asked =>
    rw [effects_snoc]
    intro p hmem
    rcases List.mem_append.1 hmem with hmem | hmem
    · exact (h.asked p hmem).later _
    · exact (h.at_point (Option.mem_toList.1 hmem)).2.later _
  case sent =>
    intro k reply hmem
    rw [effects_append]
    rcases replied_step hs with hsent | ⟨j, g, idx, r, hj, hp, hsent⟩
    · rw [hsent] at hmem
      obtain ⟨idx, heff⟩ := h.sent k reply hmem
      exact ⟨idx, List.mem_append_left _ heff⟩
    · rw [hsent] at hmem
      rcases List.mem_append.1 hmem with hmem | hmem
      · obtain ⟨idx, heff⟩ := h.sent k reply hmem
        exact ⟨idx, List.mem_append_left _ heff⟩
      · obtain ⟨rfl, rfl⟩ := Prod.mk.inj (List.mem_singleton.1 hmem)
        have ht := h.told k g hj
        rw [hp] at ht
        exact ⟨idx, List.mem_append_left _ ht⟩
  case sentBuf =>
    intro k buffer hmem
    rcases sentBuf_step hs with hsent | ⟨j, g, b, rfl, hj, hp, hsent⟩
    · rw [hsent] at hmem
      rw [effects_append]
      exact List.mem_append_left _ (h.sentBuf k buffer hmem)
    · rw [hsent] at hmem
      rcases List.mem_append.1 hmem with hmem | hmem
      · rw [effects_append]
        exact List.mem_append_left _ (h.sentBuf k buffer hmem)
      · obtain ⟨rfl, rfl⟩ := Prod.mk.inj (List.mem_singleton.1 hmem)
        exact mem_effects_snoc (by simp [point, hj, hp])

theorem served_run (h : Run (step v) init tr s) : Served v tr s := by
  induction h with
  | nil => exact served_init
  | snoc _ he ih => exact served_step ih he

/-! ### One client at a time -/

/-- Writers that go in one at a time find the cell as they read it. -/
theorem fresh_of_entersAlone (h : Run (step v) init tr s) (ha : EachStep EntersAlone tr) :
    EachStep Fresh tr := by
  have hsold : Always Sold tr s :=
    h.always_of_eachStep sold_init (fun _ _ _ hi ha he => sold_step hi ha he) ha
  intro p hp k g idx cell ch _ hk hph
  exact ((hsold.1 p hp).storing g (List.mem_of_getElem? hk) idx cell ch hph).symm

/-- The buffer is always the one that the clients leave one after the other in the order of
their points. They also get the same answers just when no writer stores what it has read too
long ago, as is the case when writers go in one at a time. Each handler has one answer at most,
to what its client asked, and sends no other, and the order is that of the points: an answer
that was sent is behind nobody who came later. -/
theorem one_at_a_time (v : Server) (h : Run (step v) init tr s) :
    s.shmBuf = after (fun buf i => serveAlone v buf i.2) shmInit
        ((effects (point v) tr).map Prod.fst) ∧
      (answers (fun buf i => serveAlone v buf i.2) shmInit
          ((effects (point v) tr).map Prod.fst) = (effects (point v) tr).map Prod.snd ↔
        EachStep Fresh tr) ∧
      (EachStep EntersAlone tr → EachStep Fresh tr) ∧
      (whos v tr).Nodup ∧ (∀ p ∈ effects (point v) tr, Asked tr p.1.1 p.1.2) ∧
      (∀ k reply, (k, reply) ∈ s.sent →
        ∃ idx, ((k, .write idx), .reply reply) ∈ effects (point v) tr) ∧
      (∀ k buffer, (k, buffer) ∈ s.sentBuf →
        ((k, .read), .buf buffer) ∈ effects (point v) tr) ∧
      ∀ i j, s.answered i → s.handlers.length ≤ j → i ∈ whos v tr ∧ j ∉ whos v tr := by
  have hserved := served_run h
  have hserial := h.one_after_another (point v) (fun buf i => serveAlone v buf i.2) State.shmBuf
    (I := fun s => Snap s ∧ Loaded s) (C := Fresh) ⟨snap_init, by simp [Loaded, init]⟩
    (fun s e s' hi he => ⟨snap_step hi.1 he, loaded_step hi.2 he⟩)
    (fun s e s' _ he hp => quiet_step he hp)
    (fun s e s' i o hi he hp => point_step hi.1 hi.2 he hp)
  refine ⟨hserial.1, hserial.2, fresh_of_entersAlone h, hserved.nodup, hserved.asked,
    hserved.sent, hserved.sentBuf, ?_⟩
  intro i j hi hj
  refine ⟨?_, hserved.unborn j hj⟩
  rcases hi with ⟨reply, hsent⟩ | ⟨buffer, hsent⟩
  · obtain ⟨idx, heff⟩ := hserved.sent i reply hsent
    exact List.mem_map_of_mem (f := fun p => p.1.1) heff
  · exact List.mem_map_of_mem (f := fun p => p.1.1) (hserved.sentBuf i buffer hsent)

/-- Two clients are inside together, for a seat each. -/
def twoSeats : List Event :=
  [.accept, .accept, .recvOp 0 (some 'w'), .recvIdx 0 (some 0), .recvOp 1 (some 'w'),
    .recvIdx 1 (some 1), .run 0, .run 1, .run 0, .run 1, .run 1, .run 0, .run 0, .run 1]

theorem one_at_a_time_twoSeats :
    let tr := trace (step .pthread) init twoSeats
    answers (fun buf i => serveAlone .pthread buf i.2) shmInit [(1, .write 1), (0, .write 0)] =
        [.reply (.symbol 'b'), .reply (.symbol 'a')] ∧ EachStep Fresh tr := by
  have heff : effects (point .pthread) (trace (step .pthread) init twoSeats) =
      [((1, .write 1), .reply (.symbol 'b')), ((0, .write 0), .reply (.symbol 'a'))] := by decide
  have hserial := one_at_a_time .pthread (run_of_isSome init twoSeats (by decide))
  rw [heff] at hserial
  have hanswers : answers (fun buf i => serveAlone .pthread buf i.2) shmInit
      [(1, .write 1), (0, .write 0)] = [.reply (.symbol 'b'), .reply (.symbol 'a')] := by decide
  exact ⟨hanswers, hserial.2.1.1 hanswers⟩

end OsLabs.Seats
