import OsLabs.Sanity.Seats
import Mathlib.Data.Fintype.Basic

/-! Double booking in the seat servers. `start_write` tests `SEM_ACTIVE_READERS`
but not `SEM_ACTIVE_WRITER`, so nothing keeps a second writer out. As long as the
writers happen to go in one at a time, a letter is still in its cell or was
handed out once. -/

namespace OsLabs.Seats

/-- Handlers that hold a symbol they have not sent yet. -/
def Phase.carries (ch : Char) : Phase → Bool
  | .send _ (.symbol c) => c = ch
  | _ => false

/-- Handlers between reading a cell and writing it. -/
def Phase.storing : Phase → Bool
  | .store _ _ _ => true
  | _ => false

/-- How often a symbol has left the buffer, sent or about to be. -/
def given (s : State) (ch : Char) : ℕ :=
  timesSent s ch + s.handlers.countP fun h => h.phase.carries ch

/-- The invariant of the runs whose writers go in one at a time. -/
structure Sold (s : State) : Prop where
  alone : writersInside s ≤ 1
  free : ∀ cell, s.shmBuf cell ≠ '-' → s.shmBuf cell = shmInit cell ∧ given s (shmInit cell) = 0
  once : ∀ ch, given s ch ≤ 1
  storing : ∀ h ∈ s.handlers, ∀ idx cell ch, h.phase = .store idx cell ch → ch = s.shmBuf cell

theorem shmInit_injective : Function.Injective shmInit := by decide +kernel

theorem sold_init : Sold init where
  alone := Nat.zero_le _
  free cell _ := ⟨rfl, rfl⟩
  once ch := Nat.zero_le _
  storing h hh := by simp [init] at hh

theorem Sold.noDoubleBooking {s : State} (hs : Sold s) : NoDoubleBooking s :=
  ⟨hs.alone, fun ch => (Nat.le_add_right _ _).trans (hs.once ch)⟩

variable {s s' : State} {k : ℕ} {h : Handler}

theorem mem_set_storing {shmBuf : Fin SHM_BUFFER_SIZE → Char} {hs : List Handler} {h' : Handler}
    (hold : ∀ h ∈ hs, ∀ idx cell ch, h.phase = .store idx cell ch → ch = shmBuf cell)
    (hnew : ∀ idx cell ch, h'.phase = .store idx cell ch → ch = shmBuf cell) :
    ∀ h ∈ hs.set k h', ∀ idx cell ch, h.phase = .store idx cell ch → ch = shmBuf cell := by
  intro h hh
  rcases List.mem_or_eq_of_mem_set hh with hh | rfl
  · exact hold h hh
  · exact hnew

/-- A handler that moves on without entering as a writer, without touching the
buffer and without taking a symbol. -/
theorem Sold.move (hs : Sold s) (hk : s.handlers[k]? = some h) {h' : Handler}
    (hw : h'.phase.writing = true → h.phase.writing = true)
    (hc : ∀ ch, h'.phase.carries ch = true → h.phase.carries ch = true)
    (hst : ∀ idx cell ch, h'.phase = .store idx cell ch → ch = s.shmBuf cell)
    {sem : Sem → ℕ} {b : List (ℕ × List Char)} :
    Sold ⟨sem, s.shmBuf, s.handlers.set k h', s.sent, b⟩ := by
  have hg (ch : Char) : given ⟨sem, s.shmBuf, s.handlers.set k h', s.sent, b⟩ ch ≤ given s ch :=
    Nat.add_le_add_left (count_le_of_imp (f := fun ph => ph.carries ch) hk (hc ch)) _
  refine ⟨(count_le_of_imp hk hw).trans hs.alone, fun cell hcell => ?_,
    fun ch => (hg ch).trans (hs.once ch), mem_set_storing hs.storing hst⟩
  obtain ⟨hcell, hz⟩ := hs.free cell hcell
  exact ⟨hcell, Nat.le_zero.1 ((hg _).trans hz.le)⟩

theorem Sold.enter (hs : Sold s) (hk : s.handlers[k]? = some h) (h0 : writersInside s = 0)
    {idx : ℤ} (hp : h.phase = .startWrite idx) (sem : Sem → ℕ) :
    Sold (s.lock k h sem (.load idx)) := by
  have hw := count_goto (f := Phase.writing) (a := false) (b := true) hk
    (g := { h with phase := .load idx, locks := h.locks + 1 }) (by rw [hp]; rfl) rfl
  have hg (ch : Char) : given (s.lock k h sem (.load idx)) ch ≤ given s ch :=
    Nat.add_le_add_left (count_le_of_imp (f := fun ph => ph.carries ch) hk (by simp [Phase.carries])) _
  refine ⟨?_, fun cell hcell => ?_, fun ch => (hg ch).trans (hs.once ch),
    mem_set_storing hs.storing (by simp)⟩
  · unfold writersInside at h0
    exact (hw.trans (by rw [h0]; rfl)).le
  · obtain ⟨hcell, hz⟩ := hs.free cell hcell
    exact ⟨hcell, Nat.le_zero.1 ((hg _).trans hz.le)⟩

/-- The only writer inside takes the symbol it read. -/
theorem Sold.take (hs : Sold s) (hk : s.handlers[k]? = some h) {idx : ℤ}
    {cell : Fin SHM_BUFFER_SIZE} {ch : Char} (hp : h.phase = .store idx cell ch)
    (hne : ch ≠ '-') :
    Sold { s.goto k h (.send idx (.symbol ch)) with
      shmBuf := Function.update s.shmBuf cell '-' } := by
  have hch := hs.storing h (List.mem_of_getElem? hk) idx cell ch hp
  obtain ⟨hinit, hz⟩ := hs.free cell (by rwa [← hch])
  rw [← hinit, ← hch] at hz
  have hg (c : Char) : given { s.goto k h (.send idx (.symbol ch)) with
      shmBuf := Function.update s.shmBuf cell '-' } c = given s c + if c = ch then 1 else 0 := by
    have hc := count_goto (f := fun ph => ph.carries c) (a := false) (b := ch = c) hk
      (g := { h with phase := .send idx (.symbol ch) }) (by simp [hp, Phase.carries]) rfl
    have hb : (decide (ch = c)).toNat = if c = ch then 1 else 0 := by
      by_cases hcc : ch = c
      · simp [hcc]
      · simp [hcc, Ne.symm hcc]
    rw [hb, Bool.toNat_false, add_zero] at hc
    unfold given
    rw [add_assoc, ← hc]
    rfl
  refine ⟨?_, fun c hc => ?_, fun c => ?_, fun g hg' => ?_⟩
  · exact (count_le_of_imp (f := Phase.writing) hk
      (g := { h with phase := .send idx (.symbol ch) }) (by simp [hp, Phase.writing])).trans hs.alone
  · by_cases hcc : c = cell
    · subst hcc
      simp at hc
    · simp only [Function.update_of_ne hcc] at hc ⊢
      obtain ⟨hc', hz'⟩ := hs.free c hc
      have hne' : shmInit c ≠ ch := fun he =>
        hcc (shmInit_injective (by rw [he, hch, hinit]))
      exact ⟨hc', by rw [hg, hz', if_neg hne']⟩
  · rw [hg]
    split_ifs with hcc
    · rw [hcc, hz]
    · exact hs.once c
  · -- nobody else is between its load and its store
    have hle := List.countP_mono_left (l := s.handlers)
      (p := fun h => h.phase.storing) (q := fun h => h.phase.writing)
      (fun x _ => by cases x.phase <;> simp [Phase.storing, Phase.writing])
    have hc := count_goto (f := Phase.storing) (a := true) (b := false) hk
      (g := { h with phase := .send idx (.symbol ch) }) (by rw [hp]; rfl) rfl
    have halone := hs.alone
    rw [Bool.toNat_true, Bool.toNat_false] at hc
    unfold writersInside at halone
    have h0 : (s.handlers.set k { h with phase := .send idx (.symbol ch) }).countP
        (fun h => h.phase.storing) = 0 := by omega
    intro i c' ch' hp'
    have := List.countP_eq_zero.1 h0 g hg'
    simp [hp', Phase.storing] at this

theorem Sold.reply (hs : Sold s) (hk : s.handlers[k]? = some h) {idx : ℤ} {reply : Reply}
    (hp : h.phase = .send idx reply) {ph : Phase} (hph : ph = .stopWrite ∨ ph = .done) :
    Sold { s.goto k h ph with sent := s.sent ++ [(k, reply)] } := by
  have hg (ch : Char) : given { s.goto k h ph with sent := s.sent ++ [(k, reply)] } ch =
      given s ch := by
    have hc := count_goto (f := fun ph => ph.carries ch) (a := reply = .symbol ch) (b := false) hk
      (g := { h with phase := ph })
      (by rw [hp]; cases reply <;> simp [Phase.carries]) (by rcases hph with rfl | rfl <;> rfl)
    have hb : (decide (reply = .symbol ch)).toNat = if reply = .symbol ch then 1 else 0 := by
      by_cases hr : reply = .symbol ch <;> simp [hr]
    rw [hb, Bool.toNat_false, add_zero] at hc
    unfold given timesSent
    simp only [goto_handlers, List.countP_append, List.countP_singleton, decide_eq_true_eq]
    omega
  refine ⟨?_, fun cell hcell => ?_, fun ch => ?_, ?_⟩
  · exact (count_le_of_imp (f := Phase.writing) hk (g := { h with phase := ph })
      (by simp [hp, Phase.writing])).trans hs.alone
  · obtain ⟨hcell, hz⟩ := hs.free cell hcell
    exact ⟨hcell, by rw [hg, hz]⟩
  · rw [hg]
    exact hs.once ch
  · apply mem_set_storing hs.storing
    rcases hph with rfl | rfl <;> simp

variable {v : Server} {e : Event}

theorem sold_run (hs : Sold s) (hk : s.handlers[k]? = some h)
    (ha : ∀ idx, h.phase = .startWrite idx → writersInside s = 0)
    (hr : run v s k h = some s') : Sold s' := by
  rcases run_cases hr with ⟨idx, sem, hp, -, rfl⟩ | ⟨sem, hp, -, rfl⟩ |
    ⟨sem, -, rfl⟩ | ⟨idx, cell, hp, rfl⟩ | ⟨idx, text, hp, rfl⟩ |
    ⟨idx, cell, ch, hp, hne, rfl⟩ | ⟨idx, reply, hp, rfl⟩ | ⟨buffer, hp, rfl⟩ | ⟨buffer, hp, rfl⟩
  · exact hs.enter hk (ha idx hp) hp sem
  · exact hs.move hk (by simp [Phase.writing]) (by simp [Phase.carries]) (by simp)
  · exact hs.move hk (by simp [Phase.writing]) (by simp [Phase.carries]) (by simp)
  · exact hs.move hk (by simp [hp, Phase.writing]) (by simp [Phase.carries]) (by simp_all)
  · refine hs.move hk ?_ (by simp [Phase.carries]) (by simp)
    rcases hp with hp | ⟨cell, ch, hp⟩ <;> simp [hp, Phase.writing]
  · exact hs.take hk hp hne
  · apply hs.reply hk hp
    split_ifs <;> simp
  · rcases copyNext_phase s.shmBuf buffer with ⟨b, hb⟩ | ⟨b, hb⟩ <;> rw [hb] <;>
      exact hs.move hk (by simp [Phase.writing]) (by simp [Phase.carries]) (by simp)
  · exact hs.move hk (by simp [Phase.writing]) (by simp [Phase.carries]) (by simp)

theorem Sold.accept (hs : Sold s) :
    Sold { s with handlers := s.handlers ++ [⟨.none, .recvOp, 0, 0⟩] } := by
  have hg (ch : Char) :
      given { s with handlers := s.handlers ++ [⟨.none, .recvOp, 0, 0⟩] } ch = given s ch := by
    simp [given, timesSent, Phase.carries]
  refine ⟨?_, fun cell hcell => ?_, fun ch => ?_, fun h hh => ?_⟩
  · have := hs.alone
    simpa [writersInside, Phase.writing] using this
  · rw [hg]
    exact hs.free cell hcell
  · rw [hg]
    exact hs.once ch
  · rcases List.mem_append.1 hh with hh | hh
    · exact hs.storing h hh
    · obtain rfl := List.mem_singleton.1 hh
      simp

theorem sold_step (hs : Sold s) (ha : EntersAlone s e) (hst : step v s e = some s') :
    Sold s' := by
  rcases step_cases hst with ⟨-, rfl⟩ | ⟨k, h, hk, hst⟩
  · exact hs.accept
  rcases hst with ⟨op, -, -, rfl⟩ | ⟨idx, -, -, rfl⟩ | ⟨rfl, hr⟩ | ⟨-, hf⟩
  · rcases dispatch_phase h op with hd | hd | hd <;> rw [hd] <;>
      exact hs.move hk (by simp [Phase.writing]) (by simp [Phase.carries]) (by simp)
  · rcases dispatchIdx_phase h idx with hd | ⟨i, hd⟩ <;> rw [hd] <;>
      exact hs.move hk (by simp [Phase.writing]) (by simp [Phase.carries]) (by simp)
  · exact sold_run hs hk (fun idx hp => ha k h idx rfl hk hp) hr
  · obtain ⟨rfl, -⟩ := fail_cases hf
    exact hs.move hk (by simp [Phase.writing]) (by simp [Phase.carries]) (by simp)

theorem not_noDoubleBooking (ha : ¬ EntersAlone s e) (hst : step v s e = some s') :
    ¬ NoDoubleBooking s' := by
  simp only [EntersAlone, not_forall] at ha
  obtain ⟨k, h, idx, rfl, hk, hp, hpos⟩ := ha
  obtain ⟨h', hk', hr⟩ := Option.bind_eq_some_iff.1 hst
  obtain rfl : h = h' := Option.some.inj (hk.symm.trans hk')
  simp only [run, hp] at hr
  obtain ⟨sem, -, rfl⟩ := Option.map_eq_some_iff.1 hr
  have hw := count_goto (f := Phase.writing) (a := false) (b := true) hk
    (g := { h with phase := .load idx, locks := h.locks + 1 }) (by rw [hp]; rfl) rfl
  intro hbooked
  have hle := hbooked.1
  unfold writersInside at hle hpos
  have : (s.lock k h sem (.load idx)).handlers =
    s.handlers.set k { h with phase := .load idx, locks := h.locks + 1 } := rfl
  rw [this] at hle
  rw [Bool.toNat_false, Bool.toNat_true] at hw
  omega

/-- No two writers are ever inside together and no symbol is sold twice exactly
when each `start_write` of the run found no writer inside. -/
theorem noDoubleBooking_iff_entersAlone (v : Server) {tr : List (State × Event)} {s : State}
    (h : Run (step v) init tr s) : Always NoDoubleBooking tr s ↔ EachStep EntersAlone tr :=
  h.always_iff sold_init (fun _ => Sold.noDoubleBooking) (fun _ _ _ => sold_step)
    fun _ _ _ _ => not_noDoubleBooking

/-- Two clients ask for the first seat; both handlers read it before either
takes it. -/
def sameSeat : List Event :=
  [.accept, .accept, .recvOp 0 (some 'w'), .recvIdx 0 (some 0), .recvOp 1 (some 'w'),
    .recvIdx 1 (some 0), .run 0, .run 1, .run 0, .run 1, .run 0, .run 1, .run 0, .run 1]

theorem noDoubleBooking_fails :
    ¬ ∀ (v : Server) (tr : List (State × Event)) (s : State),
      Run (step v) init tr s → ∀ ch, timesSent s ch ≤ 1 := by
  intro h
  exact absurd (h .pthread _ _ (run_of_isSome init sameSeat (by decide)) 'a') (by decide)

theorem noDoubleBooking_iff_entersAlone_sameSeat :
    Always NoDoubleBooking (trace (step .fork) init sameSeat)
        ((exec (step .fork) init sameSeat).get (by decide)) ↔
      EachStep EntersAlone (trace (step .fork) init sameSeat) :=
  noDoubleBooking_iff_entersAlone .fork (run_of_isSome init sameSeat (by decide))

end OsLabs.Seats
