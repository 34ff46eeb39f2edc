import OsLabs.Proofs.SeatClient
import OsLabs.Spec.ClientLog

/-! When the lines of the timing log are the single letters received. -/

namespace OsLabs.SeatClient

theorem cString_left {bytes array : List Char} (h : bytes <+: array) :
    cString bytes <+: cString array := by
  obtain ⟨rest, rfl⟩ := h
  rw [cString_append]
  split_ifs with hmem
  · exact List.prefix_rfl
  · rw [cString_of_notMem hmem]
    exact List.prefix_append _ _

theorem nonneg_iff {received : List Char} (h : received.length ≤ SHM_BUFFER_SIZE) :
    0 ≤ Int8.ofInt (findFirstUnoccupiedIndex (bufferOf received)) ↔
      ∃ ch ∈ cString received, ch ∈ letters := by
  have hlen : (cString received).length ≤ SHM_BUFFER_SIZE :=
    Nat.le_trans (List.takeWhile_prefix _).length_le h
  rw [findFirstUnoccupiedIndex, cString_bufferOf h]
  cases hfind : (cString received).findIdx? (letters.contains ·) with
  | none =>
    have hnone := List.findIdx?_eq_none_iff.1 hfind
    constructor
    · intro hneg
      exact absurd hneg (by decide)
    · rintro ⟨ch, hch, hletter⟩
      have := hnone ch hch
      simp [hletter] at this
  | some pos =>
    obtain ⟨hpos, hletter, -⟩ := List.findIdx?_eq_some_iff_getElem.1 hfind
    refine ⟨fun _ => ⟨_, List.getElem_mem hpos, by simpa using hletter⟩, fun _ => ?_⟩
    have h52 : pos < 52 := Nat.lt_of_lt_of_le hpos hlen
    have htoInt := Int8.toInt_ofInt_of_le (n := pos) (by omega) (by omega)
    rw [Int8.le_iff_toInt_le, htoInt]
    exact Int.natCast_nonneg pos

namespace Watched

variable {w w' : Watched} {e : Event} {tr : List (Watched × Event)}

theorem step_eq_some (h : w.step e = some w') : Bounded w.client e ∧
    ∃ client, SeatClient.step w.client e = some client ∧ w' = w.note e client := by
  simp only [step] at h
  split_ifs at h with hb
  obtain ⟨client, hc, rfl⟩ := Option.map_eq_some_iff.1 h
  exact ⟨hb, client, hc, rfl⟩

theorem phase_eq {j : ℕ} {t : Thread} (h : w.client.threads[j]? = some t) :
    w.phase j = some t.phase := by
  rw [phase, h]
  rfl

theorem note_other (hrun : ∀ k, e ≠ .run k) (hrecv : ∀ k bytes, e ≠ .recv k (some bytes))
    (client : State) : w.note e client = { w with client } := by
  cases e with
  | run j => exact absurd rfl (hrun j)
  | recv j bytes =>
    cases bytes with
    | none => rfl
    | some bytes => exact absurd rfl (hrecv j bytes)
  | spawn _ | connect _ _ | send _ _ | quit _ => rfl

/-- The moves of the threads, with what is noted of each. -/
theorem step_noted (h : w.step e = some w') :
    (∃ resultBuffer, e = .spawn resultBuffer ∧ w' = { w with
      client := { w.client with
        threads := w.client.threads ++ [⟨.connect, 0, resultBuffer⟩] } }) ∨
    (∃ j t received, e = .recv j (some received) ∧ w.client.threads[j]? = some t ∧
      t.phase = .recvBuf ∧ w' = { w with client := w.client.goto j t (.compute received) }) ∨
    (∃ j t received, e = .run j ∧ w.client.threads[j]? = some t ∧ t.phase = .compute received ∧
      w' = { w with
        client := { w.client.goto j t .reconnect with
          firstUnoccupiedIdx := Int8.ofInt (findFirstUnoccupiedIndex (bufferOf received)) }
        snapshot := some received }) ∨
    (∃ j t received, e = .recv j (some received) ∧ w.client.threads[j]? = some t ∧
      t.phase = .recvResult ∧ w' = { w with
        client := { w.client with
          threads := w.client.threads.set j
            { t with phase := .logTest, resultBuffer := overwrite t.resultBuffer received } }
        reply := Function.update w.reply j received
        singles := if SingleLetter received then w.singles ++ [j] else w.singles }) ∨
    (∃ j t, e = .run j ∧ w.client.threads[j]? = some t ∧ t.phase = .logTest ∧ w' = { w with
      client := { w.client.goto j t .connect with
        log := if w.client.firstUnoccupiedIdx ≥ 0 ∧ (cString t.resultBuffer).length = 1
          then w.client.log ++ [j] else w.client.log } }) ∨
    ∃ j t u, (∀ k, e ≠ .run k) ∧ w.client.threads[j]? = some t ∧ t.phase ≠ .logTest ∧
      u.phase ≠ .logTest ∧ (∀ received, u.phase ≠ .compute received) ∧
        w' = { w with client := { w.client with threads := w.client.threads.set j u } } := by
  obtain ⟨-, client, hc, rfl⟩ := step_eq_some h
  obtain ⟨resultBuffer, rfl, rfl⟩ | ⟨j, t, received, rfl, hj, hp, rfl⟩ |
    ⟨j, t, received, rfl, hj, hp, rfl⟩ | ⟨j, t, received, rfl, hj, hp, rfl⟩ |
    ⟨j, t, rfl, hj, hp, rfl⟩ | ⟨j, t, u, hrun, hrecv, hj, ht, hu, hcomp, rfl⟩ := step_moves hc
  · exact .inl ⟨resultBuffer, rfl, rfl⟩
  · have hphase : w.phase j ≠ some .recvResult := by
      rw [phase_eq hj, hp]
      exact nofun
    exact .inr (.inl ⟨j, t, received, rfl, hj, hp, if_neg hphase⟩)
  · have hphase : w.phase j = some (.compute received) := by rw [phase_eq hj, hp]
    refine .inr (.inr (.inl ⟨j, t, received, rfl, hj, hp, ?_⟩))
    simp only [note, hphase]
  · have hphase : w.phase j = some .recvResult := by rw [phase_eq hj, hp]
    exact .inr (.inr (.inr (.inl ⟨j, t, received, rfl, hj, hp, if_pos hphase⟩)))
  · have hphase : w.phase j = some .logTest := by rw [phase_eq hj, hp]
    refine .inr (.inr (.inr (.inr (.inl ⟨j, t, rfl, hj, hp, ?_⟩))))
    simp only [note, hphase]
  · exact .inr (.inr (.inr (.inr (.inr
      ⟨j, t, u, hrun, hj, ht, hu, hcomp, note_other hrun hrecv _⟩))))

structure Inv (w : Watched) : Prop where
  global : 0 ≤ w.client.firstUnoccupiedIdx ↔ w.LetterLeft
  computing : ∀ t ∈ w.client.threads, ∀ received, t.phase = .compute received →
    received.length ≤ SHM_BUFFER_SIZE
  testing : ∀ (j : ℕ) t, w.client.threads[j]? = some t → t.phase = .logTest →
    w.reply j <+: t.resultBuffer

theorem inv_init : init.Inv where
  global := ⟨fun _ => nofun, fun _ => by decide⟩
  computing := nofun
  testing := nofun

theorem Inv.set (hi : w.Inv) (reply : ℕ → List Char) {j : ℕ} {u : Thread}
    (hcomp : ∀ received, u.phase = .compute received → received.length ≤ SHM_BUFFER_SIZE)
    (htest : u.phase = .logTest → reply j <+: u.resultBuffer)
    (hreply : ∀ k, k ≠ j → reply k = w.reply k) :
    (∀ t ∈ w.client.threads.set j u, ∀ received, t.phase = .compute received →
        received.length ≤ SHM_BUFFER_SIZE) ∧
      ∀ (k : ℕ) t, (w.client.threads.set j u)[k]? = some t → t.phase = .logTest →
        reply k <+: t.resultBuffer := by
  constructor
  · intro t ht
    rcases List.mem_or_eq_of_mem_set ht with ht | rfl
    · exact hi.computing t ht
    · exact hcomp
  · intro k t hk hp
    rw [List.getElem?_set] at hk
    split_ifs at hk with hjk
    · obtain rfl := hjk
      obtain rfl := Option.some.inj hk
      exact htest hp
    · rw [hreply k fun h => hjk h.symm]
      exact hi.testing k t hk hp

theorem inv_step (hi : w.Inv) (h : w.step e = some w') : w'.Inv := by
  have hb := (step_eq_some h).1
  obtain ⟨resultBuffer, rfl, rfl⟩ | ⟨j, t, received, rfl, hj, hp, rfl⟩ |
    ⟨j, t, received, rfl, hj, hp, rfl⟩ | ⟨j, t, received, rfl, hj, hp, rfl⟩ |
    ⟨j, t, rfl, hj, hp, rfl⟩ | ⟨j, t, u, hrun, hj, ht, hu, hcomp, rfl⟩ := step_noted h
  · refine ⟨hi.global, ?_, ?_⟩
    · intro t ht
      rcases List.mem_append.1 ht with ht | ht
      · exact hi.computing t ht
      · obtain rfl := List.mem_singleton.1 ht
        exact nofun
    · intro k t hk hp
      rw [List.getElem?_append] at hk
      split_ifs at hk
      · exact hi.testing k t hk hp
      · obtain rfl := List.mem_singleton.1 (List.mem_of_getElem? hk)
        cases hp
  · have hlen : received.length ≤ SHM_BUFFER_SIZE := by simpa [hp] using hb t hj
    obtain ⟨hcomp, htest⟩ := hi.set w.reply (j := j) (u := { t with phase := .compute received })
      (by rintro _ ⟨⟩; exact hlen) nofun fun _ _ => rfl
    exact ⟨hi.global, hcomp, htest⟩
  · obtain ⟨hcomp, htest⟩ := hi.set w.reply (j := j) (u := { t with phase := .reconnect })
      nofun nofun fun _ _ => rfl
    refine ⟨?_, hcomp, htest⟩
    have hlen := hi.computing t (List.mem_of_getElem? hj) received hp
    rw [LetterLeft]
    simpa using nonneg_iff hlen
  · obtain ⟨hcomp, htest⟩ := hi.set (Function.update w.reply j received) (j := j)
      (u := { t with phase := .logTest, resultBuffer := overwrite t.resultBuffer received }) nofun
      (fun _ => by rw [Function.update_self]; exact List.prefix_append _ _)
      fun k hk => Function.update_of_ne hk _ _
    exact ⟨hi.global, hcomp, htest⟩
  · obtain ⟨hcomp, htest⟩ := hi.set w.reply (j := j) (u := { t with phase := .connect })
      nofun nofun fun _ _ => rfl
    exact ⟨hi.global, hcomp, htest⟩
  · obtain ⟨hcomp, htest⟩ := hi.set w.reply (j := j) (u := u)
      (fun received hr => absurd hr (hcomp received)) (fun h => absurd h hu) fun _ _ => rfl
    exact ⟨hi.global, hcomp, htest⟩

/-- The string in the array has one character exactly when it is the letter received. -/
theorem Inv.strlen_iff (hi : w.Inv) {j : ℕ} {t : Thread} (hj : w.client.threads[j]? = some t)
    (hp : t.phase = .logTest) (hs : SingleLetter (w.reply j)) :
    (cString t.resultBuffer).length = 1 ↔ cString t.resultBuffer = cString (w.reply j) := by
  have hleft := cString_left (hi.testing j t hj hp)
  obtain ⟨ch, -, heq⟩ := hs
  rw [heq] at hleft ⊢
  constructor
  · intro hlen
    exact (hleft.eq_of_length hlen.symm).symm
  · intro h
    rw [h, List.length_singleton]

/-- What the test does: nothing else logs a line. -/
theorem logsBookings_iff (hi : w.Inv) (h : w.step e = some w') :
    w.LogsBookings e ↔ w.Undisturbed e := by
  have hlog : w.LogsBookings e ↔ w'.client.log = w.client.log ++ w.due e := by
    refine ⟨fun hl => hl w' h, fun hl w'' h' => ?_⟩
    obtain rfl := Option.some.inj (h.symm.trans h')
    exact hl
  rw [hlog]
  obtain ⟨resultBuffer, rfl, rfl⟩ | ⟨j, t, received, rfl, hj, hp, rfl⟩ |
    ⟨j, t, received, rfl, hj, hp, rfl⟩ | ⟨j, t, received, rfl, hj, hp, rfl⟩ |
    ⟨j, t, rfl, hj, hp, rfl⟩ | ⟨j, t, u, hrun, hj, ht, hu, hcomp, rfl⟩ := step_noted h
  · exact ⟨fun _ => nofun, fun _ => (List.append_nil _).symm⟩
  · exact ⟨fun _ => nofun, fun _ => (List.append_nil _).symm⟩
  · have hdue : w.due (.run j) = [] := by simp [due, phase_eq hj, hp]
    rw [hdue]
    refine ⟨fun _ k t' he hk hp' => ?_, fun _ => (List.append_nil _).symm⟩
    obtain rfl := Event.run.inj he
    obtain rfl := Option.some.inj (hj.symm.trans hk)
    rw [hp] at hp'
    cases hp'
  · exact ⟨fun _ => nofun, fun _ => (List.append_nil _).symm⟩
  · have hphase : w.phase j = some .logTest := by rw [phase_eq hj, hp]
    have hund : w.Undisturbed (.run j) ↔ if SingleLetter (w.reply j) then
        w.LetterLeft ∧ cString t.resultBuffer = cString (w.reply j)
        else w.LetterLeft → (cString t.resultBuffer).length ≠ 1 := by
      refine ⟨fun hu => hu j t rfl hj hp, fun hu k t' he hk _ => ?_⟩
      obtain rfl := Event.run.inj he
      obtain rfl := Option.some.inj (hj.symm.trans hk)
      exact hu
    have hguard : (w.client.firstUnoccupiedIdx ≥ 0 ∧ (cString t.resultBuffer).length = 1) ↔
        w.LetterLeft ∧ (cString t.resultBuffer).length = 1 := and_congr_left fun _ => hi.global
    rw [hund]
    simp only [due, hphase, true_and]
    by_cases hs : SingleLetter (w.reply j)
    · rw [if_pos hs, if_pos hs, ← hi.strlen_iff hj hp hs, ← hguard]
      split_ifs with hg
      · exact ⟨fun _ => hg, fun _ => rfl⟩
      · exact ⟨fun h => absurd h (by simp), fun h => absurd h hg⟩
    · rw [if_neg hs, if_neg hs, ← not_and, ← hguard]
      split_ifs with hg
      · exact ⟨fun h => absurd h (by simp), fun h => absurd hg h⟩
      · exact ⟨fun _ => hg, fun _ => (List.append_nil _).symm⟩
  · have hdue : w.due e = [] := by
      cases e with
      | run k => exact absurd rfl (hrun k)
      | spawn _ | connect _ _ | send _ _ | recv _ _ | quit _ => rfl
    rw [hdue]
    exact ⟨fun _ k _ he => absurd he (hrun k), fun _ => (List.append_nil _).symm⟩

theorem phase_set {threads : List Thread} {j : ℕ} {t u : Thread} (hj : threads[j]? = some t)
    (k : ℕ) : (threads.set j u)[k]?.map Thread.phase =
      if j = k then some u.phase else threads[k]?.map Thread.phase := by
  obtain ⟨hlt, -⟩ := List.getElem?_eq_some_iff.1 hj
  rw [List.getElem?_set]
  split_ifs <;> simp

theorem testing_set {threads : List Thread} {j : ℕ} {t u : Thread} (hj : threads[j]? = some t)
    (ht : t.phase ≠ .logTest) (hu : u.phase ≠ .logTest) (k : ℕ) :
    (threads.set j u)[k]?.map Thread.phase = some .logTest ↔
      threads[k]?.map Thread.phase = some .logTest := by
  rw [phase_set hj]
  split_ifs with hjk
  · rw [← hjk, hj]
    simp [ht, hu]
  · rfl

theorem due_congr {j : ℕ} (hphase : w'.phase j = some .logTest ↔ w.phase j = some .logTest)
    (hreply : w'.reply j = w.reply j) : w'.due (.run j) = w.due (.run j) := by
  simp only [due, hphase, hreply]

theorem due_eq_nil {j : ℕ} (h : w.phase j ≠ some .logTest) : w.due (.run j) = [] := by
  simp [due, h]

theorem Counted.same (hc : w.Counted) (hlog : w'.client.log = w.client.log)
    (hphase : ∀ j, w'.phase j = some .logTest ↔ w.phase j = some .logTest)
    (hreply : w'.reply = w.reply) (hsingles : w'.singles = w.singles) : w'.Counted := by
  intro j
  rw [hlog, hsingles, due_congr (hphase j) (by rw [hreply])]
  exact hc j

/-- A reply is counted, and its line is due if it is a single letter. -/
theorem Counted.recv (hi : w.Counted) {j : ℕ} {t u : Thread} {received : List Char}
    (hj : w.client.threads[j]? = some t) (ht : t.phase ≠ .logTest) (hu : u.phase = .logTest)
    (hlog : w'.client.log = w.client.log) (hthreads : w'.client.threads = w.client.threads.set j u)
    (hreply : w'.reply = Function.update w.reply j received)
    (hsingles : w'.singles = if SingleLetter received then w.singles ++ [j] else w.singles) :
    w'.Counted := by
  intro k
  have hk := hi k
  have hphase := phase_set (u := u) hj k
  rw [← hthreads] at hphase
  by_cases hjk : j = k
  · subst hjk
    rw [due_eq_nil (by rw [phase_eq hj]; simpa using ht), List.append_nil] at hk
    have htest : w'.phase j = some .logTest := by rw [phase, hphase, if_pos rfl, hu]
    simp only [due, htest, hreply, Function.update_self, true_and, hlog, hsingles]
    split_ifs <;> simp [hk]
  · rw [if_neg hjk] at hphase
    have hne : k ≠ j := fun h => hjk h.symm
    rw [hlog, hsingles, due_congr (w := w) (by rw [phase, hphase]; rfl)
      (by rw [hreply, Function.update_of_ne hne]), hk]
    split_ifs <;> simp [hjk]

theorem Counted.tested (hi : w.Counted) {j : ℕ} {t u : Thread}
    (hj : w.client.threads[j]? = some t) (hu : u.phase ≠ .logTest)
    (hlog : w'.client.log = w.client.log ++ w.due (.run j))
    (hthreads : w'.client.threads = w.client.threads.set j u)
    (hreply : w'.reply = w.reply) (hsingles : w'.singles = w.singles) : w'.Counted := by
  intro k
  have hk := hi k
  have hphase := phase_set (u := u) hj k
  rw [← hthreads] at hphase
  by_cases hjk : j = k
  · subst hjk
    rw [if_pos rfl] at hphase
    rw [due_eq_nil (by rw [phase, hphase]; simpa using hu), List.append_nil, hlog, hsingles]
    exact hk
  · rw [if_neg hjk] at hphase
    have hdue : (w.due (.run j)).count k = 0 := by
      simp only [due]
      split_ifs <;> simp [hjk]
    rw [due_congr (w := w) (by rw [phase, hphase]; rfl) (by rw [hreply]), hlog, hsingles,
      List.count_append, List.count_append, hdue, Nat.add_zero, ← List.count_append]
    exact hk

theorem counted_step (hi : w.Counted) (hl : w.LogsBookings e) (h : w.step e = some w') :
    w'.Counted := by
  have hlog := hl w' h
  obtain ⟨resultBuffer, rfl, rfl⟩ | ⟨j, t, received, rfl, hj, hp, rfl⟩ |
    ⟨j, t, received, rfl, hj, hp, rfl⟩ | ⟨j, t, received, rfl, hj, hp, rfl⟩ |
    ⟨j, t, rfl, hj, hp, rfl⟩ | ⟨j, t, u, hrun, hj, ht, hu, hcomp, rfl⟩ := step_noted h
  · refine hi.same rfl (fun k => ?_) rfl rfl
    simp only [phase, List.getElem?_append]
    split_ifs with hk
    · rfl
    · rw [List.getElem?_eq_none (Nat.not_lt.1 hk)]
      cases h : [(⟨.connect, 0, resultBuffer⟩ : Thread)][k - w.client.threads.length]? with
      | none => rfl
      | some t =>
        obtain rfl := List.mem_singleton.1 (List.mem_of_getElem? h)
        simp
  · exact hi.same rfl (testing_set hj (by rw [hp]; exact nofun) nofun) rfl rfl
  · exact hi.same rfl (testing_set hj (by rw [hp]; exact nofun) nofun) rfl rfl
  · exact hi.recv hj (by rw [hp]; exact nofun) rfl rfl rfl rfl rfl
  · exact hi.tested hj (u := { t with phase := .connect }) nofun hlog rfl rfl rfl
  · exact hi.same rfl (testing_set hj ht hu) rfl rfl

theorem counted_init : init.Counted := fun _ => rfl

/-- Each thread logs its single letters and nothing else exactly in the runs where it always
comes to the test undisturbed. -/
theorem logsBookings_run_iff (h : Run step init tr w) :
    EachStep LogsBookings tr ∧ Always Counted tr w ↔ EachStep Undisturbed tr := by
  refine h.good_iff (I := fun w => w.Inv ∧ w.Counted) ⟨inv_init, counted_init⟩
    (fun _ hi => hi.2) ?_ ?_
  · rintro w e w' ⟨hi, hc⟩ hu he
    have hl := (logsBookings_iff hi he).2 hu
    exact ⟨hl, inv_step hi he, counted_step hc hl he⟩
  · rintro w e w' ⟨hi, -⟩ hu he ⟨hl, -⟩
    exact hu ((logsBookings_iff hi he).1 hl)

/-- Thread 0 buys the last seat. Before it comes to the test, thread 1 has seen that none
is left. -/
def lastSeat : List Event :=
  [.spawn (List.replicate 255 NUL), .spawn (List.replicate 255 NUL),
    .connect 0 (some 3), .send 0 true, .recv 0 (some (List.replicate 51 '-' ++ ['Z'])), .run 0,
    .connect 0 (some 3), .send 0 true, .send 0 true,
    .recv 0 (some ('Z' :: List.replicate 254 NUL)),
    .connect 1 (some 4), .send 1 true, .recv 1 (some (List.replicate 52 '-')), .run 1, .run 0]

/-- The single letter it has received is not logged. -/
theorem lastSeat_not_logged : ∃ tr w, Run step init tr w ∧ w.singles = [0] ∧ w.client.log = [] ∧
    ¬ (EachStep LogsBookings tr ∧ Always Counted tr w) := by
  have hrun : Run step init (trace step init lastSeat) _ := run_of_isSome _ _ (by decide +kernel)
  refine ⟨_, _, hrun, by decide +kernel, by decide +kernel, ?_⟩
  rintro ⟨-, -, hc⟩
  have h0 := hc 0
  revert h0
  decide +kernel

theorem logsBookings_run_iff_lastSeat : ∃ tr w, Run step init tr w ∧
    (EachStep LogsBookings tr ∧ Always Counted tr w ↔ EachStep Undisturbed tr) := by
  have hrun : Run step init (trace step init lastSeat) _ := run_of_isSome _ _ (by decide +kernel)
  exact ⟨_, _, hrun, logsBookings_run_iff hrun⟩

end Watched

end OsLabs.SeatClient
