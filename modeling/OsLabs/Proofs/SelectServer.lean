import OsLabs.Spec.SelectServer

/-! What the `select` loop does with descriptors. It does not ask which of them are ready, so
it keeps its discipline just as long as it has turns for the listening one only. -/

namespace OsLabs.SelectServer.Server

open SeatClient (STR_BUFFER_SIZE NUL)

variable {s s' : Server} {e : Event} {tr : List (Server × Event)}

/-- How things stand while all turns were the listening descriptor's. -/
structure Listening (s : Server) : Prop where
  acts : ∀ a ∈ s.acts, a = .accept true
  readFds : ∀ fd, s.readFds fd = true → fd = s.listenSockFd
  top : s.pc = .top →
    (∀ fd, s.masterSet fd = true → fd = s.listenSockFd) ∧ s.activeFdCount = s.listenSockFd
  turn : s.pc = .turn s.listenSockFd → s.listenSockFd = 0 ∧ s.readFds s.listenSockFd = true ∧
    (∀ fd, s.masterSet fd = true → fd = s.listenSockFd) ∧ s.activeFdCount = s.listenSockFd

theorem listening_start (listenSockFd : ℕ) (inherited : ℕ → Bool) :
    (start listenSockFd inherited).Listening where
  acts := nofun
  readFds := nofun
  top _ := ⟨fun _ h => beq_iff_eq.1 h, rfl⟩
  turn := nofun

theorem Listening.discipline (h : s.Listening) : s.Discipline where
  service _ _ _ hmem := absurd (h.acts _ hmem) nofun
  accept ready hmem := Act.accept.inj (h.acts _ hmem)
  once k := by
    have hserved : s.served k = 0 := by
      rw [served, List.countP_eq_zero]
      intro a ha
      rw [h.acts a ha]
      exact nofun
    have hcloses : s.closes k = 0 := by
      rw [closes, List.countP_eq_zero]
      intro a ha
      rw [h.acts a ha]
      exact nofun
    rw [hserved, hcloses]
    exact ⟨Nat.zero_le 1, rfl⟩
  own _ _ hmem := by
    rcases hmem with hmem | hmem
    · exact absurd (h.acts _ hmem) nofun
    · exact absurd (h.acts _ hmem) nofun

theorem Listening.sigHandler (h : s.Listening) : s.sigHandler.Listening :=
  ⟨h.acts, h.readFds, h.top, h.turn⟩

theorem service_cases {op : Option Char} {idx : Option Int8} {buffer : List Char}
    (h : s.step (.service op idx buffer) = some s') :
    ∃ fd, s.pc = .turn fd ∧ fd ≠ s.listenSockFd ∧
      ∃ r, s'.acts = s.acts ++ serviceActs fd (s.files fd) (s.readFds fd) r := by
  cases hpc : s.pc with
  | top => simp [step, hpc] at h
  | exit => simp [step, hpc] at h
  | turn fd =>
    simp only [step, hpc] at h
    split_ifs at h with hfd hr
    · obtain rfl := Option.some.inj h
      refine ⟨fd, rfl, hfd.1, clientService s.shmBuf op idx buffer, ?_⟩
      simp [nextTurn, sigHandler, Function.update_of_ne hfd.1]
    · obtain rfl := Option.some.inj h
      exact ⟨fd, rfl, hfd.1, clientService s.shmBuf op idx buffer, rfl⟩

theorem accept_cases {connectSockFd : Option ℕ} (h : s.step (.accept connectSockFd) = some s') :
    s.pc = .turn s.listenSockFd ∧ s'.acts = s.acts ++ [.accept (s.readFds s.listenSockFd)] ∧
      s'.listenSockFd = s.listenSockFd ∧ s'.readFds = s.readFds ∧
      s'.pc = (if s.listenSockFd + 1 ≤ s'.activeFdCount then .turn (s.listenSockFd + 1) else .top) ∧
      (s'.masterSet = s.masterSet ∧ s'.activeFdCount = s.activeFdCount ∨
        ∃ fd, fd ≠ s.listenSockFd ∧
          s'.activeFdCount = if fd > s.activeFdCount then fd else s.activeFdCount) := by
  simp only [step] at h
  split_ifs at h with hpc
  cases connectSockFd with
  | none =>
    obtain rfl := Option.some.inj h
    exact ⟨hpc, rfl, rfl, rfl, rfl, .inl ⟨rfl, rfl⟩⟩
  | some fd =>
    simp only at h
    split_ifs at h with hfd hgt
    · obtain rfl := Option.some.inj h
      refine ⟨hpc, rfl, rfl, rfl, rfl, .inr ⟨fd, ?_, (if_pos hgt).symm⟩⟩
      rintro rfl
      simp [hfd.1] at hfd
    · obtain rfl := Option.some.inj h
      refine ⟨hpc, rfl, rfl, rfl, rfl, .inr ⟨fd, ?_, (if_neg hgt).symm⟩⟩
      rintro rfl
      simp [hfd.1] at hfd

theorem listening_step (hs : s.Listening) (hc : s.AtListening e) (h : s.step e = some s') :
    s'.Listening := by
  cases e with
  | select ready =>
    simp only [step] at h
    split_ifs at h with htop
    cases ready with
    | none =>
      obtain rfl := Option.some.inj h
      exact ⟨hs.acts, hs.readFds, nofun, nofun⟩
    | some ready =>
      simp only at h
      split_ifs at h with hready
      obtain rfl := Option.some.inj h
      obtain ⟨hmaster, hactive⟩ := hs.top htop.1
      have honly : ∀ fd ∈ ready, fd = s.listenSockFd := fun fd hfd =>
        hmaster fd (hready.2 fd hfd)
      refine ⟨hs.acts, fun fd hfd => honly fd (by simpa using hfd), nofun, fun hpc => ?_⟩
      obtain ⟨fd, hfd⟩ := List.exists_mem_of_ne_nil _ hready.1
      have hmem : s.listenSockFd ∈ ready := honly fd hfd ▸ hfd
      exact ⟨(Pc.turn.inj hpc).symm, by simpa using hmem, hmaster, hactive⟩
  | accept connectSockFd =>
    obtain ⟨hpc, hacts, hlisten, hfds, hpc', hmoved⟩ := accept_cases h
    obtain ⟨hzero, hready, hmaster, hactive⟩ := hs.turn hpc
    rw [hready] at hacts
    refine ⟨?_, ?_, ?_, ?_⟩
    · intro a ha
      rw [hacts] at ha
      rcases List.mem_append.1 ha with ha | ha
      · exact hs.acts a ha
      · exact List.mem_singleton.1 ha
    · rw [hfds, hlisten]
      exact hs.readFds
    · intro htop
      rcases hmoved with ⟨hsame, hcount⟩ | ⟨fd, hne, hcount⟩
      · rw [hsame, hcount, hlisten]
        exact ⟨hmaster, hactive⟩
      · -- the new descriptor is above 0, and so has a turn of its own
        have hpos : s.listenSockFd + 1 ≤ s'.activeFdCount := by
          rw [hcount]
          split_ifs <;> omega
        rw [hpc', if_pos hpos] at htop
        contradiction
    · intro hturn
      rw [hpc', hlisten] at hturn
      split_ifs at hturn
      have := Pc.turn.inj hturn
      omega
  | service op idx buffer =>
    obtain ⟨fd, hpc, hne, -⟩ := service_cases h
    exact absurd (Pc.turn.inj (hpc.symm.trans hc)) hne
  | sigint =>
    simp only [step] at h
    split_ifs at h
    obtain rfl := Option.some.inj h
    exact hs.sigHandler
  | leave =>
    simp only [step] at h
    split_ifs at h
    obtain rfl := Option.some.inj h
    exact ⟨hs.acts, hs.readFds, nofun, nofun⟩

/-- The loop keeps its discipline exactly while its turns are the listening descriptor's. -/
theorem discipline_iff {listenSockFd : ℕ} {inherited : ℕ → Bool}
    (h : Run step (start listenSockFd inherited) tr s) :
    Always Discipline tr s ↔ EachStep AtListening tr := by
  refine h.always_iff (I := Listening) (listening_start listenSockFd inherited)
    (fun _ hs => hs.discipline) (fun _ _ _ hs hc he => listening_step hs hc he) ?_
  intro s e s' hs hc he hd
  cases e with
  | accept connectSockFd => exact hc (accept_cases he).1
  | service op idx buffer =>
    obtain ⟨fd, -, hne, r, hacts⟩ := service_cases he
    have hmem : .service fd (s.files fd) (s.readFds fd) ∈ s'.acts := by
      rw [hacts]
      exact List.mem_append_right _ List.mem_cons_self
    exact hne (hs.readFds fd (hd.service _ _ _ hmem).2)
  | select ready | sigint | leave => exact hc trivial

/-- Such a run gets as far as a turn only where the listening descriptor is 0. -/
theorem listening_zero {listenSockFd : ℕ} {inherited : ℕ → Bool}
    (h : Run step (start listenSockFd inherited) tr s) (hc : EachStep AtListening tr)
    {t : Server} (ht : (t, e) ∈ tr) (hpc : t.pc = .turn t.listenSockFd) : t.listenSockFd = 0 := by
  have hall := h.always_of_eachStep (I := Listening) (listening_start listenSockFd inherited)
    (fun _ _ _ hs hc he => listening_step hs hc he) hc
  exact ((hall.1 (t, e) ht).turn hpc).1

def firstClient : List Event :=
  [.select (some [3]), .service none none (List.replicate STR_BUFFER_SIZE NUL)]

/-- The loop reads and closes descriptor 0. -/
theorem discipline_fails : ∃ tr s, Run step (start 3 (· < 3)) tr s ∧
    .close 0 .other ∈ s.acts ∧ ¬ Always Discipline tr s := by
  have hrun : Run step (start 3 (· < 3)) (trace step (start 3 (· < 3)) firstClient) _ :=
    run_of_isSome _ _ (by decide +kernel)
  have hclose : .close 0 .other ∈
      ((exec step (start 3 (· < 3)) firstClient).get (by decide +kernel)).acts := by
    decide +kernel
  refine ⟨_, _, hrun, hclose, fun hd => ?_⟩
  obtain ⟨k, hk⟩ := hd.2.own 0 .other (.inr hclose)
  cases hk

theorem discipline_iff_firstClient : ∃ tr s, Run step (start 3 (· < 3)) tr s ∧
    (Always Discipline tr s ↔ EachStep AtListening tr) := by
  have hrun : Run step (start 3 (· < 3)) (trace step (start 3 (· < 3)) firstClient) _ :=
    run_of_isSome _ _ (by decide +kernel)
  exact ⟨_, _, hrun, discipline_iff hrun⟩

end OsLabs.SelectServer.Server
