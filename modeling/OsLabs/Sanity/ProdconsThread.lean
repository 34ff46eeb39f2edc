import OsLabs.Sanity.ProdconsClient

/-! One `process_request` thread and the reply it has in hand: what each of its statements
keeps, as long as that reply is its own. -/

namespace OsLabs.Prodcons

def Pc.knows : Pc → Bool
  | .register | .registering | .readIdx | .callFailed => false
  | .testLow | .testHigh | .poll | .polling | .checkTime | .readZero | .readResult | .printed
  | .readsNull => true

/-- How many calls a thread has begun when it stands here. -/
def Pc.Calls (pc : Pc) (xid : ℕ) : Prop :=
  match pc with
  | .register => xid = 0
  | .registering | .readIdx => xid = 1
  | .polling => 1 < xid
  | _ => 1 ≤ xid

theorem Pc.Calls.one_le {pc : Pc} {xid : ℕ} (h : pc.Calls xid) (hk : pc.knows) : 1 ≤ xid := by
  unfold Pc.Calls at h
  split at h
  · cases hk
  · cases hk
  · cases hk
  · exact h.le
  · exact h

variable {issued issued' : List (ℕ × ℤ)} {finished finished' : List (ℤ × UInt8)} {j : ℕ}
  {t t' : Thread} {res : REQUEST} {d : Datagram}

namespace Thread

structure Ok (issued : List (ℕ × ℤ)) (finished : List (ℤ × UInt8)) (j : ℕ) (t : Thread) : Prop where
  calls : t.pc.Calls t.xid
  registers : t.pc = .register ∨ t.pc = .registering → t.arg.idx < 0
  asks : t.pc = .polling → t.arg.idx = t.idx
  waits : t.pc ≠ .printed → t.arg.result = NONE
  owns : t.pc.knows → (j, t.idx) ∈ issued
  polls : ∀ i ∈ t.polls, t.pc.knows ∧ i = t.idx
  printed : t.pc = .printed → t.arg.idx = t.idx ∧ (t.idx, t.arg.result) ∈ finished

theorem ok_new (type : UInt8) : (new type).Ok issued finished j where
  calls := rfl
  registers _ := neg_one_lt_zero
  asks h := nomatch h
  waits _ := rfl
  owns h := nomatch h
  polls := nofun
  printed h := nomatch h

theorem Ok.mono (h : t.Ok issued finished j) (hi : issued ⊆ issued') (hf : finished ⊆ finished') :
    t.Ok issued' finished' j where
  calls := h.calls
  registers := h.registers
  asks := h.asks
  waits := h.waits
  owns hk := hi (h.owns hk)
  polls := h.polls
  printed hp := ⟨(h.printed hp).1, hf (h.printed hp).2⟩

theorem Ok.xid_eq_one (h : t.Ok issued finished j)
    (hpc : t.pc = .registering ∨ t.pc = .readIdx) : t.xid = 1 := by
  have hcalls := h.calls
  rcases hpc with hpc | hpc <;> rw [hpc] at hcalls <;> exact hcalls

theorem Ok.one_lt_xid (h : t.Ok issued finished j) (hpc : t.pc = .polling) : 1 < t.xid := by
  have hcalls := h.calls
  rw [hpc] at hcalls
  exact hcalls

/-- A thread that has no ticket yet has polled for none. -/
theorem Ok.polls_eq_nil (h : t.Ok issued finished j) (hk : ¬ t.pc.knows) : t.polls = [] := by
  apply List.eq_nil_iff_forall_not_mem.2
  intro i hi
  exact hk (h.polls i hi).1

theorem Ok.goto (h : t.Ok issued finished j) (hk : t.pc.knows) (hp : t.pc ≠ .printed) {pc : Pc}
    (hpc : pc = .testLow ∨ pc = .testHigh ∨ pc = .poll ∨ pc = .checkTime ∨ pc = .readZero ∨
      pc = .readResult ∨ pc = .readsNull) : ({ t with pc } : Thread).Ok issued finished j := by
  have hc := h.calls.one_le hk
  have howns := h.owns hk
  have hwaits := h.waits hp
  have hpolls : ∀ i ∈ t.polls, i = t.idx := fun i hi => (h.polls i hi).2
  obtain rfl | rfl | rfl | rfl | rfl | rfl | rfl := hpc <;>
    exact ⟨hc, by simp, nofun, fun _ => hwaits, fun _ => howns,
      fun i hi => ⟨rfl, hpolls i hi⟩, nofun⟩

/-- The ticket a thread has read is the one it keeps. -/
structure Later (t t' : Thread) : Prop where
  xid : t.xid ≤ t'.xid
  keeps : t.pc.knows → t'.pc.knows ∧ t'.idx = t.idx

theorem Later.refl (t : Thread) : t.Later t := ⟨le_rfl, fun h => ⟨h, rfl⟩⟩

theorem call_cases (h : t.call = some t') :
    (t.pc = .register ∧ t' = { t with pc := .registering, xid := t.xid + 1 }) ∨
    (t.pc = .poll ∧ t' = { t with
      arg := { t.arg with idx := t.idx }, pc := .polling, xid := t.xid + 1
      polls := t.polls ++ [t.idx] }) := by
  unfold call at h
  split at h
  · exact .inl ⟨‹_›, (Option.some.inj h).symm⟩
  · exact .inr ⟨‹_›, (Option.some.inj h).symm⟩
  · cases h

theorem calling_of_call (h : t.call = some t') : t'.calling := by
  obtain ⟨-, rfl⟩ | ⟨-, rfl⟩ := call_cases h <;> rfl

theorem succeed_cases (h : t.succeed = some t') :
    (t.pc = .registering ∧ t' = { t with pc := .readIdx }) ∨
    (t.pc = .polling ∧ t' = { t with pc := .checkTime }) := by
  unfold succeed at h
  split at h
  · exact .inl ⟨‹_›, (Option.some.inj h).symm⟩
  · exact .inr ⟨‹_›, (Option.some.inj h).symm⟩
  · cases h

theorem fail_cases (h : t.fail = some t') :
    (t.pc = .registering ∧ t' = { t with pc := .callFailed }) ∨
    (t.pc = .polling ∧ t' = { t with pc := .readsNull }) := by
  unfold fail at h
  split at h
  · exact .inl ⟨‹_›, (Option.some.inj h).symm⟩
  · exact .inr ⟨‹_›, (Option.some.inj h).symm⟩
  · cases h

theorem time_cases {late : Bool} (h : t.time late = some t') :
    t.pc = .checkTime ∧ (late = true ∧ t' = { t with pc := .readZero } ∨
      late = false ∧ t' = { t with pc := .testLow }) := by
  unfold time at h
  split at h
  · obtain rfl := Option.some.inj h
    refine ⟨‹_›, ?_⟩
    cases late with
    | true => exact .inl ⟨rfl, rfl⟩
    | false => exact .inr ⟨rfl, rfl⟩
  · cases h

theorem read_cases (h : t.read res = some t') :
    (t.pc = .readIdx ∧ t' = { t with idx := res.idx, pc := .testLow }) ∨
    (t.pc = .testLow ∧ (res.result ≥ 97 ∧ t' = { t with pc := .testHigh } ∨
      t' = { t with pc := .poll })) ∨
    (t.pc = .testHigh ∧ (res.result ≤ 122 ∧ t' = { t with pc := .readZero } ∨
      t' = { t with pc := .poll })) ∨
    (t.pc = .readZero ∧ (res.result = 0 ∧ t' = t.print NONE ∨ t' = { t with pc := .readResult })) ∨
    (t.pc = .readResult ∧ t' = t.print res.result) := by
  unfold read at h
  split at h
  · exact .inl ⟨‹_›, (Option.some.inj h).symm⟩
  · obtain rfl := Option.some.inj h
    refine .inr (.inl ⟨‹_›, ?_⟩)
    split_ifs with hr
    · exact .inl ⟨hr, rfl⟩
    · exact .inr rfl
  · obtain rfl := Option.some.inj h
    refine .inr (.inr (.inl ⟨‹_›, ?_⟩))
    split_ifs with hr
    · exact .inl ⟨hr, rfl⟩
    · exact .inr rfl
  · obtain rfl := Option.some.inj h
    refine .inr (.inr (.inr (.inl ⟨‹_›, ?_⟩)))
    split_ifs with hr
    · exact .inl ⟨hr, rfl⟩
    · exact .inr rfl
  · exact .inr (.inr (.inr (.inr ⟨‹_›, (Option.some.inj h).symm⟩)))
  · cases h

theorem later_call (h : t.call = some t') : t.Later t' := by
  obtain ⟨hpc, rfl⟩ | ⟨hpc, rfl⟩ := call_cases h
  · exact ⟨Nat.le_succ _, by simp [hpc, Pc.knows]⟩
  · exact ⟨Nat.le_succ _, fun _ => ⟨rfl, rfl⟩⟩

theorem later_succeed (h : t.succeed = some t') : t.Later t' := by
  obtain ⟨hpc, rfl⟩ | ⟨hpc, rfl⟩ := succeed_cases h
  · exact ⟨le_rfl, by simp [hpc, Pc.knows]⟩
  · exact ⟨le_rfl, fun _ => ⟨rfl, rfl⟩⟩

theorem later_fail (h : t.fail = some t') : t.Later t' := by
  obtain ⟨hpc, rfl⟩ | ⟨hpc, rfl⟩ := fail_cases h
  · exact ⟨le_rfl, by simp [hpc, Pc.knows]⟩
  · exact ⟨le_rfl, fun _ => ⟨rfl, rfl⟩⟩

theorem later_time {late : Bool} (h : t.time late = some t') : t.Later t' := by
  obtain ⟨-, ⟨-, rfl⟩ | ⟨-, rfl⟩⟩ := time_cases h <;> exact ⟨le_rfl, fun _ => ⟨rfl, rfl⟩⟩

theorem later_read (h : t.read res = some t') : t.Later t' := by
  obtain ⟨hpc, rfl⟩ | ⟨-, ⟨-, rfl⟩ | rfl⟩ | ⟨-, ⟨-, rfl⟩ | rfl⟩ | ⟨-, ⟨-, rfl⟩ | rfl⟩ | ⟨-, rfl⟩ :=
    read_cases h
  · exact ⟨le_rfl, by simp [hpc, Pc.knows]⟩
  all_goals exact ⟨le_rfl, fun _ => ⟨rfl, rfl⟩⟩

/-! ### The reply the thread has in hand -/

/-- What is known of `clntRes` while the call of thread `j` was the last to write it. -/
structure Holds (res : REQUEST) (issued : List (ℕ × ℤ)) (finished : List (ℤ × UInt8)) (j : ℕ)
    (t : Thread) : Prop where
  ticket : t.pc = .readIdx → (j, res.idx) ∈ issued ∧ res.result = NONE
  letter : t.pc = .testLow ∨ t.pc = .testHigh ∨ t.pc = .checkTime ∨ t.pc = .readZero ∨
    t.pc = .readResult → isLetter res.result → (t.idx, res.result) ∈ finished
  low : t.pc = .testHigh → res.result ≥ 97
  left : t.pc = .readZero ∨ t.pc = .readResult → isLetter res.result

theorem Holds.mono (h : t.Holds res issued finished j) (hi : issued ⊆ issued')
    (hf : finished ⊆ finished') : t.Holds res issued' finished' j where
  ticket hpc := ⟨hi (h.ticket hpc).1, (h.ticket hpc).2⟩
  letter hpc hl := hf (h.letter hpc hl)
  low := h.low
  left := h.left

/-- In a call and at its end a thread has no reply in hand. -/
theorem holds_of_idle (h : t.pc = .registering ∨ t.pc = .polling ∨ t.pc = .poll ∨
    t.pc = .printed ∨ t.pc = .callFailed ∨ t.pc = .readsNull) : t.Holds res issued finished j := by
  obtain h | h | h | h | h | h := h <;> exact ⟨by simp [h], by simp [h], by simp [h], by simp [h]⟩

theorem holds_new (type : UInt8) : (new type).Holds res issued finished j :=
  ⟨nofun, nofun, nofun, nofun⟩

theorem Holds.read (h : t.Holds res issued finished j) (hr : t.read res = some t') :
    t'.Holds res issued finished j := by
  obtain ⟨hpc, rfl⟩ | ⟨hpc, ⟨hle, rfl⟩ | rfl⟩ | ⟨hpc, ⟨hle, rfl⟩ | rfl⟩ | ⟨hpc, ⟨-, rfl⟩ | rfl⟩ |
    ⟨hpc, rfl⟩ := read_cases hr
  · -- the reply to a registration holds no letter
    have hnone := (h.ticket hpc).2
    refine ⟨nofun, ?_, nofun, nofun⟩
    intro _ hl
    rw [hnone] at hl
    exact absurd hl Service.not_isLetter_none
  · exact ⟨nofun, fun _ => h.letter (.inl hpc), fun _ => hle, nofun⟩
  · exact holds_of_idle (.inr (.inr (.inl rfl)))
  · refine ⟨nofun, fun _ => h.letter (.inr (.inl hpc)), nofun, ?_⟩
    intro _
    simp only [isLetter, Bool.and_eq_true, decide_eq_true_eq]
    exact ⟨h.low hpc, hle⟩
  · exact holds_of_idle (.inr (.inr (.inl rfl)))
  · exact holds_of_idle (.inr (.inr (.inr (.inl rfl))))
  · exact ⟨nofun, fun _ => h.letter (.inr (.inr (.inr (.inl hpc)))), nofun,
      fun _ => h.left (.inl hpc)⟩
  · exact holds_of_idle (.inr (.inr (.inr (.inl rfl))))

theorem Holds.time {late : Bool} (h : t.Holds res issued finished j)
    (hlate : late = true → isLetter res.result) (ht : t.time late = some t') :
    t'.Holds res issued finished j := by
  obtain ⟨hpc, ⟨htrue, rfl⟩ | ⟨-, rfl⟩⟩ := time_cases ht
  · exact ⟨nofun, fun _ => h.letter (.inr (.inr (.inl hpc))), nofun, fun _ => hlate htrue⟩
  · exact ⟨nofun, fun _ => h.letter (.inr (.inr (.inl hpc))), nofun, nofun⟩

theorem holds_fail (h : t.fail = some t') : t'.Holds res issued finished j := by
  obtain ⟨-, rfl⟩ | ⟨-, rfl⟩ := fail_cases h
  · exact holds_of_idle (.inr (.inr (.inr (.inr (.inl rfl)))))
  · exact holds_of_idle (.inr (.inr (.inr (.inr (.inr rfl)))))

theorem holds_call (h : t.call = some t') : t'.Holds res issued finished j := by
  obtain ⟨-, rfl⟩ | ⟨-, rfl⟩ := call_cases h
  · exact holds_of_idle (.inl rfl)
  · exact holds_of_idle (.inr (.inl rfl))

/-! ### One thread's steps -/

theorem Ok.call (h : t.Ok issued finished j) (hc : t.call = some t') :
    t'.Ok issued finished j := by
  obtain ⟨hpc, rfl⟩ | ⟨hpc, rfl⟩ := call_cases hc
  · have hx : t.xid = 0 := by simpa [hpc, Pc.Calls] using h.calls
    have hpolls := h.polls_eq_nil (by simp [hpc, Pc.knows])
    exact ⟨by simp [Pc.Calls, hx], fun _ => h.registers (.inl hpc), nofun,
      fun _ => h.waits (by simp [hpc]), nofun, by simp [hpolls], nofun⟩
  · have hk : t.pc.knows := by rw [hpc]; rfl
    refine ⟨Nat.lt_succ_of_le (h.calls.one_le hk), by simp, fun _ => rfl, fun _ => h.waits (by simp [hpc]),
      fun _ => h.owns hk, ?_, nofun⟩
    intro i hi
    rcases List.mem_append.1 hi with hi | hi
    · exact ⟨rfl, (h.polls i hi).2⟩
    · exact ⟨rfl, List.mem_singleton.1 hi⟩

theorem Ok.succeed (h : t.Ok issued finished j) (hs : t.succeed = some t') :
    t'.Ok issued finished j := by
  obtain ⟨hpc, rfl⟩ | ⟨hpc, rfl⟩ := succeed_cases hs
  · have hx := h.xid_eq_one (.inl hpc)
    have hpolls := h.polls_eq_nil (by simp [hpc, Pc.knows])
    exact ⟨hx, by simp, nofun, fun _ => h.waits (by simp [hpc]), nofun, by simp [hpolls], nofun⟩
  · exact h.goto (by rw [hpc]; rfl) (by simp [hpc]) (.inr (.inr (.inr (.inl rfl))))

theorem Ok.fail (h : t.Ok issued finished j) (hf : t.fail = some t') : t'.Ok issued finished j := by
  obtain ⟨hpc, rfl⟩ | ⟨hpc, rfl⟩ := fail_cases hf
  · have hx := h.xid_eq_one (.inl hpc)
    have hpolls := h.polls_eq_nil (by simp [hpc, Pc.knows])
    exact ⟨hx.ge, by simp, nofun, fun _ => h.waits (by simp [hpc]), nofun, by simp [hpolls], nofun⟩
  · exact h.goto (by rw [hpc]; rfl) (by simp [hpc])
      (.inr (.inr (.inr (.inr (.inr (.inr rfl))))))

theorem Ok.time {late : Bool} (h : t.Ok issued finished j) (ht : t.time late = some t') :
    t'.Ok issued finished j := by
  obtain ⟨hpc, hcases⟩ := time_cases ht
  have hk : t.pc.knows := by rw [hpc]; rfl
  obtain ⟨-, rfl⟩ | ⟨-, rfl⟩ := hcases
  · exact h.goto hk (by simp [hpc]) (.inr (.inr (.inr (.inr (.inl rfl)))))
  · exact h.goto hk (by simp [hpc]) (.inl rfl)

/-- What a thread prints is what the server has stored, if the reply in hand is its own. -/
theorem Ok.print (h : t.Ok issued finished j) (hh : t.Holds res issued finished j)
    (hpc : t.pc = .readZero ∨ t.pc = .readResult) :
    (t.print res.result).Ok issued finished j := by
  have hk : t.pc.knows := by rcases hpc with hpc | hpc <;> rw [hpc] <;> rfl
  have hmem : (t.idx, res.result) ∈ finished := by
    apply hh.letter _ (hh.left hpc)
    exact .inr (.inr (.inr hpc))
  exact ⟨h.calls.one_le hk, by simp [Thread.print], nofun, fun hp => absurd rfl hp, fun _ => h.owns hk,
    fun i hi => ⟨rfl, (h.polls i hi).2⟩, fun _ => ⟨rfl, hmem⟩⟩

theorem Ok.read (h : t.Ok issued finished j)
    (hh : t.pc = .readIdx ∨ t.pc = .readZero ∨ t.pc = .readResult →
      t.Holds res issued finished j) (hr : t.read res = some t') : t'.Ok issued finished j := by
  obtain ⟨hpc, rfl⟩ | ⟨hpc, hcases⟩ | ⟨hpc, hcases⟩ | ⟨hpc, hcases⟩ | ⟨hpc, rfl⟩ := read_cases hr
  · have hx := h.xid_eq_one (.inr hpc)
    have hpolls := h.polls_eq_nil (by simp [hpc, Pc.knows])
    have howns := ((hh (.inl hpc)).ticket hpc).1
    exact ⟨hx.ge, by simp, nofun, fun _ => h.waits (by simp [hpc]), fun _ => howns,
      by simp [hpolls], nofun⟩
  · have hk : t.pc.knows := by rw [hpc]; rfl
    obtain ⟨-, rfl⟩ | rfl := hcases
    · exact h.goto hk (by simp [hpc]) (.inr (.inl rfl))
    · exact h.goto hk (by simp [hpc]) (.inr (.inr (.inl rfl)))
  · have hk : t.pc.knows := by rw [hpc]; rfl
    obtain ⟨-, rfl⟩ | rfl := hcases
    · exact h.goto hk (by simp [hpc]) (.inr (.inr (.inr (.inr (.inl rfl)))))
    · exact h.goto hk (by simp [hpc]) (.inr (.inr (.inl rfl)))
  · have hk : t.pc.knows := by rw [hpc]; rfl
    obtain ⟨hzero, rfl⟩ | rfl := hcases
    · -- a letter is not zero
      have hleft := (hh (.inr (.inl hpc))).left (.inl hpc)
      rw [hzero] at hleft
      exact absurd hleft (by decide)
    · exact h.goto hk (by simp [hpc]) (.inr (.inr (.inr (.inr (.inr (.inl rfl))))))
  · exact h.print (hh (.inr (.inr hpc))) (.inr hpc)

end Thread

end OsLabs.Prodcons
