import OsLabs.Lib.Population
import OsLabs.Proofs.Bakery
import OsLabs.Spec.BakeryClient

/-! Abandoned tickets. Only a served request clears a ticket, and a client that has been
refused `ATTEMPTS` times leaves without one; what it leaves behind nobody else can clear. -/

namespace OsLabs.Bakery

variable {α : Type} [Number α] {server server' : Server α} {argp : REQUEST α} {q : List Slot}

/-- What a call of `bakery_service_1_svc` does with the tickets, and what it tells the caller. -/
theorem Inv.bakeryService1Svc_cases (hi : Inv server q) {res : α}
    (h : bakeryService1Svc server argp = .ok (server', res)) {i : Slot} (hidx : argp.idx = i.val) :
    ((∃ j, server.numbers j ≠ 0 ∧ server.numbers j < server.numbers i) ∧
      server'.numbers = server.numbers ∧ res = Number.infinity) ∨
    ((∀ j, server.numbers j ≠ 0 → server.numbers i ≤ server.numbers j) ∧
      server'.numbers = Function.update server.numbers i 0) := by
  obtain ⟨ht, hn, -⟩ | ⟨i', hidx', hp, hn, -⟩ := bakeryService1Svc_ok h
  · left
    have hnot : ¬ Passes server i := by
      rw [Passes, ← hidx, ht]
      exact fun h => Bool.noConfusion (Except.ok.inj h)
    rw [hi.passes_iff] at hnot
    simp only [not_forall, not_le] at hnot
    obtain ⟨j, hj, hlt⟩ := hnot
    refine ⟨⟨j, hj, hlt⟩, hn, ?_⟩
    simp only [bakeryService1Svc, ht, bind, Except.bind, if_true, pure, Except.pure,
      Except.ok.injEq, Prod.mk.injEq] at h
    exact h.2.symm
  · right
    obtain rfl : i = i' := Fin.ext (by omega)
    exact ⟨(hi.passes_iff i).1 hp, hn⟩

namespace System

variable {s s' : System α} {e : Event α}

theorem step_cases (h : step s e = some s') :
    (∃ req, e = .start req ∧ (∀ c ∈ s.clients, c.req.idx ≠ req.idx) ∧
      s' = { s with clients := s.clients ++ [.new req] }) ∨
    (∃ k c server num, e = .call k ∧ s.clients[k]? = some c ∧ c.pc = .getNumber ∧
      getNumber1Svc s.server c.req = .ok (server, num) ∧
      s' = ⟨server, s.clients.set k (c.number (some num))⟩) ∨
    (∃ k c server res, e = .call k ∧ s.clients[k]? = some c ∧ c.pc = .service ∧
      bakeryService1Svc s.server c.req = .ok (server, res) ∧
      s' = ⟨server, s.clients.set k (c.result (some res))⟩) := by
  cases e with
  | start req =>
    simp only [step] at h
    split_ifs at h with hidx
    exact .inl ⟨req, rfl, hidx, (Option.some.inj h).symm⟩
  | call k =>
    simp only [step, Option.bind_eq_bind, Option.bind_eq_some_iff] at h
    obtain ⟨c, hc, h⟩ := h
    split at h
    · rename_i hpc
      obtain ⟨⟨server, num⟩, hserve, h⟩ := Option.bind_eq_some_iff.1 h
      exact .inr (.inl ⟨k, c, server, num, rfl, hc, hpc, toOption_eq_some.1 hserve,
        (Option.some.inj h).symm⟩)
    · rename_i hpc
      obtain ⟨⟨server, res⟩, hserve, h⟩ := Option.bind_eq_some_iff.1 h
      exact .inr (.inr ⟨k, c, server, res, rfl, hc, hpc, toOption_eq_some.1 hserve,
        (Option.some.inj h).symm⟩)
    · cases h
    · cases h

omit [Number α] in
theorem number_idx (c : Client α) (num : Option ℤ) : (c.number num).req.idx = c.req.idx := by
  cases num <;> rfl

theorem result_cases (c : Client α) (res : α) :
    (res == Number.infinity ∧ c.attempts + 1 < ATTEMPTS ∧
      c.result (some res) = { c with attempts := c.attempts + 1 }) ∨
    (c.result (some res)).req = c.req ∧ (c.result (some res)).pc = .returned := by
  unfold Client.result
  by_cases hinf : res == Number.infinity
  · by_cases hleft : c.attempts + 1 < ATTEMPTS
    · exact .inl ⟨hinf, hleft, by simp only [if_pos hinf, if_pos hleft]⟩
    · exact .inr (by simp only [if_pos hinf, if_neg hleft, and_self])
  · exact .inr (by simp only [if_neg hinf, and_self])

theorem result_idx (c : Client α) (res : α) : (c.result (some res)).req.idx = c.req.idx := by
  obtain ⟨-, -, h⟩ | ⟨h, -⟩ := result_cases c res <;> rw [h]

/-- The server's invariant; the indices differ, and who asks for the service has a slot and
attempts left. -/
structure Inv (s : System α) : Prop where
  line : ∃ q, Bakery.Inv s.server q
  nodup : (s.clients.map fun c => c.req.idx).Nodup
  slots : ∀ (k : ℕ) (c : Client α), s.clients[k]? = some c → c.pc = .service →
    ∃ i : Slot, c.req.idx = i.val
  attempts : ∀ (k : ℕ) (c : Client α), s.clients[k]? = some c →
    c.pc = .getNumber ∨ c.pc = .service → c.attempts < ATTEMPTS

theorem inv_init : Inv (init : System α) where
  line := ⟨[], Bakery.inv_init⟩
  nodup := List.nodup_nil
  slots := nofun
  attempts := nofun

theorem inv_step (hi : Inv s) (h : step s e = some s') : Inv s' := by
  obtain ⟨q, hq⟩ := hi.line
  obtain ⟨req, -, hidx, rfl⟩ | ⟨k, c, server, num, -, hc, hpc, hserve, rfl⟩ |
    ⟨k, c, server, res, -, hc, hpc, hserve, rfl⟩ := step_cases h
  · refine ⟨⟨q, hq⟩, ?_, forall_snoc hi.slots fun _ => nofun, ?_⟩
    · rw [List.map_append, List.map_singleton, List.nodup_append]
      refine ⟨hi.nodup, List.nodup_singleton _, ?_⟩
      intro a ha b hb
      obtain ⟨c, hc, rfl⟩ := List.mem_map.1 ha
      obtain rfl := List.mem_singleton.1 hb
      exact hidx c hc
    · apply forall_snoc hi.attempts
      intro _ _
      show 0 < ATTEMPTS
      decide
  · obtain ⟨i, hidx, -⟩ := getNumber1Svc_ok hserve
    refine ⟨⟨_, Bakery.inv_step (e := .getNumber c.req) hq ?_⟩, ?_, ?_, ?_⟩
    · rw [Bakery.step, toOption_eq_some.2 hserve, Option.map_some]
    · rw [map_set _ hc (number_idx c _)]
      exact hi.nodup
    · exact forall_set hi.slots fun _ => ⟨i, hidx⟩
    · exact forall_set hi.attempts fun _ => hi.attempts k c hc (.inl hpc)
  · refine ⟨⟨_, Bakery.inv_step (e := .bakeryService c.req) hq ?_⟩, ?_, ?_, ?_⟩
    · rw [Bakery.step, toOption_eq_some.2 hserve, Option.map_some]
    · rw [map_set _ hc (result_idx c res)]
      exact hi.nodup
    · apply forall_set hi.slots
      intro _
      rw [result_idx]
      exact hi.slots k c hc hpc
    · apply forall_set hi.attempts
      intro hpc'
      obtain ⟨-, hleft, hres⟩ | ⟨-, hret⟩ := result_cases c res
      · rw [hres]
        exact hleft
      · rw [hret] at hpc'
        rcases hpc' with hpc' | hpc' <;> cases hpc'

/-- Every ticket belongs to a client that is still asking for the service. -/
def Held (s : System α) : Prop :=
  ∀ i : Slot, s.server.numbers i ≠ 0 → ∃ (k : ℕ) (c : Client α), s.clients[k]? = some c ∧
    c.req.idx = i.val ∧ c.pc = .service

omit [Number α] in
theorem Held.other (hh : Held s) {k : ℕ} {c c' : Client α} {i j : Slot}
    (hc : s.clients[k]? = some c) (hidx : c.req.idx = i.val) (hij : j ≠ i)
    (hj : s.server.numbers j ≠ 0) :
    ∃ (k' : ℕ) (d : Client α), (s.clients.set k c')[k']? = some d ∧ d.req.idx = j.val ∧
      d.pc = .service := by
  obtain ⟨k', d, hd, hdidx, hdpc⟩ := hh j hj
  refine ⟨k', d, ?_, hdidx, hdpc⟩
  rw [List.getElem?_set_ne, hd]
  rintro rfl
  obtain rfl := Option.some.inj (hc.symm.trans hd)
  exact hij (Fin.ext (by omega))

theorem held_step (hinf : (Number.infinity : α) == Number.infinity) (hi : Inv s) (hh : Held s)
    (hturn : InTurn s e) (h : step s e = some s') : Held s' := by
  obtain ⟨q, hq⟩ := hi.line
  obtain ⟨req, -, -, rfl⟩ | ⟨k, c, server, num, -, hc, hpc, hserve, rfl⟩ |
    ⟨k, c, server, res, rfl, hc, hpc, hserve, rfl⟩ := step_cases h
  · intro i hn
    obtain ⟨k, c, hc, hidx, hpc⟩ := hh i hn
    exact ⟨k, c, get_snoc hc _, hidx, hpc⟩
  · obtain ⟨i, hidx, -, -, hn, -⟩ := getNumber1Svc_ok hserve
    have hself := get_set hc (c.number (some num))
    intro j hj
    by_cases hji : j = i
    · rw [hji]
      exact ⟨k, _, hself, hidx, rfl⟩
    · rw [hn, Function.update_of_ne hji] at hj
      exact hh.other hc hidx hji hj
  · have hself := get_set hc (c.result (some res))
    obtain ⟨i, hidx⟩ := hi.slots k c hc hpc
    obtain ⟨⟨j, hj, hlt⟩, hn, rfl⟩ | ⟨-, hn⟩ := hq.bakeryService1Svc_cases hserve hidx
    · -- refused out of turn, so this was not the last attempt
      have hattempts := hi.attempts k c hc (.inr hpc)
      have hne : c.attempts + 1 ≠ ATTEMPTS := by
        intro hlast
        have := hturn k c i rfl hc hidx hpc hlast j hj
        omega
      have hres : c.result (some Number.infinity) = { c with attempts := c.attempts + 1 } := by
        simp only [Client.result, if_pos hinf, if_pos (show c.attempts + 1 < ATTEMPTS by omega)]
      intro i' hi'
      rw [hn] at hi'
      by_cases hii : i' = i
      · refine ⟨k, _, hself, ?_, ?_⟩
        · rw [hres, hii]
          exact hidx
        · rw [hres]
          exact hpc
      · exact hh.other hc hidx hii hi'
    · intro i' hi'
      by_cases hii : i' = i
      · rw [hn, hii, Function.update_self] at hi'
        exact absurd rfl hi'
      · rw [hn, Function.update_of_ne hii] at hi'
        exact hh.other hc hidx hii hi'

/-- A ticket whose client has returned. -/
def Abandoned (s : System α) (i : Slot) : Prop :=
  s.server.numbers i ≠ 0 ∧ ∃ (k : ℕ) (c : Client α), s.clients[k]? = some c ∧
    c.req.idx = i.val ∧ c.pc = .returned

omit [Number α] in
theorem Held.not_abandoned (hi : Inv s) (hh : Held s) (i : Slot) : ¬ Abandoned s i := by
  rintro ⟨hn, k, c, hc, hidx, hpc⟩
  obtain ⟨k', d, hd, hdidx, hdpc⟩ := hh i hn
  have hcd : c = d := List.inj_on_of_nodup_map hi.nodup (List.mem_of_getElem? hc)
    (List.mem_of_getElem? hd) (hidx.trans hdidx.symm)
  rw [hcd, hdpc] at hpc
  cases hpc

omit [Number α] in
/-- A client of the slot of an abandoned ticket makes no more calls. -/
theorem Abandoned.stays {k : ℕ} {c : Client α} {i : Slot} (ha : Abandoned s i) (hi : Inv s)
    (hc : s.clients[k]? = some c) (hpc : c.pc ≠ .returned) (c' : Client α) :
    c.req.idx ≠ i.val ∧ ∃ (k' : ℕ) (d : Client α), (s.clients.set k c')[k']? = some d ∧
      d.req.idx = i.val ∧ d.pc = .returned := by
  obtain ⟨-, k', d, hd, hdidx, hdpc⟩ := ha
  have hidx : c.req.idx ≠ i.val := by
    intro hidx
    have hcd : c = d := List.inj_on_of_nodup_map hi.nodup (List.mem_of_getElem? hc)
      (List.mem_of_getElem? hd) (hidx.trans hdidx.symm)
    rw [hcd] at hpc
    exact hpc hdpc
  refine ⟨hidx, k', d, ?_, hdidx, hdpc⟩
  rw [List.getElem?_set_ne, hd]
  rintro rfl
  obtain rfl := Option.some.inj (hc.symm.trans hd)
  exact hidx hdidx

/-- Nobody else clears it. -/
theorem abandoned_step {i : Slot} (hi : Inv s) (ha : Abandoned s i) (h : step s e = some s') :
    Abandoned s' i := by
  obtain ⟨q, hq⟩ := hi.line
  obtain ⟨req, -, -, rfl⟩ | ⟨k, c, server, num, -, hc, hpc, hserve, rfl⟩ |
    ⟨k, c, server, res, -, hc, hpc, hserve, rfl⟩ := step_cases h
  · obtain ⟨hn, k, c, hc, hidx, hpc⟩ := ha
    exact ⟨hn, k, c, get_snoc hc _, hidx, hpc⟩
  · have hpc' : c.pc ≠ .returned := by simp [hpc]
    obtain ⟨hidx, hstays⟩ := ha.stays hi hc hpc' (c.number (some num))
    obtain ⟨i', hidx', -, -, hn, -⟩ := getNumber1Svc_ok hserve
    have hne : i ≠ i' := by
      rintro rfl
      exact hidx hidx'
    refine ⟨?_, hstays⟩
    show server.numbers i ≠ 0
    rw [hn, Function.update_of_ne hne]
    exact ha.1
  · have hpc' : c.pc ≠ .returned := by simp [hpc]
    obtain ⟨hidx, hstays⟩ := ha.stays hi hc hpc' (c.result (some res))
    obtain ⟨i', hidx'⟩ := hi.slots k c hc hpc
    have hne : i ≠ i' := by
      rintro rfl
      exact hidx hidx'
    refine ⟨?_, hstays⟩
    show server.numbers i ≠ 0
    obtain ⟨-, hn, -⟩ | ⟨-, hn⟩ := hq.bakeryService1Svc_cases hserve hidx'
    · rw [hn]
      exact ha.1
    · rw [hn, Function.update_of_ne hne]
      exact ha.1

theorem abandons (hi : Inv s) (hturn : ¬ InTurn s e) (h : step s e = some s') :
    ∃ i, Abandoned s' i := by
  obtain ⟨q, hq⟩ := hi.line
  simp only [InTurn, not_forall, not_le] at hturn
  obtain ⟨k, c, i, rfl, hc, hidx, hpc, hlast, j, hj, hlt⟩ := hturn
  obtain ⟨req, he, -⟩ | ⟨k', d, server, num, he, hd, hdpc, -, -⟩ |
    ⟨k', d, server, res, he, hd, -, hserve, rfl⟩ := step_cases h
  · cases he
  · cases he
    obtain rfl := Option.some.inj (hc.symm.trans hd)
    rw [hpc] at hdpc
    cases hdpc
  · cases he
    obtain rfl := Option.some.inj (hc.symm.trans hd)
    obtain ⟨-, hn, rfl⟩ | ⟨hmin, -⟩ := hq.bakeryService1Svc_cases hserve hidx
    · have hself := get_set hc (c.result (some Number.infinity))
      refine ⟨i, ?_, k, _, hself, ?_, ?_⟩
      · show server.numbers i ≠ 0
        have hpos := hq.nonneg j
        rw [hn]
        omega
      · rw [result_idx]
        exact hidx
      · obtain ⟨-, hleft, -⟩ | ⟨-, hret⟩ := result_cases c (Number.infinity : α)
        · omega
        · exact hret
    · have := hmin j hj
      omega

/-- No run abandons a ticket unless some client is refused for the last time. -/
theorem never_abandoned_iff (hinf : (Number.infinity : α) == Number.infinity)
    {tr : List (System α × Event α)} (h : Run step init tr s) :
    Always (fun s => ∀ i, ¬ Abandoned s i) tr s ↔ EachStep InTurn tr := by
  refine h.always_iff (I := fun s => Inv s ∧ Held s) ⟨inv_init, fun i hn => absurd rfl hn⟩
    (fun s hi => hi.2.not_abandoned hi.1) ?_ ?_
  · intro s e s' hi hturn he
    exact ⟨inv_step hi.1 he, held_step hinf hi.1 hi.2 hturn he⟩
  · intro s e s' hi hturn he hnone
    obtain ⟨i, ha⟩ := abandons hi.1 hturn he
    exact hnone i ha

/-- When all clients have returned, no ticket is left exactly if no client made its last
attempt while another slot held a smaller ticket. -/
theorem noTickets_iff_inTurn {α : Type} [Number α]
    (hinf : (Number.infinity : α) == Number.infinity) {tr : List (System α × Event α)}
    {s : System α} (h : Run step init tr s) (hret : AllReturned s) :
    NoTickets s ↔ EachStep InTurn tr := by
  have hinv := h.always inv_init fun _ _ _ => inv_step
  rw [← never_abandoned_iff hinf h]
  constructor
  · intro hnone
    have hlast : ∀ i, ¬ Abandoned s i := fun i ha => ha.1 (hnone i)
    refine ⟨?_, hlast⟩
    intro p hp i ha
    obtain ⟨before, after, hsplit⟩ := List.append_of_mem hp
    have hstays := h.stays (P := fun s => Inv s ∧ Abandoned s i)
      (fun s e s' hi he => ⟨inv_step hi.1 he, abandoned_step hi.1 hi.2 he⟩) hsplit
      ⟨hinv.1 p hp, ha⟩
    exact hlast i hstays.2.2
  · intro hnone i
    by_contra hn
    have hc := (never_abandoned_iff hinf h).1 hnone
    have hheld := h.always_of_eachStep (I := fun s => Inv s ∧ Held s)
      ⟨inv_init, fun i hn => absurd rfl hn⟩
      (fun s e s' hi hturn he => ⟨inv_step hi.1 he, held_step hinf hi.1 hi.2 hturn he⟩) hc
    obtain ⟨k, c, hk, hidx, hpc⟩ := hheld.2.2 i hn
    have hpc' := hret c (List.mem_of_getElem? hk)
    rw [hpc] at hpc'
    cases hpc'

instance (s : System α) : Decidable (AllReturned s) :=
  inferInstanceAs (Decidable (∀ c ∈ s.clients, c.pc = .returned))

/-- Two clients take tickets; the second asks until it gives up, then the first is served. -/
def gaveUp : List (Event (Option ℤ)) :=
  [.start (request 0 0), .start (request 1 0), .call 0, .call 1] ++
    List.replicate ATTEMPTS (.call 1) ++ [.call 0]

theorem noTickets_fails :
    ¬ ∀ tr (s : System (Option ℤ)), Run step init tr s → AllReturned s → NoTickets s := by
  intro h
  have hret : AllReturned ((exec step init gaveUp).get (by decide +kernel)) := by decide +kernel
  have hnone : NoTickets ((exec step init gaveUp).get (by decide +kernel)) :=
    h _ _ (run_of_isSome init gaveUp (by decide +kernel)) hret
  have hleft : ((exec step init gaveUp).get (by decide +kernel)).server.numbers 1 ≠ 0 := by
    decide +kernel
  exact hleft (hnone 1)

/-- A client is turned away by another one that has taken its ticket before it, until that is
served. -/
def twoClients : List (Event (Option ℤ)) :=
  [.start (request 0 0), .start (request 1 0), .call 0, .call 1, .call 1, .call 0, .call 1]

theorem noTickets_iff_inTurn_twoClients :
    AllReturned ((exec step init twoClients).get (by decide +kernel)) ∧
      EachStep InTurn (trace step init twoClients) := by
  have hret : AllReturned ((exec step init twoClients).get (by decide +kernel)) := by
    decide +kernel
  have hnone : NoTickets ((exec step init twoClients).get (by decide +kernel)) := by
    unfold NoTickets
    decide +kernel
  exact ⟨hret, (noTickets_iff_inTurn rfl (run_of_isSome init twoClients (by decide +kernel))
    hret).1 hnone⟩

end System

end OsLabs.Bakery
