import OsLabs.Sanity.ProdconsTickets
import OsLabs.Spec.ProdconsClient

/-! What a step of the producer-consumer system can do: to the client's threads, to the
datagrams and to the server. The books of the server are kept throughout. -/

namespace OsLabs.Prodcons

namespace Service

variable {s service : Service} {argp : REQUEST} {alloc create : Bool} {result : Option REQUEST}

/-- A request that is answered is a step of the server. -/
theorem step_of_service1Svc (h : s.service1Svc argp alloc create = .ok (service, result)) :
    s.step (.call argp alloc create) = some service := by
  rw [step, toOption_eq_some.2 h, Option.map_some]

theorem not_isLetter_none : ¬ isLetter NONE := by decide

/-- A poll with a ticket gets the ticket back, and a letter only if it was stored for it. -/
theorem Books.polled (hb : Books s) (h : s.service1Svc argp alloc create = .ok (service, result))
    (hidx : 0 ≤ argp.idx) (hnone : argp.result = NONE) :
    service = s ∧ ∃ r, result = some r ∧ r.idx = argp.idx ∧
      (isLetter r.result → (argp.idx, r.result) ∈ s.finished) := by
  obtain ⟨-, rfl, r, hpoll, hr⟩ | ⟨hneg, -⟩ := service1Svc_cases h
  · refine ⟨rfl, r, hr, ?_⟩
    simp only [poll, if_pos hnone] at hpoll
    split_ifs at hpoll with hlt hletter
    · obtain rfl := Except.ok.inj hpoll
      refine ⟨rfl, ?_⟩
      intro _
      rcases hb.source argp.idx with h0 | hmem
      · rw [h0] at hletter
        exact absurd hletter (by decide)
      · exact hmem
    · obtain rfl := Except.ok.inj hpoll
      exact ⟨rfl, fun hn => absurd hn not_isLetter_none⟩
  · omega

/-- A registration gets the next ticket, if it gets a reply. -/
theorem registered (h : s.service1Svc argp alloc create = .ok (service, result))
    (hidx : argp.idx < 0) :
    ∀ r, result = some r → r.idx = s.idx ∧ r.result = NONE := by
  obtain ⟨hpos, -⟩ | ⟨-, hreg⟩ := service1Svc_cases h
  · omega
  · unfold register at hreg
    split_ifs at hreg
    · intro r hr
      split at hreg <;> obtain ⟨-, rfl⟩ := Prod.mk.inj hreg <;> obtain rfl := Option.some.inj hr <;>
        exact ⟨rfl, rfl⟩
    · obtain ⟨-, rfl⟩ := Prod.mk.inj hreg
      exact nofun

theorem finished_mono {s' : Service} {e : Event} (h : s.step e = some s') :
    s.finished ⊆ s'.finished := by
  obtain ⟨argp, alloc, create, -, -, rfl⟩ | ⟨argp, alloc, create, -, -, rfl⟩ |
    ⟨k, workers, -, -, rfl⟩ | ⟨k, workers, -, -, rfl⟩ := step_cases h
  · exact List.Subset.refl _
  · rcases register_cases s argp alloc create with h | ⟨kind, h⟩ <;> rw [h] <;>
      exact List.Subset.refl _
  · exact List.subset_append_left _ _
  · exact List.Subset.refl _

end Service

namespace System

variable {s s' : System} {e : Event}

theorem step_cases (h : step s e = some s') :
    (∃ type, e = .spawn type ∧ s' = { s with threads := s.threads ++ [.new type] }) ∨
    (∃ j t t', e = .call j ∧ s.threads[j]? = some t ∧ t.call = some t' ∧
      s' = { s.goto j t' with
        requests := s.requests ++ [request j t'], clntRes := ⟨0, 0, 0⟩, caller := some j }) ∨
    (∃ j t, e = .resend j ∧ s.threads[j]? = some t ∧ t.calling ∧
      s' = { s with requests := s.requests ++ [request j t] }) ∨
    (∃ j t t', s.threads[j]? = some t ∧ s' = s.goto j t' ∧
      (e = .read j ∧ t.read s.clntRes = some t' ∨
        (∃ late, e = .time j late ∧ t.time late = some t') ∨
          e = .timeout j ∧ t.fail = some t')) ∨
    (∃ requests replies, requests.Sublist s.requests ∧ replies.Sublist s.replies ∧
      (∀ n alloc create, e ≠ .deliver n alloc create) ∧ s' = { s with requests, replies }) ∨
    (∃ n d alloc create service result, e = .deliver n alloc create ∧ s.requests[n]? = some d ∧
      s.service.service1Svc d.body alloc create = .ok (service, result) ∧
      s' = { s with
        service := service
        requests := s.requests.eraseIdx n
        replies := s.replies ++ result.toList.map fun r => ⟨d.thread, d.xid, r⟩
        issued := s.issued ++ newTickets d.thread s.service service }) ∨
    (∃ n d t t', e = .receive n ∧ s.replies[n]? = some d ∧ s.threads[d.thread]? = some t ∧
      t.xid = d.xid ∧ t.succeed = some t' ∧
      s' = { s.goto d.thread t' with
        replies := s.replies.eraseIdx n, clntRes := d.body, caller := some d.thread }) ∨
    ∃ e' service, e = .server e' ∧ s.service.step e' = some service ∧ s' = { s with service } := by
  cases e with
  | spawn type => exact .inl ⟨type, rfl, by simpa [step] using h.symm⟩
  | call j =>
    simp only [step, Option.bind_eq_bind, Option.bind_eq_some_iff] at h
    obtain ⟨t, ht, t', ht', h⟩ := h
    exact .inr (.inl ⟨j, t, t', rfl, ht, ht', by simpa using h.symm⟩)
  | resend j =>
    simp only [step, Option.bind_eq_bind, Option.bind_eq_some_iff] at h
    obtain ⟨t, ht, h⟩ := h
    split_ifs at h with hc
    exact .inr (.inr (.inl ⟨j, t, rfl, ht, hc, by simpa using h.symm⟩))
  | read j =>
    simp only [step, Option.bind_eq_bind, Option.bind_eq_some_iff] at h
    obtain ⟨t, ht, t', ht', h⟩ := h
    exact .inr (.inr (.inr (.inl ⟨j, t, t', ht, by simpa using h.symm, .inl ⟨rfl, ht'⟩⟩)))
  | time j late =>
    simp only [step, Option.bind_eq_bind, Option.bind_eq_some_iff] at h
    obtain ⟨t, ht, t', ht', h⟩ := h
    exact .inr (.inr (.inr (.inl
      ⟨j, t, t', ht, by simpa using h.symm, .inr (.inl ⟨late, rfl, ht'⟩)⟩)))
  | timeout j =>
    simp only [step, Option.bind_eq_bind, Option.bind_eq_some_iff] at h
    obtain ⟨t, ht, t', ht', h⟩ := h
    exact .inr (.inr (.inr (.inl
      ⟨j, t, t', ht, by simpa using h.symm, .inr (.inr ⟨rfl, ht'⟩)⟩)))
  | loseRequest n =>
    obtain rfl := Option.some.inj h
    exact .inr (.inr (.inr (.inr (.inl
      ⟨_, _, List.eraseIdx_sublist .., List.Sublist.refl _, nofun, rfl⟩))))
  | loseReply n =>
    obtain rfl := Option.some.inj h
    exact .inr (.inr (.inr (.inr (.inl
      ⟨_, _, List.Sublist.refl _, List.eraseIdx_sublist .., nofun, rfl⟩))))
  | deliver n alloc create =>
    simp only [step, serve, Option.bind_eq_bind, Option.bind_eq_some_iff] at h
    obtain ⟨d, hd, ⟨service, result⟩, hserve, h⟩ := h
    exact .inr (.inr (.inr (.inr (.inr (.inl ⟨n, d, alloc, create, service, result, rfl, hd,
      toOption_eq_some.1 hserve, by simpa using h.symm⟩)))))
  | receive n =>
    simp only [step, accept, Option.bind_eq_bind, Option.bind_eq_some_iff] at h
    obtain ⟨d, hd, t, ht, h⟩ := h
    split_ifs at h with hc
    · obtain ⟨t', ht', h⟩ := Option.bind_eq_some_iff.1 h
      rw [Bool.and_eq_true, decide_eq_true_eq] at hc
      exact .inr (.inr (.inr (.inr (.inr (.inr (.inl
        ⟨n, d, t, t', rfl, hd, ht, hc.1, ht', (Option.some.inj h).symm⟩))))))
    · obtain rfl := Option.some.inj h
      exact .inr (.inr (.inr (.inr (.inl
        ⟨_, _, List.Sublist.refl _, List.eraseIdx_sublist .., nofun, rfl⟩))))
  | server e' =>
    simp only [step, Option.bind_eq_bind, Option.bind_eq_some_iff] at h
    obtain ⟨service, hservice, h⟩ := h
    exact .inr (.inr (.inr (.inr (.inr (.inr (.inr
      ⟨e', service, rfl, hservice, by simpa using h.symm⟩))))))

/-- A poll takes no ticket, and a registration the next one. -/
theorem newTickets_eq {d : Datagram} {alloc create : Bool} {service : Service}
    {result : Option REQUEST} (h : s.service.service1Svc d.body alloc create = .ok (service, result)) :
    newTickets d.thread s.service service =
      if 0 ≤ d.body.idx then [] else [(d.thread, s.service.idx)] := by
  obtain ⟨hidx, rfl, -⟩ | ⟨hidx, hreg⟩ := Service.service1Svc_cases h
  · simp [newTickets, hidx]
  · have hnext : service.idx = s.service.idx + 1 := by
      obtain rfl : (s.service.register d.body alloc create).1 = service := congrArg Prod.fst hreg
      rcases Service.register_cases s.service d.body alloc create with h | ⟨kind, h⟩ <;> rw [h]
    simp [newTickets, hnext, not_le.2 hidx]

theorem issued_step (h : step s e = some s') :
    (s'.issued = s.issued ∧ ∀ j, registers j s e = false) ∨
      ∃ n d alloc create, e = .deliver n alloc create ∧ s.requests[n]? = some d ∧
        s'.issued = s.issued ++ if 0 ≤ d.body.idx then [] else [(d.thread, s.service.idx)] := by
  obtain ⟨type, rfl, rfl⟩ | ⟨i, t, t', rfl, -, -, rfl⟩ | ⟨i, t, rfl, -, -, rfl⟩ |
    ⟨i, t, t', -, rfl, he⟩ | ⟨requests, replies, -, -, he, rfl⟩ |
    ⟨n, d, alloc, create, service, result, rfl, hd, hserve, rfl⟩ |
    ⟨n, d, t, t', rfl, -, -, -, -, rfl⟩ | ⟨e', service, rfl, -, rfl⟩ := step_cases h
  · exact .inl ⟨rfl, fun _ => rfl⟩
  · exact .inl ⟨rfl, fun _ => rfl⟩
  · exact .inl ⟨rfl, fun _ => rfl⟩
  · obtain ⟨rfl, -⟩ | ⟨late, rfl, -⟩ | ⟨rfl, -⟩ := he <;> exact .inl ⟨rfl, fun _ => rfl⟩
  · refine .inl ⟨rfl, ?_⟩
    intro j
    unfold registers
    split
    · exact absurd rfl (he _ _ _)
    · rfl
  · exact .inr ⟨n, d, alloc, create, rfl, hd, by rw [newTickets_eq hserve]⟩
  · exact .inl ⟨rfl, fun _ => rfl⟩
  · exact .inl ⟨rfl, fun _ => rfl⟩

theorem service_step (h : step s e = some s') :
    s'.service = s.service ∨ ∃ e', s.service.step e' = some s'.service := by
  obtain ⟨type, -, rfl⟩ | ⟨j, t, t', -, -, -, rfl⟩ | ⟨j, t, -, -, -, rfl⟩ | ⟨j, t, t', -, rfl, -⟩ |
    ⟨requests, replies, -, -, -, rfl⟩ | ⟨n, d, alloc, create, service, result, -, -, hserve, rfl⟩ |
    ⟨n, d, t, t', -, -, -, -, -, rfl⟩ | ⟨e', service, -, hservice, rfl⟩ := step_cases h
  · exact .inl rfl
  · exact .inl rfl
  · exact .inl rfl
  · exact .inl rfl
  · exact .inl rfl
  · exact .inr ⟨_, Service.step_of_service1Svc hserve⟩
  · exact .inl rfl
  · exact .inr ⟨e', hservice⟩

theorem books_step (hb : s.service.Books) (h : step s e = some s') : s'.service.Books := by
  rcases service_step h with hs | ⟨e', hs⟩
  · rw [hs]
    exact hb
  · exact Service.books_step hb hs

theorem finished_mono (h : step s e = some s') : s.service.finished ⊆ s'.service.finished := by
  rcases service_step h with hs | ⟨e', hs⟩
  · rw [hs]
    exact List.Subset.refl _
  · exact Service.finished_mono hs

end System

end OsLabs.Prodcons
