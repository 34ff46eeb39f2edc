import OsLabs.Sanity.ProdconsThread

/-! Tickets and the static reply. All threads of the client are handed the same `clntRes`; as
long as no other thread's call comes between a thread's call and the reads that matter, each
thread keeps to its own ticket. -/

namespace OsLabs.Prodcons

variable {issued issued' : List (ℕ × ℤ)} {finished finished' : List (ℤ × UInt8)} {j : ℕ}
  {t t' : Thread} {d : Datagram}

/-- A request on its way: a copy of its thread's registration, or a poll for its ticket. -/
def Datagram.Asked (d : Datagram) (t : Thread) : Prop :=
  d.xid ≤ t.xid ∧ (d.xid = 1 ∧ d.body.idx < 0 ∨
    1 < d.xid ∧ t.pc.knows ∧ d.body.idx = t.idx ∧ d.body.result = NONE)

/-- A reply on its way: a ticket of its thread, or what is stored for the thread's ticket. -/
def Datagram.Answered (d : Datagram) (issued : List (ℕ × ℤ)) (finished : List (ℤ × UInt8))
    (t : Thread) : Prop :=
  d.xid ≤ t.xid ∧ (d.xid = 1 ∧ (d.thread, d.body.idx) ∈ issued ∧ d.body.result = NONE ∨
    1 < d.xid ∧ t.pc.knows ∧ (isLetter d.body.result → (t.idx, d.body.result) ∈ finished))

theorem Datagram.Asked.later (h : d.Asked t) (hl : t.Later t') : d.Asked t' := by
  obtain ⟨hle, h | ⟨hx, hk, hidx, hnone⟩⟩ := h
  · exact ⟨hle.trans hl.xid, .inl h⟩
  · obtain ⟨hk', hidx'⟩ := hl.keeps hk
    exact ⟨hle.trans hl.xid, .inr ⟨hx, hk', hidx.trans hidx'.symm, hnone⟩⟩

theorem Datagram.Answered.later (h : d.Answered issued finished t) (hl : t.Later t')
    (hi : issued ⊆ issued') (hf : finished ⊆ finished') : d.Answered issued' finished' t' := by
  obtain ⟨hle, ⟨hx, hmem, hnone⟩ | ⟨hx, hk, hletter⟩⟩ := h
  · exact ⟨hle.trans hl.xid, .inl ⟨hx, hi hmem, hnone⟩⟩
  · obtain ⟨hk', hidx'⟩ := hl.keeps hk
    refine ⟨hle.trans hl.xid, .inr ⟨hx, hk', ?_⟩⟩
    rw [hidx']
    exact fun hr => hf (hletter hr)

theorem Thread.Ok.asked (h : t.Ok issued finished j) (hc : t.calling) :
    (System.request j t).Asked t := by
  simp only [Thread.calling, Bool.or_eq_true, decide_eq_true_eq] at hc
  refine ⟨le_rfl, ?_⟩
  rcases hc with hpc | hpc
  · have hx := h.xid_eq_one (.inl hpc)
    exact .inl ⟨hx, h.registers (.inr hpc)⟩
  · have hx := h.one_lt_xid hpc
    exact .inr ⟨hx, by rw [hpc]; rfl, h.asks hpc, h.waits (by simp [hpc])⟩

/-- The reply to the call a thread is in is the thread's own. -/
theorem Thread.Ok.holds (h : t.Ok issued finished d.thread) (ha : d.Answered issued finished t)
    (hx : t.xid = d.xid) (hs : t.succeed = some t') :
    t'.Holds d.body issued finished d.thread := by
  obtain ⟨-, ⟨hone, hmem, hnone⟩ | ⟨hlt, -, hletter⟩⟩ := ha
  · obtain ⟨-, rfl⟩ | ⟨hpc, rfl⟩ := Thread.succeed_cases hs
    · exact ⟨fun _ => ⟨hmem, hnone⟩, nofun, nofun, nofun⟩
    · have := h.one_lt_xid hpc
      omega
  · obtain ⟨hpc, rfl⟩ | ⟨-, rfl⟩ := Thread.succeed_cases hs
    · have := h.xid_eq_one (.inl hpc)
      omega
    · exact ⟨nofun, fun _ => hletter, nofun, nofun⟩

namespace System

variable {s s' : System} {e : Event}

/-- What the steps never take back. -/
structure Grows (s s' : System) : Prop where
  issued : s.issued ⊆ s'.issued
  finished : s.service.finished ⊆ s'.service.finished
  threads : ∀ (j : ℕ) (t : Thread), s.threads[j]? = some t →
    ∃ t', s'.threads[j]? = some t' ∧ t.Later t'

theorem later_set {ts : List Thread} {i : ℕ} {u u' : Thread} (hu : ts[i]? = some u)
    (hl : u.Later u') {j : ℕ} {t : Thread} (ht : ts[j]? = some t) :
    ∃ t', (ts.set i u')[j]? = some t' ∧ t.Later t' := by
  by_cases hij : i = j
  · subst hij
    obtain rfl : u = t := Option.some.inj (hu.symm.trans ht)
    exact ⟨u', get_set hu u', hl⟩
  · rw [List.getElem?_set_ne hij]
    exact ⟨t, ht, .refl t⟩

theorem grows_step (h : step s e = some s') : Grows s s' := by
  refine ⟨?_, finished_mono h, ?_⟩
  · obtain ⟨hissued, -⟩ | ⟨n, d, alloc, create, -, -, hissued⟩ := issued_step h
    · rw [hissued]
      exact List.Subset.refl _
    · rw [hissued]
      exact List.subset_append_left _ _
  · intro j t ht
    have hsame : ∃ t', s.threads[j]? = some t' ∧ t.Later t' := ⟨t, ht, .refl t⟩
    obtain ⟨type, -, rfl⟩ | ⟨i, u, u', -, hu, hu', rfl⟩ | ⟨i, u, -, -, -, rfl⟩ |
      ⟨i, u, u', hu, rfl, hu'⟩ | ⟨requests, replies, -, -, -, rfl⟩ |
      ⟨n, d, alloc, create, service, result, -, -, -, rfl⟩ | ⟨n, d, u, u', -, -, hu, -, hu', rfl⟩ |
      ⟨e', service, -, -, rfl⟩ := step_cases h
    · exact ⟨t, get_snoc ht _, .refl t⟩
    · exact later_set hu (Thread.later_call hu') ht
    · exact hsame
    · obtain ⟨-, hu'⟩ | ⟨late, -, hu'⟩ | ⟨-, hu'⟩ := hu'
      · exact later_set hu (Thread.later_read hu') ht
      · exact later_set hu (Thread.later_time hu') ht
      · exact later_set hu (Thread.later_fail hu') ht
    · exact hsame
    · exact hsame
    · exact later_set hu (Thread.later_succeed hu') ht
    · exact hsame

/-- What is known of the whole system. -/
structure Inv (s : System) : Prop where
  books : s.service.Books
  nonneg : ∀ p ∈ s.issued, 0 ≤ p.2
  threads : ∀ (j : ℕ) (t : Thread), s.threads[j]? = some t → t.Ok s.issued s.service.finished j
  requests : ∀ d ∈ s.requests, ∃ t, s.threads[d.thread]? = some t ∧ d.Asked t
  replies : ∀ d ∈ s.replies, ∃ t, s.threads[d.thread]? = some t ∧
    d.Answered s.issued s.service.finished t
  holds : ∀ (j : ℕ) (t : Thread), s.caller = some j → s.threads[j]? = some t →
    t.Holds s.clntRes s.issued s.service.finished j

theorem inv_init : Inv init where
  books := Service.books_init
  nonneg := nofun
  threads := nofun
  requests := nofun
  replies := nofun
  holds := nofun

theorem Inv.ownTickets (hi : Inv s) : OwnTickets s := by
  intro j t ht
  have hok := hi.threads j t ht
  constructor
  · intro i hmem
    obtain ⟨hk, rfl⟩ := hok.polls i hmem
    exact hok.owns hk
  · intro hpc
    obtain ⟨hidx, hmem⟩ := hok.printed hpc
    rw [hidx]
    exact ⟨hok.owns (by rw [hpc]; rfl), hmem⟩

theorem nonneg_step (hi : Inv s) (h : step s e = some s') : ∀ p ∈ s'.issued, 0 ≤ p.2 := by
  obtain ⟨hissued, -⟩ | ⟨n, d, alloc, create, -, -, hissued⟩ := issued_step h
  · rw [hissued]
    exact hi.nonneg
  · rw [hissued]
    intro p hp
    rcases List.mem_append.1 hp with hp | hp
    · exact hi.nonneg p hp
    · split_ifs at hp
      · cases hp
      · obtain rfl := List.mem_singleton.1 hp
        exact hi.books.tickets.nonneg

theorem threads_step (hi : Inv s) (hu : Undisturbed s e) (h : step s e = some s') :
    ∀ (j : ℕ) (t : Thread), s'.threads[j]? = some t → t.Ok s'.issued s'.service.finished j := by
  have hg := grows_step h
  have hold : ∀ (j : ℕ) (t : Thread), s.threads[j]? = some t →
      t.Ok s'.issued s'.service.finished j :=
    fun j t ht => (hi.threads j t ht).mono hg.issued hg.finished
  obtain ⟨type, -, rfl⟩ | ⟨i, u, u', -, hth, hcall, rfl⟩ | ⟨i, u, -, -, -, rfl⟩ |
    ⟨i, u, u', hth, rfl, he⟩ | ⟨requests, replies, -, -, -, rfl⟩ |
    ⟨n, d, alloc, create, service, result, -, -, -, rfl⟩ |
    ⟨n, d, u, u', -, -, hth, -, hsucceed, rfl⟩ | ⟨e', service, -, -, rfl⟩ := step_cases h
  · exact forall_snoc hold fun _ => Thread.ok_new type
  · exact forall_set hold ((hi.threads i u hth).call hcall)
  · exact hold
  · apply forall_set hold
    obtain ⟨rfl, hread⟩ | ⟨late, -, htime⟩ | ⟨-, hfail⟩ := he
    · refine (hi.threads i u hth).read ?_ hread
      intro hpc
      exact hi.holds i u (hu i u rfl hth hpc) hth
    · exact (hi.threads i u hth).time htime
    · exact (hi.threads i u hth).fail hfail
  · exact hold
  · exact hold
  · exact forall_set hold ((hi.threads d.thread u hth).succeed hsucceed)
  · exact hold

theorem requests_step (hi : Inv s) (h : step s e = some s') :
    ∀ d ∈ s'.requests, ∃ t, s'.threads[d.thread]? = some t ∧ d.Asked t := by
  have hg := grows_step h
  have hold : ∀ d ∈ s.requests, ∃ t, s'.threads[d.thread]? = some t ∧ d.Asked t := by
    intro d hd
    obtain ⟨t, ht, hasked⟩ := hi.requests d hd
    obtain ⟨t', ht', hlater⟩ := hg.threads _ t ht
    exact ⟨t', ht', hasked.later hlater⟩
  obtain ⟨type, -, rfl⟩ | ⟨i, u, u', -, hth, hcall, rfl⟩ | ⟨i, u, -, hth, hcalling, rfl⟩ |
    ⟨i, u, u', -, rfl, -⟩ | ⟨requests, replies, hsub, -, -, rfl⟩ |
    ⟨n, d, alloc, create, service, result, -, -, -, rfl⟩ | ⟨n, d, u, u', -, -, -, -, -, rfl⟩ |
    ⟨e', service, -, -, rfl⟩ := step_cases h
  · exact hold
  · intro d hd
    rcases List.mem_append.1 hd with hd | hd
    · exact hold d hd
    · obtain rfl := List.mem_singleton.1 hd
      refine ⟨u', get_set hth u', ?_⟩
      exact ((hi.threads i u hth).call hcall).asked (Thread.calling_of_call hcall)
  · intro d hd
    rcases List.mem_append.1 hd with hd | hd
    · exact hold d hd
    · obtain rfl := List.mem_singleton.1 hd
      exact ⟨u, hth, (hi.threads i u hth).asked hcalling⟩
  · exact hold
  · exact fun d hd => hold d (hsub.subset hd)
  · exact fun d hd => hold d (List.eraseIdx_subset hd)
  · exact hold
  · exact hold

theorem Inv.answered (hi : Inv s) {d : Datagram} {t : Thread} {alloc create : Bool}
    {service : Service} {r : REQUEST} (ht : s.threads[d.thread]? = some t) (hd : d.Asked t)
    (hserve : s.service.service1Svc d.body alloc create = .ok (service, some r)) :
    (⟨d.thread, d.xid, r⟩ : Datagram).Answered (s.issued ++ newTickets d.thread s.service service)
      service.finished t := by
  obtain ⟨hle, ⟨hone, hneg⟩ | ⟨hlt, hk, hidx, hnone⟩⟩ := hd
  · obtain ⟨hr, hresult⟩ := Service.registered hserve hneg r rfl
    refine ⟨hle, .inl ⟨hone, ?_, hresult⟩⟩
    rw [newTickets_eq hserve, if_neg (not_le.2 hneg), hr]
    exact List.mem_append_right _ List.mem_cons_self
  · have hpos : 0 ≤ d.body.idx := by
      rw [hidx]
      exact hi.nonneg _ ((hi.threads _ t ht).owns hk)
    obtain ⟨rfl, r', hr', -, hletter⟩ := hi.books.polled hserve hpos hnone
    obtain rfl := Option.some.inj hr'
    rw [hidx] at hletter
    exact ⟨hle, .inr ⟨hlt, hk, hletter⟩⟩

theorem replies_step (hi : Inv s) (h : step s e = some s') :
    ∀ d ∈ s'.replies, ∃ t, s'.threads[d.thread]? = some t ∧
      d.Answered s'.issued s'.service.finished t := by
  have hg := grows_step h
  have hold : ∀ d ∈ s.replies, ∃ t, s'.threads[d.thread]? = some t ∧
      d.Answered s'.issued s'.service.finished t := by
    intro d hd
    obtain ⟨t, ht, hanswered⟩ := hi.replies d hd
    obtain ⟨t', ht', hlater⟩ := hg.threads _ t ht
    exact ⟨t', ht', hanswered.later hlater hg.issued hg.finished⟩
  obtain ⟨type, -, rfl⟩ | ⟨i, u, u', -, -, -, rfl⟩ | ⟨i, u, -, -, -, rfl⟩ | ⟨i, u, u', -, rfl, -⟩ |
    ⟨requests, replies, -, hsub, -, rfl⟩ |
    ⟨n, d, alloc, create, service, result, -, hreq, hserve, rfl⟩ |
    ⟨n, d, u, u', -, -, -, -, -, rfl⟩ | ⟨e', service, -, -, rfl⟩ := step_cases h
  · exact hold
  · exact hold
  · exact hold
  · exact hold
  · exact fun d hd => hold d (hsub.subset hd)
  · intro d' hd'
    rcases List.mem_append.1 hd' with hd' | hd'
    · exact hold d' hd'
    · obtain ⟨r, hr, rfl⟩ := List.mem_map.1 hd'
      obtain rfl := Option.mem_toList.1 hr
      obtain ⟨t, ht, hasked⟩ := hi.requests d (List.mem_of_getElem? hreq)
      exact ⟨t, ht, hi.answered ht hasked hserve⟩
  · exact fun d' hd' => hold d' (List.eraseIdx_subset hd')
  · exact hold

theorem holds_step (hi : Inv s) (ht : InTime s e) (h : step s e = some s') :
    ∀ (j : ℕ) (t : Thread), s'.caller = some j → s'.threads[j]? = some t →
      t.Holds s'.clntRes s'.issued s'.service.finished j := by
  have hg := grows_step h
  have hold : ∀ (j : ℕ) (t : Thread), s.threads[j]? = some t → s.caller = some j →
      t.Holds s.clntRes s'.issued s'.service.finished j :=
    fun j t ht hc => (hi.holds j t hc ht).mono hg.issued hg.finished
  obtain ⟨type, -, rfl⟩ | ⟨i, u, u', -, hth, hcall, rfl⟩ | ⟨i, u, -, -, -, rfl⟩ |
    ⟨i, u, u', hth, rfl, he⟩ | ⟨requests, replies, -, -, -, rfl⟩ |
    ⟨n, d, alloc, create, service, result, -, -, -, rfl⟩ |
    ⟨n, d, u, u', -, hrep, hth, hxid, hsucceed, rfl⟩ | ⟨e', service, -, -, rfl⟩ := step_cases h
  · exact fun j t hc hth => forall_snoc hold (fun _ _ => Thread.holds_new type) j t hth hc
  · intro j t hc hth'
    obtain rfl := Option.some.inj hc
    obtain rfl := Option.some.inj ((get_set hth u').symm.trans hth')
    exact Thread.holds_call hcall
  · exact fun j t hc hth => hold j t hth hc
  · intro j t hc hth'
    refine forall_set hold ?_ j t hth' hc
    intro hc
    obtain ⟨-, hread⟩ | ⟨late, rfl, htime⟩ | ⟨-, hfail⟩ := he
    · exact (hi.holds i u hc hth).read hread
    · refine (hi.holds i u hc hth).time ?_ htime
      rintro rfl
      exact ht i rfl
    · exact Thread.holds_fail hfail
  · exact fun j t hc hth => hold j t hth hc
  · exact fun j t hc hth => hold j t hth hc
  · intro j t hc hth'
    obtain rfl := Option.some.inj hc
    obtain rfl := Option.some.inj ((get_set hth u').symm.trans hth')
    obtain ⟨v, hv, hanswered⟩ := hi.replies d (List.mem_of_getElem? hrep)
    obtain rfl := Option.some.inj (hv.symm.trans hth)
    exact (hi.threads _ v hth).holds hanswered hxid hsucceed
  · exact fun j t hc hth => hold j t hth hc

theorem inv_step (hi : Inv s) (hu : Undisturbed s e) (ht : InTime s e) (h : step s e = some s') :
    Inv s' where
  books := books_step hi.books h
  nonneg := nonneg_step hi h
  threads := threads_step hi hu h
  requests := requests_step hi h
  replies := replies_step hi h
  holds := holds_step hi ht h

/-- In a run in which no thread reads another's reply and none gives up, every thread polls
with a ticket of its own and prints what the server has stored for it. -/
theorem own_tickets_of_undisturbed {tr : List (System × Event)} (h : Run step init tr s)
    (hc : EachStep (fun s e => Undisturbed s e ∧ InTime s e) tr) : Always OwnTickets tr s :=
  (h.always_of_eachStep inv_init
    (fun _ _ _ hi hc he => inv_step hi hc.1 hc.2 he) hc).imp fun _ hi => hi.ownTickets

/-- The second thread's whole call falls between the first one's call and its read. -/
def crossing : List Event :=
  [.spawn PRODUCER, .spawn CONSUMER, .call 0, .deliver 0 true true, .receive 0,
    .call 1, .deliver 0 true true, .receive 0, .read 0, .read 0, .call 0]

theorem ownTickets_fails : ¬ ∀ tr s, Run step init tr s → OwnTickets s := by
  intro h
  have hsome : (exec step init crossing).isSome := by decide +kernel
  have hown := h _ _ (run_of_isSome init crossing hsome) 0
  have hpolls : (((exec step init crossing).get (by decide +kernel)).threads[0]?).map Thread.polls =
      some [1] := by decide +kernel
  obtain ⟨t, ht, hone⟩ := Option.map_eq_some_iff.1 hpolls
  have hmem := (hown t ht).1 1 (by rw [hone]; exact List.mem_cons_self)
  have hnot : (0, 1) ∉ ((exec step init crossing).get (by decide +kernel)).issued := by
    decide +kernel
  exact hnot hmem

instance (s : System) (e : Event) : Decidable (Undisturbed s e) :=
  match e with
  | .read j =>
    decidable_of_iff
      (∀ t ∈ s.threads[j]?, t.pc = .readIdx ∨ t.pc = .readZero ∨ t.pc = .readResult →
        s.caller = some j)
      ⟨by rintro h _ t ⟨⟩ ht; exact h t ht, fun h t ht => h j t rfl ht⟩
  | .spawn _ | .call _ | .resend _ | .time _ _ | .timeout _ | .loseRequest _ | .loseReply _
  | .deliver _ _ _ | .receive _ | .server _ => .isTrue nofun

instance (s : System) (e : Event) : Decidable (InTime s e) :=
  match e with
  | .time j true =>
    decidable_of_iff (isLetter s.clntRes.result) ⟨fun h _ _ => h, fun h => h j rfl⟩
  | .time _ false => .isTrue nofun
  | .spawn _ | .call _ | .resend _ | .read _ | .timeout _ | .loseRequest _ | .loseReply _
  | .deliver _ _ _ | .receive _ | .server _ => .isTrue nofun

/-- A producer registers, its worker runs, and it collects its letter. -/
def collected : List Event :=
  [.spawn PRODUCER, .call 0, .deliver 0 true true, .receive 0, .read 0, .read 0,
    .server (.run 0), .server (.run 0), .call 0, .deliver 0 true true, .receive 0,
    .time 0 false, .read 0, .read 0, .read 0, .read 0]

theorem own_tickets_of_undisturbed_collected :
    Always OwnTickets (trace step init collected)
      ((exec step init collected).get (by decide +kernel)) :=
  own_tickets_of_undisturbed (run_of_isSome init collected (by decide +kernel))
    (by decide +kernel)

end System

end OsLabs.Prodcons
