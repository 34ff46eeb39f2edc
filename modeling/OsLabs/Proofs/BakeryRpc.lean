import OsLabs.Proofs.Bakery
import OsLabs.Spec.BakeryRpc

/-! The bakery over RPC is the bakery. The XDR routine writes and reads the same 28 bytes with
or without `XDR_INLINE`; the dispatcher serves just the requests it can decode, with one
reply to each call; and a call through the stubs comes back with what the procedure
returned. -/

namespace OsLabs.Bakery

open Xdr

variable {α : Type} {bits : α ≃ UInt32} {xdrs' : XDR} {r v : FullREQUEST α}
  {bytes : List UInt8} {handy : ℕ} {inlines : Bool}

/-! ### The XDR routine -/

section
variable {β : Type} {put : β → List UInt8} {get : List UInt8 → Option (β × List UInt8)} {x y : β}

theorem xdrUnit_encode : xdrUnit put get ⟨.ENCODE, bytes, handy, inlines⟩ x =
    if 4 ≤ handy then some (⟨.ENCODE, bytes ++ put x, handy - 4, inlines⟩, x) else none := rfl

theorem xdrUnit_decode : xdrUnit put get ⟨.DECODE, bytes, handy, inlines⟩ x = some (xdrs', y) ↔
    ∃ rest, get bytes = some (y, rest) ∧ xdrs' = ⟨.DECODE, rest, handy, inlines⟩ := by
  simp only [xdrUnit, Option.map_eq_some_iff, Prod.exists, Prod.mk.injEq]
  refine ⟨?_, ?_⟩
  · rintro ⟨a, rest, hget, rfl, rfl⟩
    exact ⟨rest, hget, rfl⟩
  · rintro ⟨rest, hget, rfl⟩
    exact ⟨y, rest, hget, rfl, rfl⟩

end

theorem xdrInt_decode {x y : ℤ} :
    xdrInt ⟨.DECODE, bytes, handy, inlines⟩ x = some (xdrs', y) ↔
      ∃ rest, IsInt y ∧ bytes = putLong y ++ rest ∧ xdrs' = ⟨.DECODE, rest, handy, inlines⟩ := by
  simp only [xdrInt, xdrUnit_decode, getLong_eq_some, and_assoc]

theorem xdrFloat_decode {x y : α} :
    xdrFloat bits ⟨.DECODE, bytes, handy, inlines⟩ x = some (xdrs', y) ↔
      ∃ rest, bytes = putBits bits y ++ rest ∧ xdrs' = ⟨.DECODE, rest, handy, inlines⟩ := by
  simp only [xdrFloat, xdrUnit_decode, getBits_eq_some]

def ints (r : FullREQUEST α) : List UInt8 :=
  putLong r.pid ++ putLong r.idx ++ putLong r.num ++ putLong r.op

def floats (bits : α ≃ UInt32) (r : FullREQUEST α) : List UInt8 :=
  putBits bits r.arg1 ++ putBits bits r.arg2 ++ putBits bits r.res

theorem wire_eq (r : FullREQUEST α) : wire bits r = ints r ++ floats bits r := by
  simp [wire, ints, floats]

theorem xdrInts_encode : xdrInts ⟨.ENCODE, bytes, handy, inlines⟩ r =
    if 16 ≤ handy then some (⟨.ENCODE, bytes ++ ints r, handy - 16, inlines⟩, r) else none := by
  by_cases hroom : 16 ≤ handy
  · have h1 : 4 ≤ handy := by omega
    have h2 : 4 ≤ handy - 4 := by omega
    have h3 : 4 ≤ handy - 8 := by omega
    have h4 : 4 ≤ handy - 12 := by omega
    simp [xdrInts, xdrInt, xdrUnit_encode, h1, h2, h3, h4, hroom, ints, Nat.sub_sub]
  · rw [if_neg hroom, Option.eq_none_iff_forall_not_mem]
    intro p hp
    simp [xdrInts, xdrInt, xdrUnit_encode, Option.bind_eq_some_iff] at hp
    omega

theorem xdrFloats_encode : xdrFloats bits ⟨.ENCODE, bytes, handy, inlines⟩ r =
    if 12 ≤ handy then some (⟨.ENCODE, bytes ++ floats bits r, handy - 12, inlines⟩, r)
    else none := by
  by_cases hroom : 12 ≤ handy
  · have h1 : 4 ≤ handy := by omega
    have h2 : 4 ≤ handy - 4 := by omega
    have h3 : 4 ≤ handy - 8 := by omega
    simp [xdrFloats, xdrFloat, xdrUnit_encode, h1, h2, h3, hroom, floats, Nat.sub_sub]
  · rw [if_neg hroom, Option.eq_none_iff_forall_not_mem]
    intro p hp
    simp [xdrFloats, xdrFloat, xdrUnit_encode, Option.bind_eq_some_iff] at hp
    omega

theorem xdrInts_decode : xdrInts ⟨.DECODE, bytes, handy, inlines⟩ v = some (xdrs', r) ↔
    ∃ rest, r.Valid ∧ bytes = ints r ++ rest ∧ xdrs' = ⟨.DECODE, rest, handy, inlines⟩ ∧
      r = { v with pid := r.pid, idx := r.idx, num := r.num, op := r.op } := by
  simp only [xdrInts, Option.bind_eq_bind, Option.bind_eq_some_iff, Prod.exists]
  refine ⟨?_, ?_⟩
  · rintro ⟨x1, pid, h1, x2, idx, h2, x3, num, h3, x4, op, h4, hr⟩
    obtain ⟨rest1, hpid, rfl, rfl⟩ := xdrInt_decode.1 h1
    obtain ⟨rest2, hidx, rfl, rfl⟩ := xdrInt_decode.1 h2
    obtain ⟨rest3, hnum, rfl, rfl⟩ := xdrInt_decode.1 h3
    obtain ⟨rest, hop, rfl, rfl⟩ := xdrInt_decode.1 h4
    obtain ⟨rfl, rfl⟩ := Prod.mk.inj (Option.some.inj hr)
    refine ⟨rest, ⟨hpid, hidx, hnum, hop⟩, ?_, rfl, rfl⟩
    simp only [ints, List.append_assoc]
  · rintro ⟨rest, hr, rfl, rfl, hsame⟩
    simp only [ints, List.append_assoc]
    refine ⟨_, r.pid, xdrInt_decode.2 ⟨_, hr.pid, rfl, rfl⟩, _, r.idx,
      xdrInt_decode.2 ⟨_, hr.idx, rfl, rfl⟩, _, r.num, xdrInt_decode.2 ⟨_, hr.num, rfl, rfl⟩, _,
      r.op, xdrInt_decode.2 ⟨_, hr.op, rfl, rfl⟩, ?_⟩
    rw [hsame]
    rfl

theorem xdrFloats_decode : xdrFloats bits ⟨.DECODE, bytes, handy, inlines⟩ v = some (xdrs', r) ↔
    ∃ rest, bytes = floats bits r ++ rest ∧ xdrs' = ⟨.DECODE, rest, handy, inlines⟩ ∧
      r = { v with arg1 := r.arg1, arg2 := r.arg2, res := r.res } := by
  simp only [xdrFloats, Option.bind_eq_bind, Option.bind_eq_some_iff, Prod.exists]
  refine ⟨?_, ?_⟩
  · rintro ⟨x1, arg1, h1, x2, arg2, h2, x3, res, h3, hr⟩
    obtain ⟨rest1, rfl, rfl⟩ := xdrFloat_decode.1 h1
    obtain ⟨rest2, rfl, rfl⟩ := xdrFloat_decode.1 h2
    obtain ⟨rest, rfl, rfl⟩ := xdrFloat_decode.1 h3
    obtain ⟨rfl, rfl⟩ := Prod.mk.inj (Option.some.inj hr)
    refine ⟨rest, ?_, rfl, rfl⟩
    simp only [floats, List.append_assoc]
  · rintro ⟨rest, rfl, rfl, hsame⟩
    simp only [floats, List.append_assoc]
    refine ⟨_, r.arg1, xdrFloat_decode.2 ⟨_, rfl, rfl⟩, _, r.arg2,
      xdrFloat_decode.2 ⟨_, rfl, rfl⟩, _, r.res, xdrFloat_decode.2 ⟨_, rfl, rfl⟩, ?_⟩
    rw [hsame]
    rfl

theorem exists_longs (h : 16 ≤ bytes.length) :
    ∃ a b c d rest, (IsInt a ∧ IsInt b ∧ IsInt c ∧ IsInt d) ∧
      bytes = putLong a ++ (putLong b ++ (putLong c ++ (putLong d ++ rest))) := by
  have hone : ∀ bytes : List UInt8, 4 ≤ bytes.length →
      ∃ v rest, IsInt v ∧ bytes = putLong v ++ rest ∧ bytes.length = rest.length + 4 := by
    intro bytes hlen
    cases hget : getLong bytes with
    | none =>
      have := getLong_eq_none.1 hget
      omega
    | some p =>
      obtain ⟨v, rest⟩ := p
      obtain ⟨hv, rfl⟩ := getLong_eq_some.1 hget
      exact ⟨v, rest, hv, rfl, by simp [Nat.add_comm]⟩
  obtain ⟨a, bytes1, ha, rfl, hlen1⟩ := hone bytes (by omega)
  obtain ⟨b, bytes2, hb, rfl, hlen2⟩ := hone bytes1 (by omega)
  obtain ⟨c, bytes3, hc, rfl, hlen3⟩ := hone bytes2 (by omega)
  obtain ⟨d, rest, hd, rfl, -⟩ := hone bytes3 (by omega)
  exact ⟨a, b, c, d, rest, ⟨ha, hb, hc, hd⟩, rfl⟩

/-- The values read through `XDR_INLINE` are those `xdr_int` reads. -/
theorem xdrInts_inline (hlen : 16 ≤ bytes.length) :
    xdrInts ⟨.DECODE, bytes, handy, inlines⟩ v =
      some (⟨.DECODE, bytes.drop 16, handy, inlines⟩, getInline (bytes.take 16) v) := by
  obtain ⟨a, b, c, d, rest, ⟨ha, hb, hc, hd⟩, rfl⟩ := exists_longs hlen
  have hinline : getInline (putLong a ++ (putLong b ++ (putLong c ++ (putLong d ++ [])))) v =
      { v with pid := a, idx := b, num := c, op := d } := by
    simp only [getInline, ixdrGetLong_append, ha, hb, hc, hd]
  apply xdrInts_decode.2
  refine ⟨rest, ?_, ?_, rfl, ?_⟩
  · exact hinline ▸ ⟨ha, hb, hc, hd⟩
  · exact hinline ▸ (by simp only [ints, List.append_assoc])
  · exact hinline ▸ rfl

/-- With or without `XDR_INLINE`, the routine does what its seven calls do. -/
theorem xdrREQUEST_eq (xdrs : XDR) (v : FullREQUEST α) :
    xdrREQUEST bits xdrs v = (xdrInts xdrs v).bind fun p => xdrFloats bits p.1 p.2 := by
  obtain ⟨x_op, bytes, handy, inlines⟩ := xdrs
  cases x_op with
  | ENCODE =>
    by_cases hroom : 16 ≤ handy
    · cases inlines with
      | true =>
        simp [xdrREQUEST, xdrInline, BYTES_PER_XDR_UNIT, xdrInts_encode, hroom, putInline,
          ixdrPutLong, ints]
      | false => simp [xdrREQUEST, xdrInline, xdrInts_encode, hroom]
    · simp [xdrREQUEST, xdrInline, BYTES_PER_XDR_UNIT, xdrInts_encode, hroom]
  | DECODE =>
    by_cases hlen : 16 ≤ bytes.length
    · cases inlines with
      | true => simp [xdrREQUEST, xdrInline, BYTES_PER_XDR_UNIT, xdrInts_inline hlen, hlen]
      | false => simp [xdrREQUEST, xdrInline]
    · simp [xdrREQUEST, xdrInline, BYTES_PER_XDR_UNIT, hlen]
  | FREE => rfl

/-- The routine on every stream. It writes the 28 bytes of the request when there is room for
them and otherwise fails; it reads a request from exactly its 28 bytes, whichever way the
stream is laid out; and it frees nothing, which does not fail. -/
theorem xdrREQUEST_spec (bits : α ≃ UInt32) (bytes : List UInt8) (handy : ℕ) (inlines : Bool)
    (v : FullREQUEST α) :
    (xdrREQUEST bits ⟨.ENCODE, bytes, handy, inlines⟩ v = if 28 ≤ handy then
      some (⟨.ENCODE, bytes ++ wire bits v, handy - 28, inlines⟩, v) else none) ∧
    (∀ xdrs' r, xdrREQUEST bits ⟨.DECODE, bytes, handy, inlines⟩ v = some (xdrs', r) ↔
      ∃ rest, r.Valid ∧ bytes = wire bits r ++ rest ∧
        xdrs' = ⟨.DECODE, rest, handy, inlines⟩) ∧
    xdrREQUEST bits ⟨.FREE, bytes, handy, inlines⟩ v =
      some (⟨.FREE, bytes, handy, inlines⟩, v) := by
  simp only [xdrREQUEST_eq]
  refine ⟨?_, ?_, rfl⟩
  · rw [xdrInts_encode]
    by_cases hroom : 16 ≤ handy
    · have hiff : 12 ≤ handy - 16 ↔ 28 ≤ handy := by omega
      simp only [if_pos hroom, Option.bind_some, xdrFloats_encode, hiff, wire_eq,
        List.append_assoc, Nat.sub_sub]
    · have hnot : ¬ 28 ≤ handy := by omega
      simp only [if_neg hroom, if_neg hnot, Option.bind_none]
  · intro xdrs' r
    simp only [Option.bind_eq_some_iff, Prod.exists, wire_eq, List.append_assoc]
    refine ⟨?_, ?_⟩
    · rintro ⟨x1, r1, h1, h2⟩
      obtain ⟨rest1, hvalid, rfl, rfl, -⟩ := xdrInts_decode.1 h1
      obtain ⟨rest, rfl, rfl, hr⟩ := xdrFloats_decode.1 h2
      rw [hr]
      exact ⟨rest, ⟨hvalid.pid, hvalid.idx, hvalid.num, hvalid.op⟩, rfl, rfl⟩
    · rintro ⟨rest, hvalid, rfl, rfl⟩
      refine ⟨⟨.DECODE, floats bits r ++ rest, handy, inlines⟩,
        { v with pid := r.pid, idx := r.idx, num := r.num, op := r.op }, ?_, ?_⟩
      · exact xdrInts_decode.2
          ⟨_, ⟨hvalid.pid, hvalid.idx, hvalid.num, hvalid.op⟩, rfl, rfl, rfl⟩
      · exact xdrFloats_decode.2 ⟨rest, rfl, rfl, rfl⟩

/-! ### The dispatcher -/

theorem svcFreeargs_eq (argument : FullREQUEST α) : svcFreeargs bits argument = true := by
  rw [svcFreeargs, (xdrREQUEST_spec bits [] 0 false argument).2.2]
  rfl

/-- A dispatched call serves its request, or leaves the server alone when it has none. -/
theorem dispatch_eq {β : Type} (s : Server α) (c : Call) (xdrResult : β → List UInt8)
    (local_ : Server α → REQUEST α → Except Fault (Server α × β)) :
    dispatch bits s c xdrResult local_ =
      match svcGetargs bits c with
      | none => .ok (s, [.decode])
      | some r => ((local_ s r.toREQUEST).map fun p =>
          (p.1, [sendreply c (xdrResult p.2)])).mapError Stop.fault := by
  unfold dispatch
  cases svcGetargs bits c with
  | none => rfl
  | some r =>
    simp only [svcFreeargs_eq, if_true]
    cases local_ s r.toREQUEST <;> rfl

variable [Number α]

omit [Number α] in
theorem dispatch_fst {β : Type} (s : Server α) (c : Call) (xdrResult : β → List UInt8)
    (local_ : Server α → REQUEST α → Except Fault (Server α × β)) :
    (dispatch bits s c xdrResult local_).map Prod.fst =
      match svcGetargs bits c with
      | none => .ok s
      | some r => ((local_ s r.toREQUEST).map Prod.fst).mapError Stop.fault := by
  rw [dispatch_eq]
  cases svcGetargs bits c with
  | none => rfl
  | some r =>
    cases h : local_ s r.toREQUEST with
    | error f => simp [h, Except.map, Except.mapError]
    | ok p => simp [h, Except.map, Except.mapError]

theorem bakeryProg1_fst (bits : α ≃ UInt32) (s : Server α) (c : Call) :
    (bakeryProg1 bits s c).map Prod.fst =
      match request? bits c with
      | none => .ok s
      | some e => (handle s e).mapError Stop.fault := by
  unfold bakeryProg1 request?
  by_cases hnull : c.rq_proc = NULLPROC
  · simp only [if_pos hnull]
    rfl
  by_cases hget : c.rq_proc = GET_NUMBER
  · simp only [if_neg hnull, if_pos hget, dispatch_fst]
    cases svcGetargs bits c <;> rfl
  by_cases hservice : c.rq_proc = BAKERY_SERVICE
  · simp only [if_neg hnull, if_neg hget, if_pos hservice, dispatch_fst]
    cases svcGetargs bits c <;> rfl
  · simp only [if_neg hnull, if_neg hget, if_neg hservice]
    rfl

/-- One reply to the call, but none to a null call whose reply could not be sent. -/
def OneReply (c : Call) (rs : List Reply) : Prop :=
  rs.length = 1 ∨ c.rq_proc = NULLPROC ∧ c.sent = false ∧ rs = []

omit [Number α] in
theorem dispatch_oneReply {β : Type} {s s' : Server α} {c : Call} {xdrResult : β → List UInt8}
    {local_ : Server α → REQUEST α → Except Fault (Server α × β)} {rs : List Reply}
    (h : dispatch bits s c xdrResult local_ = .ok (s', rs)) : rs.length = 1 := by
  rw [dispatch_eq] at h
  cases hargs : svcGetargs bits c with
  | none =>
    simp only [hargs, Except.ok.injEq, Prod.mk.injEq] at h
    rw [← h.2]
    rfl
  | some r =>
    simp only [hargs] at h
    cases hlocal : local_ s r.toREQUEST with
    | error f => simp [hlocal, Except.map, Except.mapError] at h
    | ok p =>
      simp only [hlocal, Except.map, Except.mapError, Except.ok.injEq, Prod.mk.injEq] at h
      rw [← h.2]
      rfl

theorem bakeryProg1_oneReply {s s' : Server α} {c : Call} {rs : List Reply}
    (h : bakeryProg1 bits s c = .ok (s', rs)) : OneReply c rs := by
  unfold bakeryProg1 at h
  split_ifs at h with hnull hsent
  · obtain ⟨-, rfl⟩ := Prod.mk.inj (Except.ok.inj h)
    exact .inl rfl
  · obtain ⟨-, rfl⟩ := Prod.mk.inj (Except.ok.inj h)
    exact .inr ⟨hnull, by simpa using hsent, rfl⟩
  · exact .inl (dispatch_oneReply h)
  · exact .inl (dispatch_oneReply h)
  · obtain ⟨-, rfl⟩ := Prod.mk.inj (Except.ok.inj h)
    exact .inl rfl

/-- However many calls arrive, of whatever procedure and with whatever bytes: the tables
become what the requests among them that can be decoded make of them, one after the other,
and no call goes without its one reply. -/
theorem bakeryProg1_serves (bits : α ≃ UInt32) (s : Server α) (calls : List Call) :
    (serve (bakeryProg1 bits) s calls).map Prod.fst =
      ((calls.filterMap (request? bits)).foldlM handle s).mapError Stop.fault ∧
    ∀ t rss, serve (bakeryProg1 bits) s calls = .ok (t, rss) →
      List.Forall₂ OneReply calls rss := by
  induction calls generalizing s with
  | nil =>
    refine ⟨rfl, ?_⟩
    intro t rss h
    obtain ⟨-, rfl⟩ := Prod.mk.inj (Except.ok.inj h)
    exact .nil
  | cons c calls ih =>
    refine ⟨?_, ?_⟩
    · have hfst := bakeryProg1_fst bits s c
      cases hc : bakeryProg1 bits s c with
      | error stop =>
        cases he : request? bits c with
        | none => simp [hc, he, Except.map] at hfst
        | some e =>
          rw [hc, he] at hfst
          cases hh : handle s e with
          | ok s' => simp [hh, Except.map, Except.mapError] at hfst
          | error f =>
            simp only [hh, Except.map, Except.mapError, Except.error.injEq] at hfst
            simp [serve, hc, he, hh, hfst, bind, Except.bind, Except.map, Except.mapError]
      | ok p =>
        obtain ⟨s', rs⟩ := p
        have hrest := (ih s').1
        cases he : request? bits c with
        | none =>
          simp only [hc, he, Except.map, Except.ok.injEq] at hfst
          obtain rfl : s' = s := hfst
          rw [List.filterMap_cons_none he, ← hrest]
          simp only [serve, hc, bind, Except.bind]
          cases serve (bakeryProg1 bits) s' calls <;> rfl
        | some e =>
          rw [hc, he] at hfst
          cases hh : handle s e with
          | error f => simp [hh, Except.map, Except.mapError] at hfst
          | ok s'' =>
            simp only [hh, Except.map, Except.mapError, Except.ok.injEq] at hfst
            subst hfst
            rw [List.filterMap_cons_some he, List.foldlM_cons, hh]
            simp only [serve, hc, bind, Except.bind] at hrest ⊢
            rw [← hrest]
            cases serve (bakeryProg1 bits) s' calls <;> rfl
    · intro t rss h
      obtain ⟨s', rs, rss', hc, hs, rfl⟩ := serve_cons_ok.1 h
      exact .cons (bakeryProg1_oneReply hc) ((ih s').2 t rss' hs)

omit [Number α] in
theorem svcGetargs_wire {r : FullREQUEST α} (hr : r.Valid) (proc : ℕ) (inlines sent : Bool) :
    svcGetargs bits ⟨proc, wire bits r, inlines, sent⟩ = some r := by
  rw [svcGetargs, (((xdrREQUEST_spec bits _ _ _ _).2.1 _ r).2
    ⟨[], hr, (List.append_nil _).symm, rfl⟩), Option.map_some]

/-- A result that is read back as it was written comes to the caller as it was returned. -/
theorem clntCall_eq {β : Type} {s : Server α} {r : FullREQUEST α} (put : β → List UInt8)
    (hr : r.Valid) {proc : ℕ} {get : List UInt8 → Option (β × List UInt8)}
    {local_ : Server α → REQUEST α → Except Fault (Server α × β)}
    (hprog : ∀ c, c.rq_proc = proc → bakeryProg1 bits s c = dispatch bits s c put local_)
    (hget : ∀ s' x, local_ s r.toREQUEST = .ok (s', x) → get (put x) = some (x, []))
    (inlines inlines' : Bool) :
    clntCall bits s proc r get inlines inlines' =
      ((local_ s r.toREQUEST).map fun p => (p.1, some p.2)).mapError Stop.fault := by
  have hroom : 28 ≤ UDPMSGSIZE := by decide
  rw [clntCall, (xdrREQUEST_spec bits [] UDPMSGSIZE inlines r).1, if_pos hroom]
  simp only [List.nil_append, hprog ⟨proc, wire bits r, inlines', true⟩ rfl, dispatch_eq,
    svcGetargs_wire hr]
  cases hlocal : local_ s r.toREQUEST with
  | error f => rfl
  | ok p =>
    obtain ⟨s', x⟩ := p
    have hx := hget s' x hlocal
    simp only [Except.map, Except.mapError, bind, Except.bind, sendreply, if_true, hx,
      Option.map_some]
    rfl

theorem isInt_ticket {tr : List (Server α × Request α)} {s s' : Server α} {argp : REQUEST α}
    {t : ℤ} (h : Run step init tr s) (hget : getNumber1Svc s argp = .ok (s', t)) : IsInt t := by
  obtain ⟨i, -, rfl, hmax, -⟩ := getNumber1Svc_ok hget
  have hpos := (inv_run h).nonneg i
  have hle := le_maxNumber s.numbers i
  unfold INT_MAX at hmax
  unfold IsInt
  omega

/-- In every state of the server, a call through the stubs and the dispatcher comes to what
the procedure itself comes to: the same tables and the same value, or the same fault. -/
theorem call_eq_local (bits : α ≃ UInt32) {tr : List (Server α × Request α)} {s : Server α}
    (h : Run step init tr s) {r : FullREQUEST α} (hr : r.Valid) (inlines inlines' : Bool) :
    getNumber1 bits s r inlines inlines' =
      ((getNumber1Svc s r.toREQUEST).map fun p => (p.1, some p.2)).mapError Stop.fault ∧
    bakeryService1 bits s r inlines inlines' =
      ((bakeryService1Svc s r.toREQUEST).map fun p => (p.1, some p.2)).mapError Stop.fault := by
  refine ⟨?_, ?_⟩
  · apply clntCall_eq putLong hr
    · intro c hc
      simp [bakeryProg1, hc, GET_NUMBER, NULLPROC]
    · intro s' t hget
      exact getLong_eq_some.2 ⟨isInt_ticket h hget, (List.append_nil _).symm⟩
  · apply clntCall_eq (putBits bits) hr
    · intro c hc
      simp [bakeryProg1, hc, BAKERY_SERVICE, GET_NUMBER, NULLPROC]
    · intro s' x _
      exact (getBits_eq_some bits).2 (List.append_nil _).symm

/-- The bits of a whole number below 2^24 as a `float`. -/
def floatOf (n : ℕ) : UInt32 :=
  if n = 0 then 0 else .ofNat ((127 + n.log2) * 2 ^ 23 + (n * 2 ^ (23 - n.log2) - 2 ^ 23))

def wholeOf (x : UInt32) : ℕ :=
  if x = 0 then 0 else (x.toNat % 2 ^ 23 + 2 ^ 23) / 2 ^ (23 - (x.toNat / 2 ^ 23 - 127))

/-- What `float` does with whole numbers where the result is one. -/
@[reducible] def wholeNumber : Number UInt32 where
  add x y := floatOf (wholeOf x + wholeOf y)
  sub x y := floatOf (wholeOf x - wholeOf y)
  mul x y := floatOf (wholeOf x * wholeOf y)
  div x y := floatOf (wholeOf x / wholeOf y)
  zero := 0
  beq := (· == ·)
  infinity := 0x7F800000

def threePlusFour (idx : ℤ) : FullREQUEST UInt32 :=
  ⟨⟨40 + idx, idx, 1 + idx, 0, floatOf 3, floatOf 4⟩, 0⟩

def bothInLine : List (Request UInt32) :=
  [.getNumber (threePlusFour 0).toREQUEST, .getNumber (threePlusFour 1).toREQUEST]

/-- The first in line gets its 7, the second is turned away. -/
theorem call_eq_local_threePlusFour :
    let _ := wholeNumber
    let s := (exec step init bothInLine).get (by decide +kernel)
    (bakeryService1 (.refl UInt32) s (threePlusFour 0) true false).map Prod.snd =
        .ok (some (floatOf 7)) ∧
      (bakeryService1 (.refl UInt32) s (threePlusFour 1) true false).map Prod.snd =
        .ok (some Number.infinity) := by
  intro _ s
  have hrun : Run step init (trace step init bothInLine) s :=
    run_of_isSome init bothInLine (by decide +kernel)
  have hfirst : (threePlusFour 0).Valid := ⟨by decide, by decide, by decide, by decide⟩
  have hsecond : (threePlusFour 1).Valid := ⟨by decide, by decide, by decide, by decide⟩
  refine ⟨?_, ?_⟩
  · rw [(call_eq_local (.refl UInt32) hrun hfirst true false).2]
    decide +kernel
  · rw [(call_eq_local (.refl UInt32) hrun hsecond true false).2]
    decide +kernel

end OsLabs.Bakery
