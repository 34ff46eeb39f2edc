import Mathlib.Data.List.Nodup
import OsLabs.Spec.ProdconsService

/-! The books of the RPC producer-consumer server. Every ticket is issued once and has one
worker at most, every worker stores one character at most, and `resultBuffer` holds it
under the worker's ticket from then on. -/

namespace OsLabs.Prodcons

open Section

def past (ph : Phase) : Bool :=
  match ph with
  | .outside | .entered => false
  | .finished | .gone | .goneInside => true

/-- The tickets of the workers differ and were issued, and a worker whose character is
there is past its body, so that it stores no second one. -/
structure Tickets (procs : List (Proc Worker)) (idx : ℤ) (finished : List (ℤ × UInt8)) : Prop where
  nonneg : 0 ≤ idx
  nodup : (procs.map fun p => p.role.idx).Nodup
  issued : ∀ p ∈ procs, 0 ≤ p.role.idx ∧ p.role.idx < idx
  past : ∀ f ∈ finished, ∃ p ∈ procs, p.role.idx = f.1 ∧ past p.phase
  once : (finished.map Prod.fst).Nodup

variable {procs : List (Proc Worker)} {idx : ℤ} {finished : List (ℤ × UInt8)} {k : ℕ} {w : Worker}
  {ph : Phase}

theorem Tickets.set (h : Tickets procs idx finished) (hk : procs[k]? = some ⟨w, ph⟩) {ph' : Phase}
    (hpast : Prodcons.past ph → Prodcons.past ph') :
    Tickets (procs.set k ⟨w, ph'⟩) idx finished where
  nonneg := h.nonneg
  nodup := by
    rw [map_set (q := ⟨w, ph'⟩) _ hk rfl]
    exact h.nodup
  issued p hp := by
    rcases List.mem_or_eq_of_mem_set hp with hp | rfl
    · exact h.issued p hp
    · exact h.issued ⟨w, ph⟩ (List.mem_of_getElem? hk)
  past f hf := by
    obtain ⟨p, hp, hidx, hph⟩ := h.past f hf
    obtain ⟨i, hi⟩ := List.mem_iff_getElem?.1 hp
    by_cases hik : k = i
    · subst hik
      obtain rfl : p = ⟨w, ph⟩ := Option.some.inj (hi.symm.trans hk)
      have hlt := (List.getElem?_eq_some_iff.1 hk).1
      exact ⟨⟨w, ph'⟩, List.mem_set hlt _, hidx, hpast hph⟩
    · refine ⟨p, List.mem_of_getElem? (i := i) ?_, hidx, hph⟩
      rw [List.getElem?_set_ne hik, hi]
  once := h.once

/-- A worker with its body still to run has nothing stored under its ticket. -/
theorem Tickets.fresh (h : Tickets procs idx finished) (hk : procs[k]? = some ⟨w, ph⟩)
    (hph : Prodcons.past ph = false) : ∀ f ∈ finished, f.1 ≠ w.idx := by
  intro f hf he
  obtain ⟨p, hp, hidx, hpast⟩ := h.past f hf
  have hsame : p = ⟨w, ph⟩ :=
    List.inj_on_of_nodup_map h.nodup hp (List.mem_of_getElem? hk) (hidx.trans he)
  rw [hsame, hph] at hpast
  exact Bool.noConfusion hpast

/-- The next ticket is issued, for a worker or for none. -/
theorem Tickets.register (h : Tickets procs idx finished) (kind : Kind) :
    Tickets (procs ++ [⟨⟨kind, idx⟩, .outside⟩]) (idx + 1) finished where
  nonneg := by have := h.nonneg; omega
  nodup := by
    rw [List.map_append, List.map_singleton, List.nodup_append]
    refine ⟨h.nodup, List.nodup_singleton _, ?_⟩
    intro a ha b hb
    obtain ⟨p, hp, rfl⟩ := List.mem_map.1 ha
    obtain rfl := List.mem_singleton.1 hb
    have := (h.issued p hp).2
    omega
  issued p hp := by
    rcases List.mem_append.1 hp with hp | hp
    · have := h.issued p hp
      omega
    · obtain rfl := List.mem_singleton.1 hp
      have := h.nonneg
      exact ⟨h.nonneg, by show idx < idx + 1; omega⟩
  past f hf := by
    obtain ⟨p, hp, hpast⟩ := h.past f hf
    exact ⟨p, List.mem_append_left _ hp, hpast⟩
  once := h.once

theorem Tickets.skip (h : Tickets procs idx finished) : Tickets procs (idx + 1) finished where
  nonneg := by have := h.nonneg; omega
  nodup := h.nodup
  issued p hp := by
    have := h.issued p hp
    omega
  past := h.past
  once := h.once

/-- Worker `w` runs its body and stores a character. -/
theorem Tickets.store (h : Tickets procs idx finished) (hk : procs[k]? = some ⟨w, .entered⟩)
    (ch : UInt8) : Tickets (procs.set k ⟨w, .finished⟩) idx (finished ++ [(w.idx, ch)]) := by
  have hset : Tickets (procs.set k ⟨w, .finished⟩) idx finished :=
    h.set hk fun hph => Bool.noConfusion hph
  have hlt := (List.getElem?_eq_some_iff.1 hk).1
  refine ⟨hset.nonneg, hset.nodup, hset.issued, ?_, ?_⟩
  · intro f hf
    rcases List.mem_append.1 hf with hf | hf
    · exact hset.past f hf
    · obtain rfl := List.mem_singleton.1 hf
      exact ⟨⟨w, .finished⟩, List.mem_set hlt _, rfl, rfl⟩
  · rw [List.map_append, List.map_singleton, List.nodup_append]
    refine ⟨h.once, List.nodup_singleton _, ?_⟩
    intro a ha b hb
    obtain ⟨f, hf, rfl⟩ := List.mem_map.1 ha
    obtain rfl := List.mem_singleton.1 hb
    exact h.fresh hk rfl f hf

/-- Either body leaves one character in `resultBuffer`, under its own ticket. -/
theorem body_resultBuffer {m data : Shared} (h : workers.body w m = some data) :
    ∃ ch, data.resultBuffer = Function.update m.resultBuffer w.idx ch := by
  obtain ⟨kind, idx⟩ := w
  cases kind with
  | producer =>
    obtain rfl := Option.some.inj h
    exact ⟨m.ch, rfl⟩
  | consumer =>
    obtain rfl := Option.some.inj h
    exact ⟨m.slots (sid m.consCur), rfl⟩

namespace Service

variable {s s' : Service} {e : Event}

theorem service1Svc_cases {argp : REQUEST} {alloc create : Bool} {result : Option REQUEST}
    (h : s.service1Svc argp alloc create = .ok (s', result)) :
    (0 ≤ argp.idx ∧ s' = s ∧ ∃ r, s.poll argp = .ok r ∧ result = some r) ∨
      argp.idx < 0 ∧ s.register argp alloc create = (s', result) := by
  unfold service1Svc at h
  split_ifs at h with hidx
  · left
    cases hpoll : s.poll argp with
    | error i => simp [hpoll, bind, Except.bind] at h
    | ok r =>
      simp only [hpoll, bind, Except.bind, pure, Except.pure, Except.ok.injEq, Prod.mk.injEq] at h
      exact ⟨hidx, h.1.symm, r, rfl, h.2.symm⟩
  · exact .inr ⟨not_le.1 hidx, Except.ok.inj h⟩

theorem step_cases (h : step s e = some s') :
    (∃ argp alloc create, e = .call argp alloc create ∧ 0 ≤ argp.idx ∧ s' = s) ∨
    (∃ argp alloc create, e = .call argp alloc create ∧ argp.idx < 0 ∧
      s' = (s.register argp alloc create).1) ∨
    (∃ k workers, e = .run k ∧ Prodcons.workers.step s.workers (.run k) = some workers ∧
      s' = { s with workers, finished := s.finished ++ s.stores k workers }) ∨
    (∃ k workers, e = .fail k ∧ Prodcons.workers.step s.workers (.fail k) = some workers ∧
      s' = { s with workers }) := by
  cases e with
  | call argp alloc create =>
    obtain ⟨⟨t, result⟩, hserve, rfl⟩ := Option.map_eq_some_iff.1 h
    obtain ⟨hidx, rfl, -⟩ | ⟨hidx, hreg⟩ := service1Svc_cases (toOption_eq_some.1 hserve)
    · exact .inl ⟨argp, alloc, create, rfl, hidx, rfl⟩
    · exact .inr (.inl ⟨argp, alloc, create, rfl, hidx, by rw [hreg]⟩)
  | run k =>
    obtain ⟨workers, hw, rfl⟩ := Option.map_eq_some_iff.1 h
    exact .inr (.inr (.inl ⟨k, workers, rfl, hw, rfl⟩))
  | fail k =>
    obtain ⟨workers, hw, rfl⟩ := Option.map_eq_some_iff.1 h
    exact .inr (.inr (.inr ⟨k, workers, rfl, hw, rfl⟩))

theorem worker_cases {k : ℕ} (he : e = .run k ∨ e = .fail k) (h : step s e = some s') :
    (∃ w ph ph', s.workers.procs[k]? = some ⟨w, ph⟩ ∧ (past ph → past ph') ∧
      s'.workers.procs = s.workers.procs.set k ⟨w, ph'⟩ ∧ s'.workers.data = s.workers.data ∧
      s'.idx = s.idx ∧ s'.finished = s.finished) ∨
    ∃ w data, e = .run k ∧ s.workers.procs[k]? = some ⟨w, .entered⟩ ∧
      Prodcons.workers.body w s.workers.data = some data ∧
      s'.workers.procs = s.workers.procs.set k ⟨w, .finished⟩ ∧ s'.workers.data = data ∧
      s'.idx = s.idx ∧ s'.finished = s.finished ++ [(w.idx, data.resultBuffer w.idx)] := by
  rcases he with rfl | rfl
  · obtain ⟨t, hw, rfl⟩ := Option.map_eq_some_iff.1 h
    obtain ⟨r, he, -⟩ | ⟨j, r, sem, he, hk, -, rfl⟩ | ⟨j, r, data, he, hk, hb, rfl⟩ |
      ⟨j, r, sem, he, hk, -, rfl⟩ | ⟨j, r, he, -, -⟩ | ⟨j, r, he, -, -⟩ :=
      Prodcons.workers.step_cases hw
    · cases he
    · cases he
      refine .inl ⟨r, .outside, .entered, hk, id, rfl, rfl, rfl, ?_⟩
      simp only [stores, hk, List.append_nil]
    · cases he
      refine .inr ⟨r, data, rfl, hk, hb, rfl, rfl, rfl, ?_⟩
      simp only [stores, hk]
    · cases he
      refine .inl ⟨r, .finished, .gone, hk, fun _ => rfl, rfl, rfl, rfl, ?_⟩
      simp only [stores, hk, List.append_nil]
    · rcases he with he | he <;> cases he
    · cases he
  · obtain ⟨t, hw, rfl⟩ := Option.map_eq_some_iff.1 h
    obtain ⟨r, he, -⟩ | ⟨j, r, sem, he, -, -, -⟩ | ⟨j, r, data, he, -, -, -⟩ |
      ⟨j, r, sem, he, -, -, -⟩ | ⟨j, r, he, hk, rfl⟩ | ⟨j, r, he, hk, rfl⟩ :=
      Prodcons.workers.step_cases hw
    · cases he
    · cases he
    · cases he
    · cases he
    · rcases he with he | he
      · cases he
        exact .inl ⟨r, .outside, .gone, hk, fun h => Bool.noConfusion h, rfl, rfl, rfl, rfl⟩
      · cases he
    · cases he
      exact .inl ⟨r, .finished, .goneInside, hk, fun _ => rfl, rfl, rfl, rfl, rfl⟩

theorem register_cases (s : Service) (argp : REQUEST) (alloc create : Bool) :
    (s.register argp alloc create).1 = { s with idx := s.idx + 1 } ∨
      ∃ kind, (s.register argp alloc create).1 =
        { s with
          idx := s.idx + 1
          workers := { s.workers with
            procs := s.workers.procs ++ [⟨⟨kind, s.idx⟩, .outside⟩] } } := by
  unfold register
  cases alloc with
  | false => exact .inl rfl
  | true =>
    cases hk : kindOf argp.type with
    | none => exact .inl rfl
    | some kind =>
      cases create with
      | false => exact .inl rfl
      | true => exact .inr ⟨kind, rfl⟩

/-- The books: what is in `resultBuffer` was stored there, and stays. -/
structure Books (s : Service) : Prop where
  tickets : Tickets s.workers.procs s.idx s.finished
  kept : ∀ f ∈ s.finished, s.workers.data.resultBuffer f.1 = f.2
  source : ∀ i, s.workers.data.resultBuffer i = 0 ∨
    (i, s.workers.data.resultBuffer i) ∈ s.finished

theorem books_init : Books init where
  tickets := ⟨le_rfl, List.nodup_nil, nofun, nofun, List.nodup_nil⟩
  kept := nofun
  source := fun _ => .inl rfl

theorem Books.register (hb : Books s) (argp : REQUEST) (alloc create : Bool) :
    Books (s.register argp alloc create).1 := by
  rcases register_cases s argp alloc create with h | ⟨kind, h⟩ <;> rw [h]
  · exact ⟨hb.tickets.skip, hb.kept, hb.source⟩
  · exact ⟨hb.tickets.register kind, hb.kept, hb.source⟩

theorem Books.worker {k : ℕ} (hb : Books s) (he : e = .run k ∨ e = .fail k)
    (h : step s e = some s') : Books s' := by
  obtain ⟨w, ph, ph', hk, hpast, hprocs, hdata, hidx, hfin⟩ |
    ⟨w, data, -, hk, hbody, hprocs, hdata, hidx, hfin⟩ := worker_cases he h
  · constructor
    · rw [hprocs, hidx, hfin]
      exact hb.tickets.set hk hpast
    · rw [hdata, hfin]
      exact hb.kept
    · rw [hdata, hfin]
      exact hb.source
  · obtain ⟨ch, hbuf⟩ := body_resultBuffer hbody
    rw [hbuf, Function.update_self] at hfin
    constructor
    · rw [hprocs, hidx, hfin]
      exact hb.tickets.store hk ch
    · rw [hdata, hfin, hbuf]
      intro f hf
      rcases List.mem_append.1 hf with hf | hf
      · rw [Function.update_of_ne (hb.tickets.fresh hk rfl f hf)]
        exact hb.kept f hf
      · obtain rfl := List.mem_singleton.1 hf
        exact Function.update_self ..
    · rw [hdata, hfin, hbuf]
      intro i
      by_cases hi : i = w.idx
      · right
        rw [hi, Function.update_self]
        exact List.mem_append_right _ List.mem_cons_self
      · rw [Function.update_of_ne hi]
        exact (hb.source i).imp id (List.mem_append_left _)

theorem books_step (hb : Books s) (h : step s e = some s') : Books s' := by
  cases e with
  | call argp alloc create =>
    obtain ⟨_, _, _, -, -, rfl⟩ | ⟨_, _, _, -, -, rfl⟩ | ⟨_, _, he, -⟩ | ⟨_, _, he, -⟩ :=
      step_cases h
    · exact hb
    · exact hb.register _ _ _
    · cases he
    · cases he
  | run k => exact hb.worker (.inl rfl) h
  | fail k => exact hb.worker (.inr rfl) h

end Service

end OsLabs.Prodcons
