import OsLabs.Sanity.ProdconsTickets

/-! Where `resultBuffer` is accessed. The index of a poll comes from the client, and a
worker's ticket counts the registrations before its own; nothing bounds either. -/

namespace OsLabs.Prodcons

namespace Service

variable {s s' : Service} {e : Event}

/-- The tickets of the workers are the numbers of the registrations before theirs. -/
structure Rolled (r : Roll) (s : Service) : Prop where
  idx : s.idx = r.registrations
  tickets : s.workers.procs.map (fun p => p.role.idx) = r.started.map Nat.cast

theorem rolled_init : Rolled ⟨0, []⟩ init := ⟨rfl, rfl⟩

theorem Rolled.register {r : Roll} (h : Rolled r s) {argp : REQUEST} (hidx : argp.idx < 0)
    (alloc create : Bool) :
    Rolled (r.add (.call argp alloc create)) (s.register argp alloc create).1 := by
  have hnext : s.idx + 1 = (r.registrations + 1 : ℕ) := by
    rw [h.idx, Nat.cast_succ]
  rw [Roll.add, if_neg (not_le.2 hidx)]
  unfold Service.register
  cases alloc with
  | false => exact ⟨hnext, h.tickets⟩
  | true =>
    cases hk : kindOf argp.type with
    | none => exact ⟨hnext, by simp [h.tickets]⟩
    | some kind =>
      cases create with
      | false => exact ⟨hnext, by simp [h.tickets]⟩
      | true => exact ⟨hnext, by simp [h.tickets, h.idx]⟩

theorem Rolled.worker {r : Roll} {k : ℕ} (hr : Rolled r s) (he : e = .run k ∨ e = .fail k)
    (h : step s e = some s') : Rolled r s' := by
  obtain ⟨w, ph, ph', hk, -, hprocs, -, hidx, -⟩ | ⟨w, data, -, hk, -, hprocs, -, hidx, -⟩ :=
    worker_cases he h
  · refine ⟨hidx.trans hr.idx, ?_⟩
    rw [hprocs, map_set (q := ⟨w, ph'⟩) _ hk rfl]
    exact hr.tickets
  · refine ⟨hidx.trans hr.idx, ?_⟩
    rw [hprocs, map_set (q := ⟨w, .finished⟩) _ hk rfl]
    exact hr.tickets

theorem rolled_step {r : Roll} (hr : Rolled r s) (h : step s e = some s') :
    Rolled (r.add e) s' := by
  cases e with
  | call argp alloc create =>
    obtain ⟨_, _, _, he, hidx, rfl⟩ | ⟨_, _, _, he, hidx, rfl⟩ | ⟨_, _, he, -⟩ |
      ⟨_, _, he, -⟩ := step_cases h
    · cases he
      rw [Roll.add, if_pos hidx]
      exact hr
    · cases he
      exact hr.register hidx alloc create
    · cases he
    · cases he
  | run k => exact hr.worker (.inl rfl) h
  | fail k => exact hr.worker (.inr rfl) h

theorem Rolled.ticket {r : Roll} (h : Rolled r s) {k : ℕ} {w : Worker} {ph : Phase}
    (hk : s.workers.procs[k]? = some ⟨w, ph⟩) : ∃ n : ℕ, r.started[k]? = some n ∧ w.idx = n := by
  have hmap := congrArg (·[k]?) h.tickets
  simp only [List.getElem?_map, hk, Option.map_some] at hmap
  obtain ⟨n, hn, hw⟩ := Option.map_eq_some_iff.1 hmap.symm
  exact ⟨n, hn, hw.symm⟩

theorem rolled_run {tr : List (Service × Event)} (h : Run step init tr s) : Rolled (roll tr) s := by
  induction h with
  | nil => exact rolled_init
  | @snoc tr s e s' _ he ih =>
    have hl : roll (tr ++ [(s, e)]) = (roll tr).add e := by simp [roll]
    rw [hl]
    exact rolled_step ih he

/-- In every run the next step stays inside of the buffer exactly when the index it uses,
the client's or the worker's, is below its length. -/
theorem inBuffer_iff {tr : List (Service × Event)} (h : Run step init tr s) (e : Event) :
    (∀ i ∈ s.accesses e, InBuffer i) ↔ WithinBuffer tr s e := by
  have hr := rolled_run h
  cases e with
  | call argp alloc create =>
    by_cases hpoll : argp.idx ≥ 0 ∧ argp.result = NONE
    · simp [accesses, WithinBuffer, InBuffer, hpoll.2, ge_iff_le.1 hpoll.1]
    · rw [accesses, if_neg hpoll]
      refine ⟨fun _ hidx hres => absurd ⟨hidx, hres⟩ hpoll, nofun⟩
  | run k =>
    refine ⟨?_, ?_⟩
    · intro hin w n hk hn
      obtain ⟨n', hn', hw⟩ := hr.ticket hk
      obtain rfl : n = n' := Option.some.inj (hn.symm.trans hn')
      rw [← hw]
      exact (hin w.idx (by simp [accesses, hk])).2
    · intro hwithin i hi
      simp only [accesses] at hi
      split at hi
      · rename_i w hk
        obtain ⟨n, hn, hw⟩ := hr.ticket hk
        rw [List.mem_singleton.1 hi, hw]
        exact ⟨Int.natCast_nonneg n, hwithin w n hk hn⟩
      · cases hi
  | fail k => exact ⟨fun _ => trivial, nofun⟩

def oneWorker : List Event := [.call ⟨-1, PRODUCER, NONE⟩ true true, .run 0]

theorem inBuffer_iff_oneWorker :
    (∀ i ∈ ((exec step init oneWorker).get (by decide +kernel)).accesses (.run 0), InBuffer i) ↔
      WithinBuffer (trace step init oneWorker)
        ((exec step init oneWorker).get (by decide +kernel)) (.run 0) :=
  inBuffer_iff (run_of_isSome init oneWorker (by decide +kernel)) (.run 0)

/-- A poll for the index behind the last one. -/
theorem inBuffer_fails :
    ¬ ∀ (tr : List (Service × Event)) (s : Service), Run step init tr s →
      ∀ e, ∀ i ∈ s.accesses e, InBuffer i := by
  intro h
  have hin := h [] init .nil (.call ⟨1024 * 1024, PRODUCER, NONE⟩ true true) (1024 * 1024)
    (by decide)
  exact absurd hin.2 (by decide)

end Service

end OsLabs.Prodcons
