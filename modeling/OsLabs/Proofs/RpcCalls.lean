import OsLabs.Sanity.ProdconsThread
import OsLabs.Proofs.BakeryAbandon
import OsLabs.Spec.RpcCalls

/-! Which failed calls the two RPC clients survive. Each of them tests for the null pointer
and then goes on to read through it, but for the first call of the producer-consumer
client. -/

namespace OsLabs

theorem outcomes_snoc {σ ε : Type} (ok : ε → Option Bool) (tr : List (σ × ε)) (s : σ) (e : ε) :
    outcomes ok (tr ++ [(s, e)]) = outcomes ok tr ++ (ok e).toList := by
  cases h : ok e <;> simp [outcomes, h]

/-- There were calls, and none of them failed. -/
structure AllOk (calls : List Bool) : Prop where
  called : calls ≠ []
  ok : ∀ b ∈ calls, b = true

variable {calls : List Bool}

theorem AllOk.snoc (h : ∀ b ∈ calls, b = true) : AllOk (calls ++ [true]) where
  called := by simp
  ok b hb := by
    rcases List.mem_append.1 hb with hb | hb
    · exact h b hb
    · exact List.mem_singleton.1 hb

theorem AllOk.survives {readsNull : Prop} (h : AllOk calls) (hnull : ¬ readsNull) (prints : Prop) :
    Survives readsNull prints calls := by
  refine ⟨hnull, fun _ => ?_⟩
  rw [List.getLast?_eq_some_getLast h.called, h.ok _ (List.getLast_mem h.called)]

theorem AllOk.tail (h : AllOk calls) : ∀ b ∈ calls.tail, b = true :=
  fun b hb => h.ok b (List.mem_of_mem_tail hb)

namespace Prodcons.Thread

variable {t t' : Thread} {e : Event}

/-- What the calls of a thread that stands here came to. -/
def Came (pc : Pc) (calls : List Bool) : Prop :=
  match pc with
  | .register | .registering => calls = []
  | .callFailed => calls = [false]
  | .readsNull => false ∈ calls.tail
  | _ => AllOk calls

theorem came_step (hc : Came t.pc calls) (h : t.step e = some t') :
    Came t'.pc (calls ++ e.ok.toList) := by
  cases e with
  | call =>
    rw [Event.ok, Option.toList_none, List.append_nil]
    obtain ⟨hpc, rfl⟩ | ⟨hpc, rfl⟩ := call_cases h <;> rw [hpc] at hc <;> exact hc
  | succeed =>
    obtain ⟨hpc, rfl⟩ | ⟨hpc, rfl⟩ := succeed_cases h <;> rw [hpc] at hc
    · obtain rfl : calls = [] := hc
      exact AllOk.snoc nofun
    · exact AllOk.snoc hc.ok
  | fail =>
    obtain ⟨hpc, rfl⟩ | ⟨hpc, rfl⟩ := fail_cases h <;> rw [hpc] at hc
    · obtain rfl : calls = [] := hc
      rfl
    · have hcalls : AllOk calls := hc
      show false ∈ (calls ++ [false]).tail
      rw [List.tail_append_of_ne_nil hcalls.called]
      exact List.mem_append_right _ (List.mem_singleton_self _)
  | read res =>
    rw [Event.ok, Option.toList_none, List.append_nil]
    obtain ⟨hpc, rfl⟩ | ⟨hpc, ⟨-, rfl⟩ | rfl⟩ | ⟨hpc, ⟨-, rfl⟩ | rfl⟩ | ⟨hpc, ⟨-, rfl⟩ | rfl⟩ |
      ⟨hpc, rfl⟩ := read_cases h <;> rw [hpc] at hc <;> exact hc
  | time late =>
    rw [Event.ok, Option.toList_none, List.append_nil]
    obtain ⟨hpc, ⟨-, rfl⟩ | ⟨-, rfl⟩⟩ := time_cases h <;> rw [hpc] at hc <;> exact hc

theorem came_run {type : UInt8} {tr : List (Thread × Event)} (h : Run step (.new type) tr t) :
    Came t.pc (outcomes Event.ok tr) := by
  induction h with
  | nil => rfl
  | snoc _ he ih =>
    rw [outcomes_snoc]
    exact came_step ih he

theorem Came.survives {pc : Pc} (h : Came pc calls) :
    Survives (pc = .readsNull) (pc = .printed) calls ↔ ∀ b ∈ calls.tail, b = true := by
  unfold Came at h
  split at h
  · subst h
    exact ⟨nofun, fun _ => ⟨nofun, nofun⟩⟩
  · subst h
    exact ⟨nofun, fun _ => ⟨nofun, nofun⟩⟩
  · subst h
    exact ⟨nofun, fun _ => ⟨nofun, nofun⟩⟩
  · refine ⟨fun hs => absurd rfl hs.noNull, fun hall => ?_⟩
    exact Bool.noConfusion (hall false h)
  · rename_i hnull
    exact ⟨fun _ => h.tail, fun _ => h.survives hnull _⟩

def Reached (t : Thread) : Prop := ∃ type tr, Run step (.new type) tr t

theorem Reached.step (h : Reached t) (he : t.step e = some t') : Reached t' := by
  obtain ⟨type, tr, hr⟩ := h
  exact ⟨type, _, hr.snoc he⟩

/-- The threads of the whole system make no other steps. -/
theorem reached_of_system {tr : List (System × System.Event)} {s : System}
    (h : Run System.step System.init tr s) :
    ∀ (j : ℕ) (t : Thread), s.threads[j]? = some t → Reached t := by
  refine h.invariant (I := fun s => ∀ (j : ℕ) (t : Thread), s.threads[j]? = some t → Reached t)
    (fun _ _ ht => by simp [System.init] at ht) ?_
  intro s e s' hs he
  obtain ⟨type, -, rfl⟩ | ⟨i, u, u', -, hu, hu', rfl⟩ | ⟨i, u, -, -, -, rfl⟩ |
    ⟨i, u, u', hu, rfl, hu'⟩ | ⟨requests, replies, -, -, -, rfl⟩ |
    ⟨n, d, alloc, create, service, result, -, -, -, rfl⟩ | ⟨n, d, u, u', -, -, hu, -, hu', rfl⟩ |
    ⟨e', service, -, -, rfl⟩ := System.step_cases he
  · exact forall_snoc hs fun _ => ⟨type, [], .nil⟩
  · exact forall_set hs ((hs i u hu).step (e := .call) hu')
  · exact hs
  · refine forall_set hs ?_
    obtain ⟨-, hu'⟩ | ⟨late, -, hu'⟩ | ⟨-, hu'⟩ := hu'
    · exact (hs i u hu).step (e := .read s.clntRes) hu'
    · exact (hs i u hu).step (e := .time late) hu'
    · exact (hs i u hu).step (e := .fail) hu'
  · exact hs
  · exact hs
  · exact forall_set hs ((hs _ u hu).step (e := .succeed) hu')
  · exact hs

end Prodcons.Thread

namespace Bakery.Client

variable {α : Type} [Number α] {c c' : Client α} {e : Event α}

omit [Number α] in
/-- What the calls of a client that stands here came to. -/
def Came (pc : Pc) (calls : List Bool) : Prop :=
  match pc with
  | .getNumber => calls = []
  | .service | .returned => AllOk calls
  | .readsNull => false ∈ calls

theorem came_step (hc : Came c.pc calls) (h : c.step e = some c') :
    Came c'.pc (calls ++ e.ok.toList) := by
  unfold step at h
  split at h
  · rename_i num hpc
    obtain rfl := Option.some.inj h
    rw [hpc] at hc
    obtain rfl : calls = [] := hc
    cases num with
    | none => exact List.mem_singleton_self false
    | some num => exact AllOk.snoc nofun
  · rename_i res hpc
    obtain rfl := Option.some.inj h
    rw [hpc] at hc
    have hcalls : AllOk calls := hc
    cases res with
    | none => exact List.mem_append_right _ (List.mem_singleton_self false)
    | some res =>
      have hok : AllOk (calls ++ [true]) := AllOk.snoc hcalls.ok
      obtain ⟨-, -, hres⟩ | ⟨-, hret⟩ := System.result_cases c res
      · rw [hres]
        show Came c.pc _
        rw [hpc]
        exact hok
      · rw [hret]
        exact hok
  · cases h

theorem came_run {req : REQUEST α} {tr : List (Client α × Event α)}
    (h : Run step (.new req) tr c) : Came c.pc (outcomes Event.ok tr) := by
  induction h with
  | nil => rfl
  | snoc _ he ih =>
    rw [outcomes_snoc]
    exact came_step ih he

theorem Came.survives {pc : Pc} (h : Came pc calls) :
    Survives (pc = .readsNull) (pc = .returned) calls ↔ ∀ b ∈ calls, b = true := by
  cases pc with
  | getNumber =>
    obtain rfl : calls = [] := h
    exact ⟨nofun, fun _ => ⟨nofun, nofun⟩⟩
  | service => exact ⟨fun _ => AllOk.ok h, fun _ => AllOk.survives h nofun _⟩
  | returned => exact ⟨fun _ => AllOk.ok h, fun _ => AllOk.survives h nofun _⟩
  | readsNull =>
    exact ⟨fun hs => absurd rfl hs.noNull, fun hall => Bool.noConfusion (hall false h)⟩

theorem reached_of_system {tr : List (System α × System.Event α)} {s : System α}
    (h : Run System.step System.init tr s) :
    ∀ (k : ℕ) (c : Client α), s.clients[k]? = some c → ∃ req tr, Run step (.new req) tr c := by
  refine h.invariant (I := fun s => ∀ (k : ℕ) (c : Client α), s.clients[k]? = some c →
    ∃ req tr, Run step (.new req) tr c) (fun _ _ hk => by simp [System.init] at hk) ?_
  intro s e s' hs he
  obtain ⟨req, -, -, rfl⟩ | ⟨k, c, server, num, -, hk, hpc, -, rfl⟩ |
    ⟨k, c, server, res, -, hk, hpc, -, rfl⟩ := System.step_cases he
  · exact forall_snoc hs fun _ => ⟨req, [], .nil⟩
  · obtain ⟨req, tr, hr⟩ := hs k c hk
    exact forall_set hs ⟨req, _, hr.snoc (e := .number (some num)) (by simp [step, hpc])⟩
  · obtain ⟨req, tr, hr⟩ := hs k c hk
    exact forall_set hs ⟨req, _, hr.snoc (e := .result (some res)) (by simp [step, hpc])⟩

end Bakery.Client

/-- The producer-consumer client survives a failed call when it is its first, the bakery
client survives none. -/
theorem survives_iff {α : Type} [Bakery.Number α] {type : UInt8} {req : Bakery.REQUEST α}
    {trP : List (Prodcons.Thread × Prodcons.Thread.Event)} {t : Prodcons.Thread}
    {trB : List (Bakery.Client α × Bakery.Client.Event α)} {c : Bakery.Client α}
    (ht : Run Prodcons.Thread.step (.new type) trP t)
    (hc : Run Bakery.Client.step (.new req) trB c) :
    (Survives (t.pc = .readsNull) (t.pc = .printed) (outcomes Prodcons.Thread.Event.ok trP) ↔
        ∀ b ∈ (outcomes Prodcons.Thread.Event.ok trP).tail, b = true) ∧
      (Survives (c.pc = .readsNull) (c.pc = .returned) (outcomes Bakery.Client.Event.ok trB) ↔
        ∀ b ∈ outcomes Bakery.Client.Event.ok trB, b = true) :=
  ⟨(Prodcons.Thread.came_run ht).survives, (Bakery.Client.came_run hc).survives⟩

def failedPoll : List Prodcons.Thread.Event :=
  [.call, .succeed, .read ⟨0, 0, Prodcons.NONE⟩, .read ⟨0, 0, Prodcons.NONE⟩, .call, .fail]

def noNumber : List (Bakery.Client.Event (Option ℤ)) := [.number none]

theorem survives_iff_failedPoll :
    (Survives
        (((exec Prodcons.Thread.step (.new 112) failedPoll).get (by decide)).pc = .readsNull)
        (((exec Prodcons.Thread.step (.new 112) failedPoll).get (by decide)).pc = .printed)
        (outcomes Prodcons.Thread.Event.ok (trace Prodcons.Thread.step (.new 112) failedPoll)) ↔
      ∀ b ∈ (outcomes Prodcons.Thread.Event.ok
        (trace Prodcons.Thread.step (.new 112) failedPoll)).tail, b = true) ∧
    (Survives
        (((exec Bakery.Client.step (.new (Bakery.request 0 0)) noNumber).get
          (by decide)).pc = .readsNull)
        (((exec Bakery.Client.step (.new (Bakery.request 0 0)) noNumber).get
          (by decide)).pc = .returned)
        (outcomes Bakery.Client.Event.ok
          (trace Bakery.Client.step (.new (Bakery.request 0 0)) noNumber)) ↔
      ∀ b ∈ outcomes Bakery.Client.Event.ok
        (trace Bakery.Client.step (.new (Bakery.request 0 0)) noNumber), b = true) :=
  survives_iff (run_of_isSome _ failedPoll (by decide)) (run_of_isSome _ noNumber (by decide))

/-- Both go on to read through the null pointer. -/
theorem survives_fails :
    (¬ ∀ (type : UInt8) (tr : List (Prodcons.Thread × Prodcons.Thread.Event))
      (t : Prodcons.Thread), Run Prodcons.Thread.step (.new type) tr t →
      Survives (t.pc = .readsNull) (t.pc = .printed) (outcomes Prodcons.Thread.Event.ok tr)) ∧
    ¬ ∀ (req : Bakery.REQUEST (Option ℤ))
      (tr : List (Bakery.Client (Option ℤ) × Bakery.Client.Event (Option ℤ)))
      (c : Bakery.Client (Option ℤ)), Run Bakery.Client.step (.new req) tr c →
      Survives (c.pc = .readsNull) (c.pc = .returned) (outcomes Bakery.Client.Event.ok tr) := by
  refine ⟨?_, ?_⟩
  · intro h
    have hs := h 112 _ _ (run_of_isSome _ failedPoll (by decide))
    exact hs.noNull (by decide)
  · intro h
    have hs := h (Bakery.request 0 0) _ _ (run_of_isSome _ noNumber (by decide))
    exact hs.noNull (by decide)

end OsLabs
