import Mathlib.Data.List.Perm.Subperm
import OsLabs.Sanity.ProdconsThread

/-! Registration over UDP. The server answers every copy of a request it gets, and each copy
of a registration uses up a ticket of its own; a ticket has one item at most. -/

namespace OsLabs.Prodcons

namespace System

variable {s s' : System} {e : Event}

end System

namespace Thread

variable {t t' : Thread}

structure Numbered (t : Thread) : Prop where
  calls : t.pc.Calls t.xid
  registers : t.pc = .register ∨ t.pc = .registering → t.arg.idx < 0

/-- Past its registration only the count of its calls matters. -/
theorem numbered_of_knows (hk : t.pc.knows) (hx : 1 ≤ t.xid) (hpc : t.pc ≠ .polling) :
    t.Numbered := by
  constructor
  · cases hpc' : t.pc <;> rw [hpc'] at hk hpc <;> first
      | exact absurd hk Bool.false_ne_true
      | exact absurd rfl hpc
      | exact hx
  · intro h
    rcases h with h | h <;> rw [h] at hk <;> cases hk

theorem Numbered.call (h : t.Numbered) (hc : t.call = some t') : t'.Numbered := by
  have hcalls := h.calls
  obtain ⟨hpc, rfl⟩ | ⟨hpc, rfl⟩ := call_cases hc <;> rw [hpc] at hcalls
  · exact ⟨congrArg Nat.succ hcalls, fun _ => h.registers (.inl hpc)⟩
  · exact ⟨Nat.lt_succ_of_le hcalls, fun h => by rcases h with h | h <;> cases h⟩

theorem Numbered.succeed (h : t.Numbered) (hs : t.succeed = some t') : t'.Numbered := by
  have hcalls := h.calls
  obtain ⟨hpc, rfl⟩ | ⟨hpc, rfl⟩ := succeed_cases hs <;> rw [hpc] at hcalls
  · exact ⟨hcalls, fun h => by rcases h with h | h <;> cases h⟩
  · exact numbered_of_knows rfl (Nat.le_of_lt hcalls) (by simp)

theorem Numbered.fail (h : t.Numbered) (hf : t.fail = some t') : t'.Numbered := by
  have hcalls := h.calls
  obtain ⟨hpc, rfl⟩ | ⟨hpc, rfl⟩ := fail_cases hf <;> rw [hpc] at hcalls
  · exact ⟨Nat.le_of_eq hcalls.symm, fun h => by rcases h with h | h <;> cases h⟩
  · exact numbered_of_knows rfl (Nat.le_of_lt hcalls) (by simp)

theorem Numbered.time {late : Bool} (h : t.Numbered) (ht : t.time late = some t') :
    t'.Numbered := by
  obtain ⟨hpc, ⟨-, rfl⟩ | ⟨-, rfl⟩⟩ := time_cases ht <;>
    exact numbered_of_knows rfl (h.calls.one_le (by rw [hpc]; rfl)) (by simp)

theorem Numbered.read {res : REQUEST} (h : t.Numbered) (hr : t.read res = some t') :
    t'.Numbered := by
  have hcalls := h.calls
  obtain ⟨hpc, rfl⟩ | ⟨hpc, ⟨-, rfl⟩ | rfl⟩ | ⟨hpc, ⟨-, rfl⟩ | rfl⟩ | ⟨hpc, ⟨-, rfl⟩ | rfl⟩ |
    ⟨hpc, rfl⟩ := read_cases hr <;> rw [hpc] at hcalls
  · exact numbered_of_knows rfl (Nat.le_of_eq hcalls.symm) (by simp)
  all_goals exact numbered_of_knows rfl hcalls (by simp [print])

/-- The first request a thread sends registers it. -/
theorem Numbered.request {j : ℕ} (h : t.Numbered) (hc : t.calling)
    (hx : (System.request j t).xid = 1) : (System.request j t).body.idx < 0 := by
  simp only [calling, Bool.or_eq_true, decide_eq_true_eq] at hc
  rcases hc with hpc | hpc
  · exact h.registers (.inr hpc)
  · have hcalls := h.calls
    rw [hpc] at hcalls
    exact absurd hx (Nat.ne_of_gt hcalls)

end Thread

namespace System

variable {s s' : System} {e : Event}

/-- Whatever replies the threads mix up, a first request registers, and what it is answered
with is a ticket issued for it and for no other request. -/
structure Registered (s : System) : Prop where
  threads : ∀ (j : ℕ) (t : Thread), s.threads[j]? = some t → t.Numbered
  requests : ∀ d ∈ s.requests, d.xid = 1 → d.body.idx < 0
  issued : ∀ p ∈ s.issued, p.2 < s.service.idx
  nodup : (s.issued.map Prod.snd).Nodup
  welcomes : ∀ d ∈ s.welcomes, (d.thread, d.body.idx) ∈ s.issued
  distinct : (s.welcomes.map fun d => d.body.idx).Nodup

/-- A poll is answered: no ticket is issued. -/
theorem Registered.polled (h : Registered s) {d : Datagram} {result : Option REQUEST}
    {requests : List Datagram} (hx : d.xid ≠ 1) (hrequests : requests.Sublist s.requests) :
    Registered { s with
      requests
      replies := s.replies ++ result.toList.map fun r => ⟨d.thread, d.xid, r⟩ } := by
  have hsame : ({ s with
      requests
      replies := s.replies ++ result.toList.map fun r => ⟨d.thread, d.xid, r⟩ } : System).welcomes =
      s.welcomes := by
    cases result <;> simp [System.welcomes, hx]
  constructor
  case threads => exact h.threads
  case requests => exact fun d' hd' => h.requests d' (hrequests.subset hd')
  case issued => exact h.issued
  case nodup => exact h.nodup
  case welcomes =>
    rw [hsame]
    exact h.welcomes
  case distinct =>
    rw [hsame]
    exact h.distinct

/-- A registration is answered with the next ticket, or not at all. -/
theorem Registered.ticket (h : Registered s) {d : Datagram} {result : Option REQUEST}
    {requests : List Datagram} {service : Service} (hservice : s.service.idx < service.idx)
    (hresult : ∀ r, result = some r → r.idx = s.service.idx) (hrequests : requests.Sublist s.requests) :
    Registered { s with
      service
      requests
      replies := s.replies ++ result.toList.map fun r => ⟨d.thread, d.xid, r⟩
      issued := s.issued ++ [(d.thread, s.service.idx)] } := by
  constructor
  case threads => exact h.threads
  case requests => exact fun d' hd' => h.requests d' (hrequests.subset hd')
  case issued =>
    intro p hp
    rcases List.mem_append.1 hp with hp | hp
    · exact (h.issued p hp).trans hservice
    · rw [List.mem_singleton.1 hp]
      exact hservice
  case nodup =>
    rw [List.map_append, List.map_singleton, List.nodup_append]
    refine ⟨h.nodup, List.nodup_singleton _, ?_⟩
    intro a ha b hb
    obtain ⟨p, hp, rfl⟩ := List.mem_map.1 ha
    rw [List.mem_singleton.1 hb]
    exact (h.issued p hp).ne
  case welcomes =>
    intro d' hd'
    obtain ⟨hmem, hx⟩ := List.mem_filter.1 hd'
    rcases List.mem_append.1 hmem with hmem | hmem
    · exact List.mem_append_left _ (h.welcomes d' (List.mem_filter.2 ⟨hmem, hx⟩))
    · obtain ⟨r, hr, rfl⟩ := List.mem_map.1 hmem
      rw [hresult r (Option.mem_toList.1 hr)]
      exact List.mem_append_right _ List.mem_cons_self
  case distinct =>
    simp only [System.welcomes, List.filter_append, List.map_append, List.nodup_append]
    refine ⟨h.distinct, ?_, ?_⟩
    · cases result with
      | none => exact List.nodup_nil
      | some r => exact (List.nodup_singleton _).sublist (List.filter_sublist.map _)
    · intro a ha b hb
      obtain ⟨d', hd', rfl⟩ := List.mem_map.1 ha
      obtain ⟨d'', hd'', rfl⟩ := List.mem_map.1 hb
      obtain ⟨r, hr, rfl⟩ := List.mem_map.1 (List.mem_filter.1 hd'').1
      rw [hresult r (Option.mem_toList.1 hr)]
      exact (h.issued _ (h.welcomes d' hd')).ne

end System

end OsLabs.Prodcons
