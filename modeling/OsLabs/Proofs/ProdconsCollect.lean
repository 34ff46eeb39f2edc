import OsLabs.Proofs.Prodcons
import OsLabs.Sanity.ProdconsTickets

/-! Collecting the finished items. The tickets differ, so what a worker has stored under
its ticket stays there; but byte 2 of the buffer only ever counts up, and the server and
the client both take nothing but letters for an item. -/

namespace OsLabs.Prodcons

open Section

def letter (i : ℕ) : UInt8 := UInt8.ofNat (97 + i)

theorem isLetter_letter {i : ℕ} (h : i < 26) : isLetter (letter i) := by
  have hall : ∀ n : Fin 26, isLetter (letter n) := by decide
  exact hall ⟨i, h⟩

/-- As long as at most 26 characters were produced, they are the letters in order. -/
structure Letters (m : Shared) : Prop where
  ch : m.ch = letter m.stored.length
  stored : m.stored = (List.range m.stored.length).map letter
  le : m.stored.length ≤ 26

theorem letters_init : Letters sharedInit := ⟨rfl, rfl, Nat.zero_le _⟩

theorem Letters.producer {m : Shared} (h : Letters m) (hlt : m.stored.length < 26) (idx : ℤ) :
    Letters (producer idx m) where
  ch := by
    simp only [Prodcons.producer, List.length_append, List.length_singleton, h.ch, letter,
      ← Nat.add_assoc, UInt8.ofNat_add]
    rfl
  stored := by
    simp only [Prodcons.producer, List.length_append, List.length_singleton, List.range_succ,
      List.map_append, List.map_singleton, ← h.stored, h.ch]
  le := by
    simp only [Prodcons.producer, List.length_append, List.length_singleton]
    omega

theorem Letters.isLetter_of_mem {m : Shared} (h : Letters m) {ch : UInt8} (hch : ch ∈ m.stored) :
    isLetter ch := by
  rw [h.stored] at hch
  obtain ⟨j, hj, rfl⟩ := List.mem_map.1 hch
  have hle := h.le
  rw [List.mem_range] at hj
  exact isLetter_letter (by omega)

namespace Service

variable {s s' : Service} {e : Event}

/-- The invariant of the runs that stay within the alphabet. -/
structure Inv (s : Service) : Prop where
  workers : Prodcons.Inv s.workers
  letters : Letters s.workers.data
  books : Books s
  idx_le : s.idx ≤ MAX_CNT_CLNT
  letter : ∀ f ∈ s.finished, isLetter f.2

theorem inv_init : Inv init where
  workers := Prodcons.inv_init
  letters := letters_init
  books := books_init
  idx_le := by decide
  letter := nofun

theorem Inv.collectable (h : Inv s) : Collectable s := by
  intro f hf
  have hletter := h.letter f hf
  obtain ⟨p, hp, hidx, -⟩ := h.books.tickets.past f hf
  have hlt : f.1 < MAX_CNT_CLNT := by
    have := (h.books.tickets.issued p hp).2
    have := h.idx_le
    omega
  refine ⟨hletter, ?_⟩
  intro type
  simp only [poll, if_true, if_pos hlt, h.books.kept f hf, hletter]

theorem Inv.register (hi : Inv s) (hfit : s.idx < MAX_CNT_CLNT) (argp : REQUEST)
    (alloc create : Bool) : Inv (s.register argp alloc create).1 := by
  have hbooks := hi.books.register argp alloc create
  rcases register_cases s argp alloc create with h | ⟨kind, h⟩ <;> rw [h] at hbooks ⊢
  · exact ⟨hi.workers, hi.letters, hbooks, hfit, hi.letter⟩
  · have hspawn := (Prodcons.inv_step (e := .spawn ⟨kind, s.idx⟩) hi.workers
      (by rintro ⟨i, idx, hrun, -⟩; cases hrun) rfl).2
    exact ⟨hspawn, hi.letters, hbooks, hfit, hi.letter⟩

/-- The oldest item nobody has taken is one of the letters stored. -/
theorem Inv.front {k : ℕ} {idx : ℤ} (hi : Inv s)
    (hk : s.workers.procs[k]? = some ⟨⟨.consumer, idx⟩, .entered⟩) :
    isLetter (s.workers.data.slots (sid s.workers.data.consCur)) := by
  have hlt := workers_buffers.consumer_entered hi.workers.ledger rfl hk rfl
  have hring := hi.workers.ring
  rw [← hring.stored] at hlt
  rw [hring.consCur, sid_header, hring.window.front hlt]
  exact hi.letters.isLetter_of_mem (List.getElem_mem hlt)

theorem WithinAlphabet.hasRoom {k : ℕ} (hc : WithinAlphabet s (.run k)) :
    HasRoom s.workers (.run k) := by
  rintro ⟨i, idx, he, hk⟩
  cases he
  have := hc k idx rfl hk
  have h26 : SLOTS = 26 := rfl
  omega

/-- A body that stays within the alphabet stores a letter. -/
theorem Inv.body {k : ℕ} {w : Worker} {data : Shared} (hi : Inv s) (hc : WithinAlphabet s (.run k))
    (hk : s.workers.procs[k]? = some ⟨w, .entered⟩)
    (hb : Prodcons.workers.body w s.workers.data = some data) :
    Letters data ∧ isLetter (data.resultBuffer w.idx) := by
  obtain ⟨kind, idx⟩ := w
  cases kind with
  | producer =>
    obtain rfl := Option.some.inj hb
    have hlt := hc k idx rfl hk
    refine ⟨hi.letters.producer hlt idx, ?_⟩
    simp only [producer, Function.update_self, hi.letters.ch]
    exact isLetter_letter hlt
  | consumer =>
    obtain rfl := Option.some.inj hb
    refine ⟨⟨hi.letters.ch, hi.letters.stored, hi.letters.le⟩, ?_⟩
    simp only [consumer, Function.update_self]
    exact hi.front hk

theorem Inv.worker {k : ℕ} (hi : Inv s) (hw : Prodcons.Inv s'.workers) (hc : WithinAlphabet s e)
    (he : e = .run k ∨ e = .fail k) (h : step s e = some s') : Inv s' := by
  have hbooks := hi.books.worker he h
  obtain ⟨w, ph, ph', -, -, -, hdata, hidx, hfin⟩ | ⟨w, data, rfl, hk, hb, -, hdata, hidx, hfin⟩ :=
    worker_cases he h
  · refine ⟨hw, ?_, hbooks, ?_, ?_⟩
    · rw [hdata]
      exact hi.letters
    · rw [hidx]
      exact hi.idx_le
    · rw [hfin]
      exact hi.letter
  · obtain ⟨hletters, hletter⟩ := hi.body hc hk hb
    refine ⟨hw, ?_, hbooks, ?_, ?_⟩
    · rw [hdata]
      exact hletters
    · rw [hidx]
      exact hi.idx_le
    · rw [hfin]
      intro f hf
      rcases List.mem_append.1 hf with hf | hf
      · exact hi.letter f hf
      · obtain rfl := List.mem_singleton.1 hf
        exact hletter

theorem inv_step (hi : Inv s) (hfit : TicketsFit s e) (hc : WithinAlphabet s e)
    (h : step s e = some s') : Inv s' := by
  obtain ⟨argp, alloc, create, rfl, -, rfl⟩ | ⟨argp, alloc, create, rfl, hidx, rfl⟩ |
    ⟨k, workers, rfl, hw, rfl⟩ | ⟨k, workers, rfl, hw, rfl⟩ := step_cases h
  · exact hi
  · exact hi.register (hfit argp alloc create rfl hidx) argp alloc create
  · exact hi.worker (Prodcons.inv_step hi.workers hc.hasRoom hw).2 hc (.inl rfl) h
  · have hroom : HasRoom s.workers (.fail k) := by
      rintro ⟨i, idx, he, -⟩
      cases he
    exact hi.worker (Prodcons.inv_step hi.workers hroom hw).2 hc (.inr rfl) h

theorem not_collectable (hi : Inv s) (hc : ¬ WithinAlphabet s e) (h : step s e = some s') :
    ¬ Collectable s' := by
  simp only [WithinAlphabet, not_forall, not_lt] at hc
  obtain ⟨k, idx, rfl, hk, hge⟩ := hc
  have hfull : s.workers.data.stored.length = 26 := Nat.le_antisymm hi.letters.le hge
  have hlast : s.workers.data.ch = letter 26 := by rw [hi.letters.ch, hfull]
  have hrun : Prodcons.workers.step s.workers (.run k) = some
      { s.workers.goto k ⟨.producer, idx⟩ .finished with
        data := producer idx s.workers.data
        bodies := s.workers.bodies ++ [⟨.producer, idx⟩] } := by
    simp [Section.step, hk, Prodcons.workers]
  simp only [step, hrun, Option.map_some, Option.some.injEq] at h
  subst h
  intro hcol
  have hstored := hcol (idx, letter 26) (List.mem_append_right _ (by
    simp [stores, hk, producer, hlast]))
  have hnot : isLetter (letter 26) = false := by decide
  exact Bool.noConfusion (hnot.symm.trans hstored.1)

instance (s : Service) (e : Event) : Decidable (TicketsFit s e) :=
  match e with
  | .call argp alloc create =>
    decidable_of_iff (argp.idx < 0 → s.idx < MAX_CNT_CLNT)
      ⟨by rintro h _ _ _ ⟨⟩; exact h, fun h => h argp alloc create rfl⟩
  | .run _ | .fail _ => .isTrue nofun

/-- Every finished item can be collected exactly as long as no producer runs its body
after the 26th character. -/
theorem collectable_iff_withinAlphabet {tr : List (Service × Event)} {s : Service}
    (h : Run step init tr s) (hfit : EachStep TicketsFit tr) :
    Always Collectable tr s ↔ EachStep WithinAlphabet tr := by
  refine (h.restrict hfit).always_iff inv_init (fun _ hi => hi.collectable) ?_ ?_
  · intro s e s' hi hc he
    obtain ⟨hfit, he⟩ := restrict_eq_some.1 he
    exact inv_step hi hfit hc he
  · intro s e s' hi hc he
    exact not_collectable hi hc (restrict_eq_some.1 he).2

/-- `n` producers register, and each runs to its end before the next one comes. -/
def productions (n : ℕ) : List Event :=
  (List.range n).flatMap fun i =>
    [.call ⟨-1, PRODUCER, NONE⟩ true true, .run i, .run i, .run i]

theorem collectable_fails : ¬ ∀ tr s, Run step init tr s → EachStep TicketsFit tr →
    Always Collectable tr s := by
  intro h
  have hsome : (exec step init (productions 27)).isSome := by decide +kernel
  have hcol := (h _ _ (run_of_isSome init (productions 27) hsome) (by decide +kernel)).2
  have hlast : (26, letter 26) ∈
      ((exec step init (productions 27)).get (by decide +kernel)).finished := by decide +kernel
  have hnot : isLetter (letter 26) = false := by decide
  exact Bool.noConfusion (hnot.symm.trans (hcol _ hlast).1)

theorem collectable_iff_withinAlphabet_oneProducer :
    Always Collectable (trace step init (productions 1))
        ((exec step init (productions 1)).get (by decide +kernel)) ↔
      EachStep WithinAlphabet (trace step init (productions 1)) :=
  collectable_iff_withinAlphabet (run_of_isSome init (productions 1) (by decide +kernel))
    (by decide +kernel)

end Service

end OsLabs.Prodcons
