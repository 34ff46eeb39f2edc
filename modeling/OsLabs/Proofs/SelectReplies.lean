import OsLabs.Proofs.SeatClient
import OsLabs.Proofs.SeatsBooking
import OsLabs.Spec.SelectReplies

/-! What the replies of the seat server have to do with the shared buffer, and with what
is left on its stack. -/

namespace OsLabs.SelectServer

open SeatClient (STR_BUFFER_SIZE NUL cString cString_append cString_cons overwrite)
open Seats (SHM_BUFFER_SIZE shmInit shmInit_injective shmInit_ne_nul)

def reply (size : ℕ) (text buffer : List Char) : List Char := (snprintf buffer size text).take size

theorem reply_eq {size : ℕ} {text : List Char} (h : text.length < size) (buffer : List Char) :
    reply size text buffer = text ++ NUL :: (buffer.drop (text.length + 1)).take
      (size - (text.length + 1)) := by
  have htake : text.take (size - 1) = text := List.take_of_length_le (by omega)
  have hsize : size - text.length = size - (text.length + 1) + 1 := by omega
  rw [reply, snprintf, overwrite, htake, List.append_assoc, List.take_append,
    List.take_of_length_le h.le, hsize]
  simp

theorem cString_reply {size : ℕ} {text : List Char} (h : text.length < size) (hnul : NUL ∉ text)
    (buffer : List Char) : cString (reply size text buffer) = text := by
  rw [reply_eq h, cString_append, if_neg hnul, cString_cons, if_pos rfl, List.append_nil]

/-- The byte behind the NUL is what was on the stack. -/
theorem reply_behind {size : ℕ} {text : List Char} (h : text.length + 1 < size)
    (buffer : List Char) :
    (reply size text buffer)[text.length + 1]? = buffer[text.length + 1]? := by
  obtain ⟨n, hn⟩ : ∃ n, size - (text.length + 1) = n + 1 := ⟨size - text.length - 2, by omega⟩
  rw [reply_eq (by omega), List.getElem?_append_right (Nat.le_succ _), hn]
  simp

def filled (ch : Char) : Local := ⟨List.replicate STR_BUFFER_SIZE ch, List.length_replicate⟩

theorem reply_ne {size : ℕ} {text : List Char} (h : text.length + 1 < size)
    (hsize : size ≤ STR_BUFFER_SIZE) {a b : Char} (hab : a ≠ b) :
    reply size text (filled a) ≠ reply size text (filled b) := by
  intro heq
  have hlt : text.length + 1 < STR_BUFFER_SIZE := Nat.lt_of_lt_of_le h hsize
  have hbyte := congrArg (·[text.length + 1]?) heq
  simp only [reply_behind h, filled, List.getElem?_replicate, if_pos hlt] at hbyte
  exact hab (Option.some.inj hbyte)

theorem writer_cases (shmBuf : Cells) (idx : ℤ) :
    ((idx < 0 ∨ idx ≥ SHM_BUFFER_SIZE) ∧ ∀ buffer, writer shmBuf idx buffer =
      (shmBuf, reply SHM_BUFFER_SIZE "buffer empty".toList buffer, true)) ∨
    (∃ i : Fin SHM_BUFFER_SIZE, idx = i.val ∧ shmBuf i = '-' ∧ ∀ buffer,
      writer shmBuf idx buffer =
        (shmBuf, reply STR_BUFFER_SIZE "Symbol occupied".toList buffer, false)) ∨
    (∃ i : Fin SHM_BUFFER_SIZE, idx = i.val ∧ shmBuf i ≠ '-' ∧ ∀ buffer,
      writer shmBuf idx buffer =
        (Function.update shmBuf i '-', reply STR_BUFFER_SIZE [shmBuf i] buffer, false)) := by
  by_cases hout : idx < 0 ∨ idx ≥ SHM_BUFFER_SIZE
  · refine .inl ⟨hout, fun buffer => ?_⟩
    rw [writer, dif_pos hout]
    rfl
  · obtain ⟨i, hi⟩ : ∃ i : Fin SHM_BUFFER_SIZE, idx = i.val :=
      ⟨⟨idx.toNat, by omega⟩, by simp only; omega⟩
    subst hi
    by_cases hch : shmBuf i = '-'
    · refine .inr (.inl ⟨i, rfl, hch, fun buffer => ?_⟩)
      rw [writer, dif_neg hout]
      exact if_pos hch
    · refine .inr (.inr ⟨i, rfl, hch, fun buffer => ?_⟩)
      rw [writer, dif_neg hout]
      exact if_neg hch

/-- Only `writer` looks at its array or changes the shared buffer. -/
theorem clientService_of_not_writes {r : Request} (h : r.writes = false) (shmBuf : Cells) :
    ∃ sent recvs closes, (r.op = some OP_WRITER → sent = []) ∧
      ∀ buffer, clientService shmBuf r.op r.idx buffer = ⟨shmBuf, sent, recvs, closes, false⟩ := by
  obtain ⟨op, idx⟩ := r
  cases op with
  | none => exact ⟨[], 1, 1, nofun, fun _ => rfl⟩
  | some op =>
    by_cases hr : op = OP_READER
    · subst hr
      exact ⟨_, 1, 1, nofun, fun _ => rfl⟩
    by_cases hw : op = OP_WRITER
    · subst hw
      cases idx with
      | none => exact ⟨[], 2, 2, fun _ => rfl, fun _ => rfl⟩
      | some idx => simp [Request.writes] at h
    · exact ⟨[], 1, 1, fun _ => rfl, fun _ => by simp [clientService, hr, hw]⟩

theorem clientService_of_writes {r : Request} (h : r.writes = true) :
    ∃ idx : Int8, r.op = some OP_WRITER ∧ r.idx = some idx ∧ ∀ shmBuf buffer,
      clientService shmBuf r.op r.idx buffer =
        ⟨(writer shmBuf idx.toInt buffer).1, [(writer shmBuf idx.toInt buffer).2.1], 2, 1,
          (writer shmBuf idx.toInt buffer).2.2⟩ := by
  obtain ⟨op, idx⟩ := r
  simp only [Request.writes, Bool.and_eq_true, decide_eq_true_eq] at h
  obtain ⟨rfl, hidx⟩ := h
  obtain ⟨idx, rfl⟩ := Option.isSome_iff_exists.1 hidx
  exact ⟨idx, rfl, rfl, fun _ _ => rfl⟩

theorem shmInit_ne_sold : ∀ i, shmInit i ≠ '-' := by decide +kernel

namespace Desk

variable {d : Desk} {e : Request × Local}

theorem serveAll_snoc (shmBuf : Cells) (es : List (Request × Local)) (e : Request × Local) :
    serveAll shmBuf (es ++ [e]) = (serveAll shmBuf es).serve e :=
  List.foldl_concat ..

/-- What holds of every service of these requests, whatever the buffer, holds of the log. -/
theorem log_serveAll {P : Served → Prop} (shmBuf : Cells) {es : List (Request × Local)}
    (h : ∀ e ∈ es, ∀ d : Desk, P (clientService d.shmBuf e.1.op e.1.idx e.2)) :
    ∀ p ∈ (serveAll shmBuf es).log, P p.2 := by
  induction es using List.reverseRecOn with
  | nil => exact nofun
  | append_singleton es e ih =>
    rw [serveAll_snoc, serve]
    intro p hp
    rcases List.mem_append.1 hp with hp | hp
    · exact ih (fun e he => h e (List.mem_append_left _ he)) p hp
    · rw [List.mem_singleton.1 hp]
      exact h e (List.mem_append_right _ (List.mem_singleton_self e)) _

theorem letterOf_reply {size : ℕ} {text : List Char} (h : text.length < size) (hnul : NUL ∉ text)
    (buffer : List Char) : letterOf (reply size text buffer) = single text := by
  rw [letterOf, cString_reply h hnul]

theorem bookings_serve (d : Desk) (e : Request × Local) : (d.serve e).bookings = d.bookings ++
    (booking (e.1, clientService d.shmBuf e.1.op e.1.idx e.2)).toList := by
  cases h : booking (e.1, clientService d.shmBuf e.1.op e.1.idx e.2) <;>
    simp [bookings, serve, h]

/-- A service gives out the letter of one free cell, or it changes nothing and sends no
letter. -/
theorem serve_cases (e : Request × Local) (hnul : ∀ i, d.shmBuf i ≠ NUL) :
    ((d.serve e).shmBuf = d.shmBuf ∧ (d.serve e).bookings = d.bookings) ∨
    ∃ i, d.shmBuf i ≠ '-' ∧ (d.serve e).shmBuf = Function.update d.shmBuf i '-' ∧
      (d.serve e).bookings = d.bookings ++ [((i.val : ℤ), d.shmBuf i)] := by
  rw [bookings_serve, serve]
  cases hw : e.1.writes with
  | false =>
    obtain ⟨sent, recvs, closes, hsent, hserve⟩ := clientService_of_not_writes hw d.shmBuf
    refine .inl ⟨by rw [hserve], ?_⟩
    have hnone : booking (e.1, (⟨d.shmBuf, sent, recvs, closes, false⟩ : Served)) = none := by
      unfold booking
      split
      · rename_i op idx bytes hop hidx hbytes
        refine if_neg ?_
        rintro rfl
        simp [hsent hop] at hbytes
      · rfl
    rw [hserve, hnone, Option.toList_none, List.append_nil]
  | true =>
    obtain ⟨idx, hop, hidx, hserve⟩ := clientService_of_writes hw
    rw [hserve]
    have hbooking : ∀ r : Served, r.sent = [(writer d.shmBuf idx.toInt e.2).2.1] →
        booking (e.1, r) =
          (letterOf (writer d.shmBuf idx.toInt e.2).2.1).map (idx.toInt, ·) := by
      intro r hr
      simp [booking, hop, hidx, hr]
    rw [hbooking _ rfl]
    obtain ⟨-, hwriter⟩ | ⟨i, hi, hsold, hwriter⟩ | ⟨i, hi, hfree, hwriter⟩ :=
      writer_cases d.shmBuf idx.toInt
    · left
      rw [hwriter, letterOf_reply (by decide +kernel) (by decide +kernel)]
      exact ⟨rfl, List.append_nil _⟩
    · left
      rw [hwriter, letterOf_reply (by decide +kernel) (by decide +kernel)]
      exact ⟨rfl, List.append_nil _⟩
    · right
      have hletter : NUL ∉ [d.shmBuf i] := by
        rw [List.mem_singleton]
        exact (hnul i).symm
      rw [hwriter, letterOf_reply (show 1 < STR_BUFFER_SIZE by decide) hletter, hi]
      exact ⟨i, hfree, rfl, rfl⟩

theorem conserved_init : Conserved ⟨shmInit, []⟩ where
  once := List.nodup_nil
  own := nofun
  sold i := iff_of_false (shmInit_ne_sold i) nofun
  kept _ _ := rfl

theorem Conserved.ne_nul (h : Conserved d) (i : Fin SHM_BUFFER_SIZE) : d.shmBuf i ≠ NUL := by
  by_cases hsold : d.shmBuf i = '-'
  · rw [hsold]
    decide
  · rw [h.kept i hsold]
    exact shmInit_ne_nul i

/-- The letter of a free cell was not sent before. -/
theorem Conserved.fresh (h : Conserved d) {i : Fin SHM_BUFFER_SIZE} (hfree : d.shmBuf i ≠ '-') :
    shmInit i ∉ d.bookings.map Prod.snd := by
  intro hmem
  obtain ⟨p, hp, hpi⟩ := List.mem_map.1 hmem
  obtain ⟨j, rfl⟩ := h.own p hp
  obtain rfl : j = i := shmInit_injective hpi
  exact hfree ((h.sold j).2 hp)

theorem conserved_serve (h : Conserved d) (e : Request × Local) : Conserved (d.serve e) := by
  obtain ⟨hbuf, hbookings⟩ | ⟨i, hfree, hbuf, hbookings⟩ := serve_cases e h.ne_nul
  · refine ⟨?_, ?_, ?_, ?_⟩
    · rw [hbookings]
      exact h.once
    · rw [hbookings]
      exact h.own
    · rw [hbuf, hbookings]
      exact h.sold
    · rw [hbuf]
      exact h.kept
  · rw [h.kept i hfree] at hbookings
    refine ⟨?_, ?_, ?_, ?_⟩
    · rw [hbookings, List.map_append, List.map_singleton, List.nodup_append]
      refine ⟨h.once, List.nodup_singleton _, ?_⟩
      rintro a ha b hb rfl
      rw [List.mem_singleton.1 hb] at ha
      exact h.fresh hfree ha
    · rw [hbookings]
      intro p hp
      rcases List.mem_append.1 hp with hp | hp
      · exact h.own p hp
      · exact ⟨i, List.mem_singleton.1 hp⟩
    · intro j
      rw [hbuf, hbookings, List.mem_append, List.mem_singleton]
      by_cases hj : j = i
      · simp [hj]
      · have hne : ((j.val : ℤ), shmInit j) ≠ ((i.val : ℤ), shmInit i) := by
          intro heq
          exact hj (shmInit_injective (Prod.mk.inj heq).2)
        rw [Function.update_of_ne hj, or_iff_left hne]
        exact h.sold j
    · intro j
      rw [hbuf, Function.update_apply]
      split_ifs with hj
      · intro hne
        exact absurd rfl hne
      · exact h.kept j

/-- For every sequence of requests, whatever was on the stack. -/
theorem conserved (es : List (Request × Local)) : Conserved (serveAll shmInit es) := by
  induction es using List.reverseRecOn with
  | nil => exact conserved_init
  | append_singleton es e ih =>
    rw [serveAll_snoc]
    exact conserved_serve ih e

theorem sent_serve (d : Desk) (e : Request × Local) :
    (d.serve e).sent = d.sent ++ [(clientService d.shmBuf e.1.op e.1.idx e.2).sent] := by
  simp [sent, serve]

theorem shmBuf_serve {d d' : Desk} (h : d.shmBuf = d'.shmBuf) (r : Request) (b b' : Local) :
    (d.serve (r, b)).shmBuf = (d'.serve (r, b')).shmBuf := by
  simp only [serve, h]
  cases hw : r.writes with
  | false =>
    obtain ⟨sent, recvs, closes, -, hserve⟩ := clientService_of_not_writes hw d'.shmBuf
    rw [hserve, hserve]
  | true =>
    obtain ⟨idx, -, -, hserve⟩ := clientService_of_writes hw
    rw [hserve, hserve]
    obtain ⟨-, hwriter⟩ | ⟨i, -, -, hwriter⟩ | ⟨i, -, -, hwriter⟩ :=
      writer_cases d'.shmBuf idx.toInt <;> rw [hwriter, hwriter]

theorem exists_snoc_of_map_fst {es es' : List (Request × Local)} {e : Request × Local}
    (h : (es ++ [e]).map Prod.fst = es'.map Prod.fst) :
    ∃ es₁ b, es' = es₁ ++ [(e.1, b)] ∧ es.map Prod.fst = es₁.map Prod.fst := by
  rw [List.map_append] at h
  obtain ⟨es₁, es₂, rfl, hinit, hlast⟩ := List.map_eq_append_iff.1 h.symm
  obtain ⟨⟨r, b⟩, rfl, rfl⟩ := List.map_eq_singleton_iff.1 hlast
  exact ⟨es₁, b, rfl, hinit.symm⟩

theorem shmBuf_serveAll (shmBuf : Cells) {es es' : List (Request × Local)}
    (h : es.map Prod.fst = es'.map Prod.fst) :
    (serveAll shmBuf es).shmBuf = (serveAll shmBuf es').shmBuf := by
  induction es using List.reverseRecOn generalizing es' with
  | nil =>
    obtain rfl : es' = [] := List.map_eq_nil_iff.1 h.symm
    rfl
  | append_singleton es e ih =>
    obtain ⟨es₁, b, rfl, hinit⟩ := exists_snoc_of_map_fst h
    rw [serveAll_snoc, serveAll_snoc]
    exact shmBuf_serve (ih hinit) e.1 e.2 b

/-- A reply of `writer` shows the byte of its array that comes after the string. -/
theorem sent_ne {r : Request} (h : r.writes = true) (shmBuf : Cells) {a b : Char} (hab : a ≠ b) :
    (clientService shmBuf r.op r.idx (filled a)).sent ≠
      (clientService shmBuf r.op r.idx (filled b)).sent := by
  obtain ⟨idx, -, -, hserve⟩ := clientService_of_writes h
  rw [hserve, hserve]
  intro heq
  have hsame := (List.cons.inj heq).1
  obtain ⟨-, hwriter⟩ | ⟨i, -, -, hwriter⟩ | ⟨i, -, -, hwriter⟩ :=
    writer_cases shmBuf idx.toInt <;> rw [hwriter, hwriter] at hsame
  · exact reply_ne (by decide +kernel) (by decide) hab hsame
  · exact reply_ne (by decide +kernel) (by decide) hab hsame
  · exact reply_ne (show 2 < STR_BUFFER_SIZE by decide) (by decide) hab hsame

/-- Without a request that gets as far as `writer` nothing depends on the stack. -/
theorem sent_congr (shmBuf : Cells) {es es' : List (Request × Local)}
    (h : es.map Prod.fst = es'.map Prod.fst) (hw : ∀ e ∈ es, e.1.writes = false) :
    (serveAll shmBuf es).sent = (serveAll shmBuf es').sent := by
  induction es using List.reverseRecOn generalizing es' with
  | nil =>
    obtain rfl : es' = [] := List.map_eq_nil_iff.1 h.symm
    rfl
  | append_singleton es e ih =>
    obtain ⟨es₁, b, rfl, hinit⟩ := exists_snoc_of_map_fst h
    have hbuf := shmBuf_serveAll shmBuf hinit
    have hsent := ih hinit fun e he => hw e (List.mem_append_left _ he)
    obtain ⟨sent, recvs, closes, -, hserve⟩ := clientService_of_not_writes
      (hw e (List.mem_append_right _ (List.mem_singleton_self e))) (serveAll shmBuf es).shmBuf
    rw [serveAll_snoc, serveAll_snoc, sent_serve, sent_serve, hsent, ← hbuf, hserve, hserve]

theorem map_fst_filled (ch : Char) (rs : List Request) :
    (rs.map (·, filled ch)).map Prod.fst = rs := by
  rw [List.map_map]
  exact List.map_id rs

/-- With such a request two arrays make a difference. -/
theorem not_writes_of_sent (shmBuf : Cells) {a b : Char} (hab : a ≠ b) {rs : List Request}
    (h : (serveAll shmBuf (rs.map (·, filled a))).sent =
      (serveAll shmBuf (rs.map (·, filled b))).sent) : ∀ r ∈ rs, r.writes = false := by
  induction rs using List.reverseRecOn with
  | nil => exact nofun
  | append_singleton rs r ih =>
    have hbuf := shmBuf_serveAll shmBuf ((map_fst_filled a rs).trans (map_fst_filled b rs).symm)
    simp only [List.map_append, List.map_singleton, serveAll_snoc, sent_serve, hbuf] at h
    obtain ⟨hinit, hlast⟩ := List.append_inj' h rfl
    intro r' hr'
    rcases List.mem_append.1 hr' with hr' | hr'
    · exact ih hinit r' hr'
    · rw [List.mem_singleton.1 hr', Bool.eq_false_iff]
      intro hw
      exact sent_ne hw _ hab (List.singleton_inj.1 hlast)

/-- The bytes sent are determined by the requests and the shared buffer exactly as long as
no request gets as far as `writer`. -/
theorem sent_determined_iff (shmBuf : Cells) (rs : List Request) :
    (∀ es es' : List (Request × Local), es.map Prod.fst = rs → es'.map Prod.fst = rs →
        (serveAll shmBuf es).sent = (serveAll shmBuf es').sent) ↔
      ∀ r ∈ rs, r.writes = false := by
  refine ⟨?_, ?_⟩
  · intro h
    exact not_writes_of_sent shmBuf (a := 'a') (b := 'b') (by decide)
      (h _ _ (map_fst_filled 'a' rs) (map_fst_filled 'b' rs))
  · intro h es es' hes hes'
    refine sent_congr shmBuf (hes.trans hes'.symm) ?_
    intro e he
    exact h e.1 (hes ▸ List.mem_map_of_mem he)

/-- One request for the first letter. -/
theorem sent_determined_fails :
    ¬ ∀ (rs : List Request) (es es' : List (Request × Local)), es.map Prod.fst = rs →
      es'.map Prod.fst = rs → (serveAll shmInit es).sent = (serveAll shmInit es').sent := by
  intro h
  have hnone := not_writes_of_sent shmInit (a := 'a') (b := 'b') (by decide)
    (h [⟨some OP_WRITER, some 0⟩] _ _ (map_fst_filled 'a' _) (map_fst_filled 'b' _))
  exact absurd (hnone _ List.mem_cons_self) (by decide)

end Desk

namespace Server

variable {s s' : Server} {e : Event}

theorem desk_step (h : s.step e = some s') :
    (s'.shmBuf = s.shmBuf ∧ s'.sent = s.sent) ∨
    ∃ (r : Request) (b : Local), s'.shmBuf = (clientService s.shmBuf r.op r.idx b).shmBuf ∧
      s'.sent.map Prod.snd = s.sent.map Prod.snd ++ (clientService s.shmBuf r.op r.idx b).sent := by
  cases e with
  | select ready =>
    simp only [step] at h
    split_ifs at h
    cases ready with
    | none =>
      obtain rfl := Option.some.inj h
      exact .inl ⟨rfl, rfl⟩
    | some ready =>
      simp only at h
      split_ifs at h
      obtain rfl := Option.some.inj h
      exact .inl ⟨rfl, rfl⟩
  | accept connectSockFd =>
    simp only [step] at h
    split_ifs at h
    cases connectSockFd with
    | none =>
      obtain rfl := Option.some.inj h
      exact .inl ⟨rfl, rfl⟩
    | some fd =>
      simp only at h
      split_ifs at h <;> obtain rfl := Option.some.inj h <;> exact .inl ⟨rfl, rfl⟩
  | service op idx buffer =>
    simp only [step] at h
    split at h
    · split_ifs at h with hok
      all_goals
        obtain rfl := Option.some.inj h
        refine .inr ⟨⟨op, idx⟩, ⟨buffer, hok.2.1⟩, rfl, ?_⟩
        simp [nextTurn, sigHandler, Function.comp_def]
    · cases h
  | sigint =>
    simp only [step] at h
    split_ifs at h
    obtain rfl := Option.some.inj h
    exact .inl ⟨rfl, rfl⟩
  | leave =>
    simp only [step] at h
    split_ifs at h
    obtain rfl := Option.some.inj h
    exact .inl ⟨rfl, rfl⟩

/-- What the loop has done to the shared buffer and has sent is one service after another. -/
theorem exists_desk {listenSockFd : ℕ} {inherited : ℕ → Bool} {tr : List (Server × Event)}
    (h : Run step (start listenSockFd inherited) tr s) :
    ∃ es, s.shmBuf = (Desk.serveAll shmInit es).shmBuf ∧
      s.sent.map Prod.snd = (Desk.serveAll shmInit es).sent.flatten := by
  induction h with
  | nil => exact ⟨[], rfl, rfl⟩
  | snoc _ he ih =>
    obtain ⟨es, hbuf, hsent⟩ := ih
    obtain ⟨hbuf', hsent'⟩ | ⟨r, b, hbuf', hsent'⟩ := desk_step he
    · exact ⟨es, hbuf'.trans hbuf, by rw [hsent', hsent]⟩
    · refine ⟨es ++ [(r, b)], ?_, ?_⟩
      · rw [Desk.serveAll_snoc, hbuf', hbuf]
        rfl
      · rw [Desk.serveAll_snoc, Desk.sent_serve, hsent', hsent, hbuf, List.flatten_append,
          List.flatten_singleton]

end Server

end OsLabs.SelectServer
