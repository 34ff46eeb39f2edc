import OsLabs.Sanity.SeatClient
import OsLabs.Proofs.SeatsSnapshot

/-! One client and nobody else. It reads the buffer, asks for the first seat that is left and
gets it, and so on until all are sold. -/

namespace OsLabs.SeatClient.System

open Seats (Handler Reply shmInit)

variable {s s' s'' : System}

theorem wholeSnapshot_of_ne {e : Event} (h : ∀ j, e ≠ .client (.run j)) (s : System) :
    s.WholeSnapshot e := by
  intro j _ _ he
  exact absurd he (h j)

theorem wholeSnapshot_trace (s : System) {es : List Event}
    (h : ∀ e ∈ es, ∀ j, e ≠ .client (.run j)) : EachStep WholeSnapshot (trace step s es) := by
  intro p hp
  exact wholeSnapshot_of_ne (eachStep_trace s h p hp) p.1

/-- A run whose threads compute from whole snapshots leads from one state to the other. -/
def Leads (s s' : System) : Prop := ∃ tr, Run step s tr s' ∧ EachStep WholeSnapshot tr

theorem Leads.refl (s : System) : Leads s s := ⟨[], .nil, eachStep_nil⟩

theorem Leads.trans (h : Leads s s') (h' : Leads s' s'') : Leads s s'' := by
  obtain ⟨tr, hrun, hwhole⟩ := h
  obtain ⟨tr', hrun', hwhole'⟩ := h'
  exact ⟨tr ++ tr', hrun.append hrun', List.forall_mem_append.2 ⟨hwhole, hwhole'⟩⟩

instance : Trans Leads Leads Leads := ⟨Leads.trans⟩

theorem leads_step {e : Event} (hw : s.WholeSnapshot e) (h : step s e = some s') : Leads s s' :=
  ⟨_, .snoc .nil h, eachStep_snoc.2 ⟨eachStep_nil, hw⟩⟩

/-- A schedule in which no thread makes a step of its own. -/
theorem leads_exec (es : List Event) (hne : ∀ e ∈ es, ∀ j, e ≠ .client (.run j))
    (h : exec step s es = some s') : Leads s s' :=
  ⟨_, run_of_exec h, wholeSnapshot_trace s hne⟩

/-! ### The semaphores -/

def readerIn : Seats.Sem → ℕ := Function.update (fun _ => 0) .SEM_ACTIVE_READERS 1

def writerIn : Seats.Sem → ℕ := Function.update (fun _ => 0) .SEM_ACTIVE_WRITER 1

theorem startRead_free : (semop (fun _ => 0) Seats.startRead).result = some readerIn :=
  congrArg some (funext fun i => by cases i <;> rfl)

theorem stopRead_free : (semop readerIn Seats.stopRead).result = some fun _ => 0 :=
  congrArg some (funext fun i => by cases i <;> rfl)

theorem startWrite_free : (semop (fun _ => 0) Seats.startWrite).result = some writerIn :=
  congrArg some (funext fun i => by cases i <;> rfl)

theorem stopWrite_free : (semop writerIn Seats.stopWrite).result = some fun _ => 0 :=
  congrArg some (funext fun i => by cases i <;> rfl)

/-! ### The client reads the buffer -/

/-- One client at the server, and nobody at the buffer. -/
def shop (buf : Cells) (hs : List Handler) (sent : List (ℕ × Reply))
    (sentBuf : List (ℕ × List Char)) (idx : Int8) (t : Thread) (log : List ℕ)
    (conns : List Conn) : System :=
  ⟨⟨fun _ => 0, buf, hs, sent, sentBuf⟩, ⟨idx, [t], log⟩, conns⟩

variable {buf : Cells} {hs : List Handler} {sent : List (ℕ × Reply)}
  {sentBuf : List (ℕ × List Char)} {idx : Int8} {fd : ℕ} {rb : List Char} {log : List ℕ}
  {conns : List Conn} {t : Thread}

theorem modify_concat {α : Type*} (l : List α) (a : α) (f : α → α) :
    (l ++ [a]).modify l.length f = l ++ [f a] := by
  induction l with
  | nil => rfl
  | cons b l ih => simp [ih]

theorem asks_reader (hlen : hs.length = conns.length) :
    Leads (shop buf hs sent sentBuf idx ⟨.connect, fd, rb⟩ log conns)
      (shop buf (hs ++ [⟨.reader, .startRead, 0, 0⟩]) sent sentBuf idx
        ⟨.recvBuf, hs.length, rb⟩ log (conns ++ [⟨some 'r', none, false⟩])) := by
  apply leads_exec [.client (.connect 0 (some hs.length)), .client (.send 0 true),
    .server .accept, .server (.recvOp hs.length (some 'r'))] (by simp)
  simp [exec, step, shop, clientAllows, serverAllows, SeatClient.step, Seats.step, connect,
    connsAfter, hlen, SeatClient.State.goto, Seats.dispatch, Conn.sent, modify_concat]

/-- The server's next statement, of its newest handler. -/
theorem leads_run {sem : Seats.Sem → ℕ} {h : Handler} {client : SeatClient.State}
    {server : Seats.State}
    (hrun : Seats.run .pthread ⟨sem, buf, hs ++ [h], sent, sentBuf⟩ hs.length h = some server) :
    Leads ⟨⟨sem, buf, hs ++ [h], sent, sentBuf⟩, client, conns⟩ ⟨server, client, conns⟩ := by
  apply leads_step (e := .server (.run hs.length)) (wholeSnapshot_of_ne (by simp) _)
  simp [step, serverAllows, Seats.step, hrun]

theorem copyNext_take (hnul : ∀ cell, buf cell ≠ Char.ofNat 0) {n : ℕ}
    (hn : n < Seats.SHM_BUFFER_SIZE) :
    Seats.copyNext buf ((List.ofFn buf).take n) = .copy ((List.ofFn buf).take (n + 1)) := by
  have hlen : ((List.ofFn buf).take n).length = n := by
    rw [List.length_take, List.length_ofFn]
    exact min_eq_left hn.le
  have hget : (List.ofFn buf)[n]? = some (buf ⟨n, hn⟩) := by
    rw [List.getElem?_ofFn, dif_pos hn]
  simp only [Seats.copyNext, hlen]
  rw [dif_pos hn, if_neg (hnul _), List.take_add_one, hget]
  rfl

/-- The handler has the first `n` characters. -/
def copying (buf : Cells) (hs : List Handler) (sent : List (ℕ × Reply))
    (sentBuf : List (ℕ × List Char)) (n : ℕ) : Seats.State :=
  ⟨readerIn, buf, hs ++ [⟨.reader, .copy ((List.ofFn buf).take n), 1, 0⟩], sent, sentBuf⟩

theorem copies (hnul : ∀ cell, buf cell ≠ Char.ofNat 0) (client : SeatClient.State) {n : ℕ}
    (hn : n ≤ Seats.SHM_BUFFER_SIZE) :
    Leads ⟨copying buf hs sent sentBuf 0, client, conns⟩
      ⟨copying buf hs sent sentBuf n, client, conns⟩ := by
  induction n with
  | zero => exact .refl _
  | succ n ih =>
    refine (ih (Nat.le_of_succ_le hn)).trans (leads_run ?_)
    simp [Seats.run, copyNext_take hnul hn, Seats.State.goto, copying]

/-- The server sends the buffer as it is. -/
theorem reads (hnul : ∀ cell, buf cell ≠ Char.ofNat 0) :
    Leads (shop buf (hs ++ [⟨.reader, .startRead, 0, 0⟩]) sent sentBuf idx t log conns)
      (shop buf (hs ++ [⟨.reader, .done, 1, 1⟩]) sent (sentBuf ++ [(hs.length, List.ofFn buf)])
        idx t log conns) := by
  calc
    Leads (shop buf (hs ++ [⟨.reader, .startRead, 0, 0⟩]) sent sentBuf idx t log conns)
        ⟨copying buf hs sent sentBuf 0, ⟨idx, [t], log⟩, conns⟩ :=
      leads_run (by simp [Seats.run, startRead_free, Seats.State.lock, copying])
    Leads _ ⟨copying buf hs sent sentBuf Seats.SHM_BUFFER_SIZE, ⟨idx, [t], log⟩, conns⟩ :=
      copies hnul _ le_rfl
    Leads _ ⟨⟨readerIn, buf, hs ++ [⟨.reader, .sendBuf (List.ofFn buf), 1, 0⟩], sent, sentBuf⟩,
        ⟨idx, [t], log⟩, conns⟩ :=
      leads_run (by simp [Seats.run, Seats.copyNext, Seats.State.goto])
    Leads _ ⟨⟨readerIn, buf, hs ++ [⟨.reader, .stopRead, 1, 0⟩], sent,
        sentBuf ++ [(hs.length, List.ofFn buf)]⟩, ⟨idx, [t], log⟩, conns⟩ :=
      leads_run (by simp [Seats.run, Seats.State.goto])
    Leads _ (shop buf (hs ++ [⟨.reader, .done, 1, 1⟩]) sent
        (sentBuf ++ [(hs.length, List.ofFn buf)]) idx t log conns) :=
      leads_run (by simp [Seats.run, stopRead_free, Seats.State.unlock])

theorem receives {k : ℕ} (hmem : (k, List.ofFn buf) ∈ sentBuf) :
    Leads (shop buf hs sent sentBuf idx ⟨.recvBuf, k, rb⟩ log conns)
      (shop buf hs sent sentBuf idx ⟨.compute (List.ofFn buf), k, rb⟩ log conns) := by
  apply leads_step (e := .client (.recv 0 (some (List.ofFn buf)))) (wholeSnapshot_of_ne (by simp) _)
  have hlen : (List.ofFn buf).length = SHM_BUFFER_SIZE := List.length_ofFn
  have hne : List.ofFn buf ≠ [] := List.ne_nil_of_length_pos (by rw [hlen]; decide)
  have hallow : (shop buf hs sent sentBuf idx ⟨.recvBuf, k, rb⟩ log conns).clientAllows
      (.recv 0 (some (List.ofFn buf))) :=
    ⟨_, rfl, .inl ⟨hne, hlen.le, _, hmem, rfl, List.prefix_refl _⟩⟩
  rw [step, if_pos hallow]
  rfl

theorem computes :
    Leads (shop buf hs sent sentBuf idx ⟨.compute (List.ofFn buf), fd, rb⟩ log conns)
      (shop buf hs sent sentBuf (Int8.ofInt (findFirstUnoccupiedIndex (bufferOf (List.ofFn buf))))
        ⟨.reconnect, fd, rb⟩ log conns) := by
  apply leads_step (e := .client (.run 0)) _ rfl
  intro j t received he ht hp
  obtain rfl : 0 = j := by simpa using he
  obtain rfl := Option.some.inj ht
  obtain rfl := Phase.compute.inj hp
  exact List.length_ofFn

/-- The client has learnt which seat to ask for. -/
theorem takes_snapshot (hlen : hs.length = conns.length) (hnul : ∀ cell, buf cell ≠ Char.ofNat 0) :
    Leads (shop buf hs sent sentBuf idx ⟨.connect, fd, rb⟩ log conns)
      (shop buf (hs ++ [⟨.reader, .done, 1, 1⟩]) sent (sentBuf ++ [(hs.length, List.ofFn buf)])
        (Int8.ofInt (findFirstUnoccupiedIndex (bufferOf (List.ofFn buf))))
        ⟨.reconnect, hs.length, rb⟩ log (conns ++ [⟨some 'r', none, false⟩])) :=
  (asks_reader hlen).trans ((reads hnul).trans ((receives (by simp)).trans computes))

/-! ### It buys a seat -/

theorem reconnects :
    Leads (shop buf hs sent sentBuf idx ⟨.reconnect, fd, rb⟩ log conns)
      (shop buf hs sent sentBuf idx ⟨.sendIdx, conns.length, rb⟩ log
        (conns.modify fd Conn.close ++ [⟨some 'w', none, false⟩])) := by
  have hmodify := modify_concat (conns.modify fd Conn.close) ⟨none, none, false⟩
  rw [List.length_modify] at hmodify
  apply leads_exec [.client (.connect 0 (some conns.length)), .client (.send 0 true)] (by simp)
  simp [exec, step, shop, clientAllows, SeatClient.step, connect, connsAfter, SeatClient.State.goto,
    Conn.sent, hmodify]

theorem asks_writer (hfd : fd = hs.length) (hlen : hs.length = conns.length) :
    Leads (shop buf hs sent sentBuf idx ⟨.sendIdx, fd, rb⟩ log
        (conns ++ [⟨some 'w', none, false⟩]))
      (shop buf (hs ++ [⟨.writer, .startWrite idx.toInt, 0, 0⟩]) sent sentBuf idx
        ⟨.recvResult, hs.length, rb⟩ log (conns ++ [⟨some 'w', some idx, false⟩])) := by
  apply leads_exec [.client (.send 0 true), .server .accept, .server (.recvOp hs.length (some 'w')),
    .server (.recvIdx hs.length (some idx))] (by simp)
  simp [exec, step, shop, clientAllows, serverAllows, SeatClient.step, Seats.step, connsAfter,
    hfd, hlen, SeatClient.State.goto, Seats.dispatch, Seats.dispatchIdx, Conn.sent, modify_concat]

theorem sells {cell : Fin Seats.SHM_BUFFER_SIZE} (hfree : buf cell ≠ '-') :
    Leads (shop buf (hs ++ [⟨.writer, .startWrite cell.val, 0, 0⟩]) sent sentBuf idx t log conns)
      (shop (Function.update buf cell '-') (hs ++ [⟨.writer, .done, 1, 1⟩])
        (sent ++ [(hs.length, .symbol (buf cell))]) sentBuf idx t log conns) := by
  have hin : 0 ≤ (cell.val : ℤ) ∧ (cell.val : ℤ) < Seats.SHM_BUFFER_SIZE :=
    ⟨Int.natCast_nonneg _, by exact_mod_cast cell.isLt⟩
  calc
    Leads (shop buf (hs ++ [⟨.writer, .startWrite cell.val, 0, 0⟩]) sent sentBuf idx t log conns)
        ⟨⟨writerIn, buf, hs ++ [⟨.writer, .load cell.val, 1, 0⟩], sent, sentBuf⟩,
          ⟨idx, [t], log⟩, conns⟩ :=
      leads_run (by simp [Seats.run, startWrite_free, Seats.State.lock])
    Leads _ ⟨⟨writerIn, buf, hs ++ [⟨.writer, .store cell.val cell (buf cell), 1, 0⟩], sent,
        sentBuf⟩, ⟨idx, [t], log⟩, conns⟩ :=
      leads_run (by simp [Seats.run, hin, Seats.State.goto])
    Leads _ ⟨⟨writerIn, Function.update buf cell '-',
        hs ++ [⟨.writer, .send cell.val (.symbol (buf cell)), 1, 0⟩], sent, sentBuf⟩,
        ⟨idx, [t], log⟩, conns⟩ :=
      leads_run (by simp [Seats.run, hfree, Seats.State.goto])
    Leads _ ⟨⟨writerIn, Function.update buf cell '-', hs ++ [⟨.writer, .stopWrite, 1, 0⟩],
        sent ++ [(hs.length, .symbol (buf cell))], sentBuf⟩, ⟨idx, [t], log⟩, conns⟩ :=
      leads_run (by simp [Seats.run, hin, Seats.State.goto])
    Leads _ (shop (Function.update buf cell '-') (hs ++ [⟨.writer, .done, 1, 1⟩])
        (sent ++ [(hs.length, .symbol (buf cell))]) sentBuf idx t log conns) :=
      leads_run (by simp [Seats.run, stopWrite_free, Seats.State.unlock])

theorem tests_log (ht : s.client.threads = [t]) (hp : t.phase = .logTest) :
    ∃ s', Leads s s' ∧ s'.server = s.server ∧
      s'.client.threads = [{ t with phase := .connect }] ∧ s'.conns = s.conns := by
  have hwhole : s.WholeSnapshot (.client (.run 0)) := by
    intro j u received he hu hphase
    obtain rfl : 0 = j := by simpa using he
    obtain rfl : t = u := by simpa [ht] using hu
    rw [hp] at hphase
    cases hphase
  obtain ⟨client, hclient, hthreads⟩ : ∃ client, SeatClient.step s.client (.run 0) = some client ∧
      client.threads = [{ t with phase := .connect }] := by
    simp only [SeatClient.step, ht, List.getElem?_cons_zero, Option.bind_eq_bind,
      Option.bind_some, hp]
    split_ifs
    · exact ⟨_, rfl, by simp [State.goto, ht]⟩
    · exact ⟨_, rfl, by simp [State.goto, ht]⟩
  have hstep : step s (.client (.run 0)) = some ⟨s.server, client, s.conns⟩ := by
    simp [step, clientAllows, hclient, connsAfter]
  exact ⟨_, leads_step hwhole hstep, rfl, hthreads, rfl⟩

theorem Leads.hangs_up {s₀ : System} (h : Leads s₀ s) (ht : s.client.threads = [t])
    (hp : t.phase = .recvResult) {ch : Char} (hmem : (t.sockFd, .symbol ch) ∈ s.server.sent) :
    ∃ s', Leads s₀ s' ∧ s'.server = s.server ∧
      (∃ rb, s'.client.threads = [⟨.connect, t.sockFd, rb⟩]) ∧
        s'.conns.length = s.conns.length := by
  have hallow : s.clientAllows (.recv 0 (some [ch])) := by
    refine ⟨t, by simp [ht], ?_⟩
    rw [Receives, hp]
    exact .inl ⟨by simp, _, hmem, rfl, by simp [replyBytes]⟩
  let t' : Thread := ⟨.logTest, t.sockFd, overwrite t.resultBuffer [ch]⟩
  have hrecv : step s (.client (.recv 0 (some [ch]))) = some
      ⟨s.server, { s.client with threads := [t'] }, s.connsAfter (.recv 0 (some [ch]))⟩ := by
    simp [step, hallow, SeatClient.step, ht, hp, t']
  have hconns : (s.connsAfter (.recv 0 (some [ch]))).length = s.conns.length := by
    simp [connsAfter, ht, hp]
  obtain ⟨s', hs', hserver, hthread, hsame⟩ := tests_log (t := t')
    (s := ⟨s.server, { s.client with threads := [t'] }, s.connsAfter (.recv 0 (some [ch]))⟩) rfl rfl
  have hreceived := h.trans (leads_step (wholeSnapshot_of_ne (by simp) s) hrecv)
  exact ⟨s', hreceived.trans hs', hserver, ⟨_, hthread⟩, hsame ▸ hconns⟩

/-! ### Until all are sold -/

theorem shmInit_ne_sold : ∀ cell, shmInit cell ≠ '-' := by decide +kernel

/-- The buffer with the first `n` seats sold. -/
def soldBefore (n : ℕ) : Cells := fun cell => if cell.val < n then '-' else shmInit cell

theorem soldBefore_ne_nul (n : ℕ) (cell : Fin Seats.SHM_BUFFER_SIZE) :
    soldBefore n cell ≠ Char.ofNat 0 := by
  unfold soldBefore
  split_ifs
  · decide
  · exact Seats.shmInit_ne_nul cell

theorem update_soldBefore (cell : Fin Seats.SHM_BUFFER_SIZE) :
    Function.update (soldBefore cell.val) cell '-' = soldBefore (cell.val + 1) := by
  funext c
  by_cases hc : c = cell
  · simp [hc, soldBefore]
  · have hne : c.val ≠ cell.val := fun h => hc (Fin.ext h)
    have hlt : c.val < cell.val + 1 ↔ c.val < cell.val := by omega
    simp [Function.update_of_ne hc, soldBefore, hlt]

theorem cString_ofFn (hnul : ∀ cell, buf cell ≠ Char.ofNat 0) :
    cString (bufferOf (List.ofFn buf)) = List.ofFn buf := by
  have hmem : NUL ∉ List.ofFn buf := by
    rw [List.mem_ofFn]
    rintro ⟨cell, hcell⟩
    exact hnul cell hcell
  have hlen : (List.ofFn buf).length ≤ SHM_BUFFER_SIZE := List.length_ofFn.le
  exact (cString_bufferOf hlen).trans (cString_of_notMem hmem)

theorem first_soldBefore (cell : Fin Seats.SHM_BUFFER_SIZE) :
    findFirstUnoccupiedIndex (bufferOf (List.ofFn (soldBefore cell.val))) = cell.val := by
  rw [findFirstUnoccupiedIndex, cString_ofFn (soldBefore_ne_nul _)]
  have hfind : (List.ofFn (soldBefore cell.val)).findIdx? (letters.contains ·) = some cell.val := by
    rw [List.findIdx?_eq_some_iff_getElem]
    refine ⟨by simp, ?_, ?_⟩
    · rw [List.getElem_ofFn]
      simpa [soldBefore] using letter_shmInit cell
    · intro j hj
      rw [List.getElem_ofFn]
      simp [soldBefore, hj]
      decide
  rw [hfind]

theorem first_soldOut :
    findFirstUnoccupiedIndex (bufferOf (List.ofFn (soldBefore Seats.SHM_BUFFER_SIZE))) = -1 := by
  decide +kernel

/-- The server is idle, and the client about to connect. -/
structure Rests (n : ℕ) (s : System) : Prop where
  sem : s.server.sem = fun _ => 0
  shmBuf : s.server.shmBuf = soldBefore n
  thread : ∃ fd rb, s.client.threads = [⟨.connect, fd, rb⟩]
  length : s.server.handlers.length = s.conns.length

theorem Rests.eq_shop {n : ℕ} (h : Rests n s) : ∃ hs sent sentBuf idx fd rb log conns,
    hs.length = conns.length ∧
      s = shop (soldBefore n) hs sent sentBuf idx ⟨.connect, fd, rb⟩ log conns := by
  obtain ⟨⟨sem, buf, hs, sent, sentBuf⟩, ⟨idx, threads, log⟩, conns⟩ := s
  obtain ⟨rfl, rfl, ⟨fd, rb, rfl⟩, hlen⟩ := h
  exact ⟨hs, sent, sentBuf, idx, fd, rb, log, conns, hlen, rfl⟩

/-- In its turn the client gets the first seat that is left. -/
theorem turn (cell : Fin Seats.SHM_BUFFER_SIZE) (h : Rests cell.val s) :
    ∃ s', Leads s s' ∧ Rests (cell.val + 1) s' := by
  obtain ⟨hs, sent, sentBuf, idx, fd, rb, log, conns, hlen, rfl⟩ := h.eq_shop
  have hread : Leads
      (shop (soldBefore cell.val) hs sent sentBuf idx ⟨.connect, fd, rb⟩ log conns) _ :=
    takes_snapshot hlen (soldBefore_ne_nul _)
  have hseat : (Int8.ofInt cell.val).toInt = cell.val := by
    have hlt : cell.val < 52 := cell.isLt
    rw [Int8.toInt_ofInt_of_le] <;> omega
  have hfree : soldBefore cell.val cell ≠ '-' := by
    simpa [soldBefore] using shmInit_ne_sold cell
  rw [first_soldBefore, hlen] at hread
  have hask := (hread.trans reconnects).trans (asks_writer (by simp [hlen]) (by simp [hlen]))
  rw [hseat] at hask
  have hsold := hask.trans (sells hfree)
  obtain ⟨s', hs', hserver, hthread, hconns⟩ := hsold.hangs_up rfl rfl List.mem_concat_self
  refine ⟨s', hs', ?_, ?_, ⟨_, hthread⟩, ?_⟩
  · rw [hserver]
    rfl
  · rw [hserver]
    exact update_soldBefore cell
  · rw [hserver, hconns]
    simp [shop, hlen]

theorem rests_spawn : ∃ s, Leads init s ∧ Rests 0 s := by
  refine ⟨_, leads_step (e := .client (.spawn [])) (wholeSnapshot_of_ne (by simp) _) rfl, ?_⟩
  exact ⟨rfl, rfl, ⟨_, _, rfl⟩, rfl⟩

/-- One client alone buys seat after seat. -/
theorem rests {n : ℕ} (hn : n ≤ Seats.SHM_BUFFER_SIZE) : ∃ s, Leads init s ∧ Rests n s := by
  induction n with
  | zero => exact rests_spawn
  | succ n ih =>
    obtain ⟨s, hs, hrest⟩ := ih (Nat.le_of_succ_le hn)
    obtain ⟨s', hturn, hrest'⟩ := turn ⟨n, hn⟩ hrest
    exact ⟨s', hs.trans hturn, hrest'⟩

/-- Then it sends -1. -/
theorem asks_for_none : ∃ s s', Leads init s ∧ s.SendsMinusOne (.client (.send 0 true)) ∧
    step s (.client (.send 0 true)) = some s' := by
  obtain ⟨s, hs, hrest⟩ := rests le_rfl
  obtain ⟨hs', sent, sentBuf, idx, fd, rb, log, conns, hlen, rfl⟩ := hrest.eq_shop
  have hread := hs.trans (takes_snapshot hlen (soldBefore_ne_nul _))
  rw [first_soldOut] at hread
  exact ⟨_, _, hread.trans reconnects, ⟨0, _, rfl, rfl, rfl, rfl⟩, rfl⟩

end OsLabs.SeatClient.System
