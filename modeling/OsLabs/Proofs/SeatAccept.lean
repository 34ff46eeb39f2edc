import OsLabs.Spec.SeatAccept

/-! Whose connections the handlers of the seat servers use. -/

namespace OsLabs.Seats

open SelectServer (File)

theorem filesAtStart_conn {serverSockFd : ℕ} {inherited : ℕ → Bool} {fd i : ℕ} :
    filesAtStart serverSockFd inherited fd ≠ .conn i := by
  unfold filesAtStart
  split_ifs <;> simp

theorem filesAtStart_listening {serverSockFd : ℕ} {inherited : ℕ → Bool} {fd : ℕ}
    (h : filesAtStart serverSockFd inherited fd = .listening) : fd = serverSockFd := by
  unfold filesAtStart at h
  split_ifs at h with heq
  exact heq

theorem filesAtStart_server {serverSockFd : ℕ} {inherited : ℕ → Bool} :
    filesAtStart serverSockFd inherited serverSockFd = .listening := if_pos rfl

/-- A descriptor that is closed or a connection now is not the listening socket. -/
theorem update_listening {files : ℕ → File} {fd fd' : ℕ} {file : File} (hne : file ≠ .listening)
    (h : Function.update files fd file fd' = .listening) : files fd' = .listening := by
  rw [Function.update_apply] at h
  split_ifs at h
  · exact absurd h hne
  · exact h

/-- To close the listening socket closes no connection. -/
theorem close_server {files : ℕ → File} {serverSockFd : ℕ}
    (h : files serverSockFd = .listening ∨ files serverSockFd = .closed) {fd i : ℕ} :
    Function.update files serverSockFd .closed fd = .conn i ↔ files fd = .conn i := by
  rw [Function.update_apply]
  split_ifs with hfd
  · rw [hfd]
    rcases h with h | h <;> simp [h]
  · rfl

namespace Forked

variable {serverSockFd : ℕ} {inherited : ℕ → Bool} {s s' : State} {e : Event}
  {tr : List (State × Event)} {k : ℕ} {c : Child}

/-- Whether the parent has a connection without a child. -/
def Pc.unforked : Pc → ℕ
  | .setsockopt _ | .fork _ => 1
  | .top | .accept | .close _ | .ended | .exited => 0

/-- A child has its own connection until it exits and nobody else's, and its copy of the
listening socket until it closes that or gets the signal. -/
structure Child.Ok (serverSockFd : ℕ) (listening : Bool) (k : ℕ) (c : Child) : Prop where
  own : ∀ fd i, c.files fd = .conn i → i = k ∧ c.phase ≠ .exited
  conn : c.phase ≠ .exited → c.files c.clientSockFd = .conn k
  server : c.files serverSockFd = .listening ∨ c.files serverSockFd = .closed
  closed : c.phase ≠ .closeServer → c.files serverSockFd = .closed
  copy : listening = true → c.phase = .closeServer → c.files serverSockFd = .listening
  only : ∀ fd, c.files fd = .listening → fd = serverSockFd

structure Inv (s : State) : Prop where
  conns : ∀ fd i, s.files fd = .conn i → s.pc.current = some fd ∧ i + 1 = s.accepted
  current : ∀ fd, s.pc.current = some fd → ∃ i, s.files fd = .conn i
  count : s.pc ≠ .exited → s.children.length + s.pc.unforked = s.accepted
  server : s.files s.serverSockFd = .listening ∨ s.files s.serverSockFd = .closed
  own : s.listening = true → s.pc ≠ .exited → s.files s.serverSockFd = .listening
  child : ∀ (k : ℕ) (c : Child), s.children[k]? = some c → c.Ok s.serverSockFd s.listening k
  io : ∀ k file, (k, file) ∈ s.io → file = .conn k
  only : ∀ fd, s.files fd = .listening → fd = s.serverSockFd ∧ s.pc ≠ .exited

theorem inv_init : Inv (init serverSockFd inherited) where
  conns fd i h := absurd h filesAtStart_conn
  current fd h := by cases h
  count _ := rfl
  server := .inl filesAtStart_server
  own _ _ := filesAtStart_server
  child k c h := by cases h
  io k file h := by cases h
  only fd h := ⟨filesAtStart_listening h, by simp [init]⟩

/-- The child closes its copy of the listening socket, in its own time or in the handler. -/
theorem Child.Ok.close {listening listening' : Bool} {ph : Phase}
    (h : c.Ok serverSockFd listening k) (hex : ph = .exited ↔ c.phase = .exited)
    (hl : listening' = true → ph ≠ .closeServer) :
    Child.Ok serverSockFd listening' k
      { c with files := Function.update c.files serverSockFd .closed, phase := ph } := by
  constructor
  case own =>
    intro fd i hfd
    obtain ⟨hi, hlive⟩ := h.own fd i ((close_server h.server).1 hfd)
    exact ⟨hi, fun hp => hlive (hex.1 hp)⟩
  case conn =>
    intro hlive
    exact (close_server h.server).2 (h.conn fun hp => hlive (hex.2 hp))
  case server => exact .inr (Function.update_self ..)
  case closed => exact fun _ => Function.update_self ..
  case copy => exact fun hl' hp => absurd hp (hl hl')
  case only => exact fun fd hfd => h.only fd (update_listening (by simp) hfd)

/-- The signal in a child. -/
theorem Child.Ok.signal {listening : Bool} (h : c.Ok serverSockFd listening k) :
    Child.Ok serverSockFd (sigHandler serverSockFd listening c.files).1 k
      { c with files := (sigHandler serverSockFd listening c.files).2 } := by
  apply h.close Iff.rfl
  intro hl hp
  rw [sigHandler, Bool.and_eq_true, decide_eq_true_eq] at hl
  exact hl.2 (h.copy hl.1 hp)

theorem Child.Ok.exit {listening : Bool} :
    Child.Ok serverSockFd listening k { c with files := fun _ => .closed, phase := .exited } :=
  ⟨fun _ _ h => (by cases h), fun h => absurd rfl h, .inr rfl, fun _ => rfl, fun _ h => (by cases h),
    fun _ h => (by cases h)⟩

theorem Inv.set (hI : Inv s) {c' : Child} {listening : Bool} (hl : listening = true → s.listening = true)
    (hc : c'.Ok s.serverSockFd listening k) :
    Inv { s with listening, children := s.children.set k c' } := by
  constructor
  case conns => exact hI.conns
  case current => exact hI.current
  case count =>
    intro hp
    rw [List.length_set]
    exact hI.count hp
  case server => exact hI.server
  case own => exact fun h hp => hI.own (hl h) hp
  case child =>
    apply forall_set _ hc
    intro j d hd
    have hok := hI.child j d hd
    exact ⟨hok.own, hok.conn, hok.server, hok.closed, fun h => hok.copy (hl h), hok.only⟩
  case io => exact hI.io
  case only => exact hI.only

theorem Inv.exit (hI : Inv s) : Inv s.exit where
  conns fd i h := by cases h
  current fd h := by cases h
  count h := absurd rfl h
  server := .inr rfl
  own _ h := absurd rfl h
  child := hI.child
  io := hI.io
  only _ h := by cases h

theorem Inv.goto (hI : Inv s) {pc : Pc} (hcur : pc.current = s.pc.current)
    (hun : pc.unforked = s.pc.unforked) (hp : s.pc ≠ .exited) (hp' : pc ≠ .exited) :
    Inv { s with pc } where
  conns fd i h := by
    rw [hcur]
    exact hI.conns fd i h
  current fd h := hI.current fd (hcur ▸ h)
  count _ := by
    rw [hun]
    exact hI.count hp
  server := hI.server
  own h _ := hI.own h hp
  child := hI.child
  io := hI.io
  only fd h := ⟨(hI.only fd h).1, hp'⟩

theorem sigHandler_le {listening : Bool} {files : ℕ → File}
    (h : (sigHandler serverSockFd listening files).1 = true) : listening = true := by
  rw [sigHandler, Bool.and_eq_true] at h
  exact h.1

theorem Inv.connect {fd : ℕ} (hI : Inv s) (hp : s.pc = .accept)
    (hserver : s.files s.serverSockFd = .listening) (hfree : LowestFree s.files fd) :
    Inv { s with
      pc := .setsockopt fd
      files := Function.update s.files fd (.conn s.accepted)
      accepted := s.accepted + 1 } := by
  have hne : s.serverSockFd ≠ fd := by
    rintro rfl
    cases hserver.symm.trans hfree.1
  have hsame : Function.update s.files fd (.conn s.accepted) s.serverSockFd = .listening := by
    rw [Function.update_of_ne hne, hserver]
  have hnone : ∀ fd i, s.files fd ≠ .conn i := by
    intro fd' i h
    have hcur := (hI.conns fd' i h).1
    rw [hp] at hcur
    cases hcur
  constructor
  case conns =>
    intro fd' i h
    dsimp only at h
    rw [Function.update_apply] at h
    split_ifs at h with heq
    · obtain rfl := File.conn.inj h
      exact ⟨by rw [heq]; rfl, rfl⟩
    · exact absurd h (hnone fd' i)
  case current =>
    intro fd' h
    obtain rfl := Option.some.inj h
    exact ⟨s.accepted, Function.update_self ..⟩
  case count =>
    intro _
    have hcount := hI.count (by simp [hp])
    rw [hp] at hcount
    exact congrArg Nat.succ hcount
  case server => exact .inl hsame
  case own => exact fun _ _ => hsame
  case child => exact hI.child
  case io => exact hI.io
  case only => exact fun fd' h => ⟨(hI.only fd' (update_listening (by simp) h)).1, by simp⟩

theorem Inv.fork {fd : ℕ} (hI : Inv s) (hp : s.pc = .fork fd) :
    Inv { s with pc := .close fd, children := s.children ++ [⟨s.files, fd, .closeServer⟩] } := by
  have hcount := hI.count (by simp [hp])
  rw [hp] at hcount
  have hconn : ∀ fd' i, s.files fd' = .conn i → i = s.children.length := by
    intro fd' i h
    have := (hI.conns fd' i h).2
    simp only [Pc.unforked] at hcount
    omega
  constructor
  case conns =>
    intro fd' i h
    have hc := hI.conns fd' i h
    rw [hp] at hc
    exact hc
  case current =>
    intro fd' h
    apply hI.current fd'
    rw [hp]
    exact h
  case count =>
    intro _
    rw [List.length_append]
    exact hcount
  case server => exact hI.server
  case own => exact fun h _ => hI.own h (by simp [hp])
  case child =>
    intro k c hk
    rw [List.getElem?_append] at hk
    split_ifs at hk with hlt
    · exact hI.child k c hk
    · obtain ⟨hk0, rfl⟩ : k - s.children.length = 0 ∧ _ = c := by
        simpa [List.getElem?_singleton] using hk
      obtain rfl : k = s.children.length := by omega
      obtain ⟨i, hi⟩ := hI.current fd (by rw [hp]; rfl)
      constructor
      case own => exact fun fd' i h => ⟨hconn fd' i h, by simp⟩
      case conn =>
        intro _
        rw [← hconn fd i hi]
        exact hi
      case server => exact hI.server
      case closed => exact fun h => absurd rfl h
      case copy => exact fun h _ => hI.own h (by simp [hp])
      case only => exact fun fd' h => (hI.only fd' h).1
  case io => exact hI.io
  case only => exact fun fd' h => ⟨(hI.only fd' h).1, by simp⟩

theorem Inv.close {fd : ℕ} (hI : Inv s) (hp : s.pc = .close fd) :
    Inv { s with pc := .top, files := Function.update s.files fd .closed } := by
  obtain ⟨j, hj⟩ := hI.current fd (by rw [hp]; rfl)
  have hne : s.serverSockFd ≠ fd := by
    rintro rfl
    rcases hI.server with h | h <;> rw [h] at hj <;> cases hj
  have hsame : Function.update s.files fd .closed s.serverSockFd = s.files s.serverSockFd :=
    Function.update_of_ne hne ..
  constructor
  case conns =>
    intro fd' i h
    dsimp only at h
    rw [Function.update_apply] at h
    split_ifs at h with heq
    have hcur := (hI.conns fd' i h).1
    rw [hp] at hcur
    exact absurd (Option.some.inj hcur).symm heq
  case current => exact fun fd' h => by cases h
  case count =>
    intro _
    have hcount := hI.count (by simp [hp])
    rw [hp] at hcount
    exact hcount
  case server => exact hI.server.imp hsame.trans hsame.trans
  case own => exact fun h _ => hsame.trans (hI.own h (by simp [hp]))
  case child => exact hI.child
  case io => exact hI.io
  case only => exact fun fd' h => ⟨(hI.only fd' (update_listening (by simp) h)).1, by simp⟩

theorem Inv.sigint (hI : Inv s) : Inv { s with
    listening := (sigHandler s.serverSockFd s.listening s.files).1
    files := (sigHandler s.serverSockFd s.listening s.files).2
    loopFlag := false } := by
  constructor
  case conns => exact fun fd i h => hI.conns fd i ((close_server hI.server).1 h)
  case current =>
    intro fd h
    obtain ⟨i, hi⟩ := hI.current fd h
    exact ⟨i, (close_server hI.server).2 hi⟩
  case count => exact hI.count
  case server => exact .inr (Function.update_self ..)
  case own =>
    intro h hp
    rw [sigHandler, Bool.and_eq_true, decide_eq_true_eq] at h
    exact absurd (hI.own h.1 hp) h.2
  case child =>
    intro k c hk
    have hok := hI.child k c hk
    exact ⟨hok.own, hok.conn, hok.server, hok.closed, fun h => hok.copy (sigHandler_le h), hok.only⟩
  case io => exact hI.io
  case only => exact fun fd h => hI.only fd (update_listening (by simp) h)

/-- All that a step can do. Only a signal touches the socket itself. -/
inductive Move (s : State) : Event → State → Prop
  | goto {e : Event} {pc : Pc} (hcur : pc.current = s.pc.current)
      (hun : pc.unforked = s.pc.unforked) (hp : s.pc ≠ .exited) (hp' : pc ≠ .exited)
      (hspares : Spares s e) : Move s e { s with pc }
  | connect {fd : ℕ} (hp : s.pc = .accept) (hserver : s.files s.serverSockFd = .listening)
      (hfree : LowestFree s.files fd) : Move s (.accept (some fd)) { s with
        pc := .setsockopt fd
        files := Function.update s.files fd (.conn s.accepted)
        accepted := s.accepted + 1 }
  | fork {fd : ℕ} (hp : s.pc = .fork fd) : Move s (.fork true) { s with
        pc := .close fd, children := s.children ++ [⟨s.files, fd, .closeServer⟩] }
  | close {fd : ℕ} (hp : s.pc = .close fd) :
      Move s .close { s with pc := .top, files := Function.update s.files fd .closed }
  | exit {e : Event} (hspares : Spares s e) : Move s e s.exit
  | closeServer {k : ℕ} {c : Child} (hk : s.children[k]? = some c) (hp : c.phase = .closeServer) :
      Move s (.closeServer k) (s.setChild k
        { c with files := Function.update c.files s.serverSockFd .closed, phase := .serve })
  | io {k : ℕ} {c : Child} (hk : s.children[k]? = some c) (hp : c.phase = .serve) :
      Move s (.io k) { s with io := s.io ++ [(k, c.files c.clientSockFd)] }
  | exitChild {k : ℕ} {c : Child} (hk : s.children[k]? = some c) :
      Move s (.exit k) (s.setChild k { c with files := fun _ => .closed, phase := .exited })
  | badIndex {k : ℕ} {c : Child} (hk : s.children[k]? = some c) (hp : c.phase = .serve) :
      Move s (.badIndex k) (s.signal k c)
  | signal {k : ℕ} {c : Child} (hk : s.children[k]? = some c) :
      Move s (.sigint (some k)) (s.signal k c)
  | sigint (hp : s.pc ≠ .exited) : Move s (.sigint none) { s with
        listening := (sigHandler s.serverSockFd s.listening s.files).1
        files := (sigHandler s.serverSockFd s.listening s.files).2
        loopFlag := false }

theorem move_of_step (h : step s e = some s') : Move s e s' := by
  cases e with
  | test =>
    simp only [step] at h
    split_ifs at h with hp
    all_goals
      obtain rfl := Option.some.inj h
      exact .goto (by rw [hp]; rfl) (by rw [hp]; rfl) (by simp [hp]) (by simp) trivial
  | accept clientSockFd =>
    cases clientSockFd with
    | none =>
      simp only [step] at h
      split_ifs at h with hp
      obtain rfl := Option.some.inj h
      exact .goto (by rw [hp]; rfl) (by rw [hp]; rfl) (by simp [hp]) (by simp) trivial
    | some fd =>
      simp only [step] at h
      split_ifs at h with hp
      obtain rfl := Option.some.inj h
      exact .connect hp.1 hp.2.1 hp.2.2.2
  | setsockopt ok =>
    simp only [step] at h
    split at h
    · rename_i fd hp
      obtain rfl := Option.some.inj h
      split_ifs
      · exact .goto (by rw [hp]; rfl) (by rw [hp]; rfl) (by simp [hp]) (by simp) trivial
      · exact .exit trivial
    · cases h
  | fork ok =>
    simp only [step] at h
    split at h
    · rename_i fd hp
      obtain rfl := Option.some.inj h
      cases ok with
      | true => exact .fork hp
      | false => exact .exit trivial
    · cases h
  | close =>
    simp only [step] at h
    split at h
    · rename_i fd hp
      obtain rfl := Option.some.inj h
      exact .close hp
    · cases h
  | leave =>
    simp only [step] at h
    split_ifs at h
    obtain rfl := Option.some.inj h
    exact .exit trivial
  | closeServer k =>
    obtain ⟨c, hk, h⟩ := Option.bind_eq_some_iff.1 h
    split_ifs at h with hp
    obtain rfl := Option.some.inj h
    exact .closeServer hk hp
  | io k =>
    obtain ⟨c, hk, h⟩ := Option.bind_eq_some_iff.1 h
    split_ifs at h with hp
    obtain rfl := Option.some.inj h
    exact .io hk hp
  | badIndex k =>
    obtain ⟨c, hk, h⟩ := Option.bind_eq_some_iff.1 h
    split_ifs at h with hp
    obtain rfl := Option.some.inj h
    exact .badIndex hk hp
  | exit k =>
    obtain ⟨c, hk, h⟩ := Option.bind_eq_some_iff.1 h
    split_ifs at h with hp
    obtain rfl := Option.some.inj h
    exact .exitChild hk
  | sigint who =>
    cases who with
    | none =>
      simp only [step] at h
      split_ifs at h with hp
      obtain rfl := Option.some.inj h
      exact .sigint hp
    | some k =>
      obtain ⟨c, hk, h⟩ := Option.bind_eq_some_iff.1 h
      split_ifs at h with hp
      obtain rfl := Option.some.inj h
      exact .signal hk

theorem inv_step (hI : Inv s) (h : step s e = some s') : Inv s' := by
  cases move_of_step h with
  | goto hcur hun hp hp' => exact hI.goto hcur hun hp hp'
  | connect hp hserver hfree => exact hI.connect hp hserver hfree
  | fork hp => exact hI.fork hp
  | close hp => exact hI.close hp
  | exit => exact hI.exit
  | closeServer hk hp =>
    apply hI.set id
    apply (hI.child _ _ hk).close
    · simp [hp]
    · simp
  | io hk hp =>
    have hconn := (hI.child _ _ hk).conn (by simp [hp])
    refine ⟨hI.conns, hI.current, hI.count, hI.server, hI.own, hI.child, ?_, hI.only⟩
    intro j file hmem
    rcases List.mem_append.1 hmem with hmem | hmem
    · exact hI.io j file hmem
    · obtain ⟨rfl, rfl⟩ := Prod.mk.inj (List.mem_singleton.1 hmem)
      exact hconn
  | exitChild => exact hI.set id Child.Ok.exit
  | badIndex hk | signal hk => exact hI.set sigHandler_le (hI.child _ _ hk).signal
  | sigint => exact hI.sigint

/-- What the signal in a child means for the socket. -/
theorem signal_listening (hI : Inv s) (hk : s.children[k]? = some c) :
    (s.signal k c).listening = true ↔
      s.listening = true ∧ ∀ c', s.children[k]? = some c' → c'.phase ≠ .closeServer := by
  have hok := hI.child k c hk
  have hone : (∀ c', s.children[k]? = some c' → c'.phase ≠ .closeServer) ↔
      c.phase ≠ .closeServer := by
    rw [hk]
    simp
  rw [hone]
  simp only [State.signal, sigHandler, Bool.and_eq_true, decide_eq_true_eq]
  apply and_congr_right
  intro hl
  constructor
  · intro hnot hp
    exact hnot (hok.copy hl hp)
  · intro hp
    rw [hok.closed hp]
    simp

theorem listening_step (hI : Inv s) (h : step s e = some s') :
    s'.listening = true ↔ s.listening = true ∧ Spares s e := by
  cases move_of_step h with
  | goto _ _ _ _ hspares | exit hspares => exact (and_iff_left hspares).symm
  | connect | fork | close | closeServer | io | exitChild => exact (and_iff_left trivial).symm
  | badIndex hk hp =>
    -- a child that serves has closed its copy
    rw [signal_listening hI hk, hk]
    simp [hp, Spares]
  | signal hk => exact signal_listening hI hk
  | sigint hp =>
    refine iff_of_false ?_ (fun h => h.2)
    intro hl
    simp only [sigHandler, Bool.and_eq_true, decide_eq_true_eq] at hl
    exact hl.2 (hI.own hl.1 hp)

theorem inv_run (h : Run step (init serverSockFd inherited) tr s) : Inv s :=
  h.invariant inv_init fun _ _ _ hi he => inv_step hi he

theorem listening_run (h : Run step (init serverSockFd inherited) tr s) :
    s.listening = true ↔ EachStep Spares tr := by
  induction h with
  | nil => exact iff_of_true rfl eachStep_nil
  | snoc hr he ih => rw [listening_step (inv_run hr) he, ih, eachStep_snoc]

/-- Who has the listening socket open while it has not been shut down: the parent until it exits,
and a child until it closes its copy. -/
theorem Inv.holds_listening (hI : Inv s) (hl : s.listening = true) :
    (∃ who, s.Holds .listening who) ↔
      s.pc ≠ .exited ∨ ∃ c ∈ s.children, c.phase = .closeServer := by
  constructor
  · rintro ⟨_ | k, h⟩
    · obtain ⟨fd, hfd⟩ := h
      exact .inl (hI.only fd hfd).2
    · obtain ⟨c, fd, hk, hfd⟩ := h
      have hok := hI.child k c hk
      refine .inr ⟨c, List.mem_of_getElem? hk, ?_⟩
      by_contra hp
      obtain rfl := hok.only fd hfd
      rw [hok.closed hp] at hfd
      cases hfd
  · rintro (hp | ⟨c, hmem, hp⟩)
    · exact ⟨none, s.serverSockFd, hI.own hl hp⟩
    · obtain ⟨k, hk⟩ := List.mem_iff_getElem?.1 hmem
      exact ⟨some k, c, s.serverSockFd, hk, (hI.child k c hk).copy hl hp⟩

/-- A child uses its own connection only, and when the parent is back at the head of its loop
or behind it the child alone has that open, until it exits. The socket listens just as long as
no signal has come to the parent or to a child with its copy still open, and the parent or such
a child is left; an index out of range is no such signal. -/
theorem connections_apart (h : Run step (init serverSockFd inherited) tr s) :
    (∀ k file, (k, file) ∈ s.io → file = .conn k) ∧
      (s.pc.current = none → ∀ i who, s.Holds (.conn i) who ↔
        who = some i ∧ ∃ c, s.children[i]? = some c ∧ c.phase ≠ .exited) ∧
      (s.Listens ↔ EachStep Spares tr ∧
        (s.pc ≠ .exited ∨ ∃ c ∈ s.children, c.phase = .closeServer)) := by
  have hI := inv_run h
  refine ⟨hI.io, ?_, ?_⟩
  · intro hnone i who
    cases who with
    | none =>
      refine iff_of_false ?_ (fun h => by cases h.1)
      rintro ⟨fd, hfd⟩
      have hcur := (hI.conns fd i hfd).1
      rw [hnone] at hcur
      cases hcur
    | some k =>
      constructor
      · rintro ⟨c, fd, hk, hfd⟩
        obtain ⟨rfl, hlive⟩ := (hI.child k c hk).own fd i hfd
        exact ⟨rfl, c, hk, hlive⟩
      · rintro ⟨heq, c, hk, hlive⟩
        obtain rfl := Option.some.inj heq
        exact ⟨c, c.clientSockFd, hk, (hI.child k c hk).conn hlive⟩
  · rw [State.Listens, ← listening_run h]
    exact and_congr_right hI.holds_listening

/-- A client with an index out of range, and one whose child gets the signal too early. -/
def badIndexThere : List Event :=
  [.test, .accept (some 4), .setsockopt true, .fork true, .close, .closeServer 0, .badIndex 0, .io 0,
    .test, .accept (some 4), .setsockopt true, .fork true, .close]

theorem connections_apart_badIndexThere :
    ((exec step (init 3 (· < 3)) badIndexThere).get (by decide)).Listens ∧
      ¬ ((exec step (init 3 (· < 3)) (badIndexThere ++ [.sigint (some 1)])).get
        (by decide)).Listens := by
  have hrun : Run step _ (trace step (init 3 (· < 3)) badIndexThere) _ :=
    run_of_isSome _ _ (by decide)
  have hspared : EachStep Spares (trace step (init 3 (· < 3)) badIndexThere) :=
    (listening_run hrun).1 (by decide)
  refine ⟨(connections_apart hrun).2.2.2 ⟨hspared, .inl (by decide)⟩, ?_⟩
  intro hlistens
  exact absurd hlistens.1 (by decide)

end Forked

namespace Threaded

variable {serverSockFd : ℕ} {inherited : ℕ → Bool} {s s' : State} {e : Event}
  {tr : List (State × Event)} {k : ℕ} {t : Thread}

/-- Whether `main` has a connection without a thread. -/
def Pc.pending : Pc → ℕ
  | .create _ | .close _ => 1
  | .top | .accept _ | .ended | .exited => 0

/-- A block is handed over with the descriptor in it. -/
def Thread.Ok (blocks : List Block) (files : ℕ → File) (k : ℕ) (t : Thread) : Prop :=
  match t.phase with
  | .load => ∃ fd, blocks[t.arg]? = some (.holds fd) ∧ files fd = .conn k
  | .free => blocks[t.arg]? = some (.holds t.clientSockFd) ∧ files t.clientSockFd = .conn k
  | .serve => files t.clientSockFd = .conn k
  | .exited => True

/-- The same for `main`. -/
def Pc.Ok (blocks : List Block) (files : ℕ → File) (k : ℕ) : Pc → Prop
  | .accept b => blocks[b]? = some .unset
  | .create b => ∃ fd, blocks[b]? = some (.holds fd) ∧ files fd = .conn k
  | .close _ => ∃ fd, files fd = .conn k
  | .top | .ended | .exited => True

/-- The invariant while no `pthread_create` fails. -/
structure Inv (s : State) : Prop where
  server : s.files s.serverSockFd = .listening ∨ s.files s.serverSockFd = .closed
  count : s.threads.length + s.pc.pending = s.accepted
  main : s.pc.Ok s.blocks s.files s.threads.length
  thread : ∀ (k : ℕ) (t : Thread), s.threads[k]? = some t → t.Ok s.blocks s.files k
  served : ∀ fd i, s.files fd = .conn i → s.Served i
  unique : ∀ fd fd' i, s.files fd = .conn i → s.files fd' = .conn i → fd = fd'
  inUse : ∀ (b : ℕ) (x : Block), s.blocks[b]? = some x → x ≠ .freed → s.InUse b
  acts : ∀ a ∈ s.acts, a.Sound
  once : ∀ k, s.acts.count (.close (some k) (.conn k)) =
    if s.threads[k]?.any fun t => t.phase = .exited then 1 else 0

theorem inv_init : Inv (init serverSockFd inherited) where
  server := .inl filesAtStart_server
  count := rfl
  main := trivial
  thread k t h := by cases h
  served fd i h := absurd h filesAtStart_conn
  unique fd fd' i h := absurd h filesAtStart_conn
  inUse b x h := by cases h
  acts a h := by cases h
  once k := rfl

structure Kept (s s' : State) (k : ℕ) : Prop where
  files : ∀ fd, s.files fd = .conn k → s'.files fd = .conn k
  holds : ∀ (b fd : ℕ), s.blocks[b]? = some (.holds fd) → s.files fd = .conn k →
    s'.blocks[b]? = some (.holds fd)

theorem Thread.Ok.kept (h : t.Ok s.blocks s.files k) (hkept : Kept s s' k) :
    t.Ok s'.blocks s'.files k := by
  unfold Thread.Ok at h ⊢
  cases hp : t.phase <;> rw [hp] at h
  case load =>
    obtain ⟨fd, hb, hfd⟩ := h
    exact ⟨fd, hkept.holds _ fd hb hfd, hkept.files fd hfd⟩
  case free => exact ⟨hkept.holds _ _ h.1 h.2, hkept.files _ h.2⟩
  case serve => exact hkept.files _ h
  case exited => trivial

theorem Pc.Ok.kept {pc : Pc} (h : pc.Ok s.blocks s.files k) (hkept : Kept s s' k)
    (hunset : ∀ b : ℕ, s.blocks[b]? = some .unset → s'.blocks[b]? = some .unset) :
    pc.Ok s'.blocks s'.files k := by
  cases pc with
  | accept b => exact hunset b h
  | create b =>
    obtain ⟨fd, hb, hfd⟩ := h
    exact ⟨fd, hkept.holds b fd hb hfd, hkept.files fd hfd⟩
  | close b =>
    obtain ⟨fd, hfd⟩ := h
    exact ⟨fd, hkept.files fd hfd⟩
  | top => trivial
  | ended => trivial
  | exited => trivial

/-- A thread rests on no block of `main` and of no other thread. -/
theorem kept_free {b fd j : ℕ} (hb : s.blocks[b]? = some (.holds fd)) (hfd : s.files fd = .conn j)
    (hkj : k ≠ j) : Kept s (s.freeBlock b) k where
  files _ h := h
  holds b' fd' hb' hfd' := by
    have hne : b ≠ b' := by
      rintro rfl
      obtain rfl := Block.holds.inj (Option.some.inj (hb.symm.trans hb'))
      exact hkj (File.conn.inj (hfd'.symm.trans hfd))
    exact (List.getElem?_set_ne hne).trans hb'

theorem kept_free_unset {b : ℕ} (hb : s.blocks[b]? = some .unset) : Kept s (s.freeBlock b) k where
  files _ h := h
  holds b' fd' hb' _ := by
    have hne : b ≠ b' := by
      rintro rfl
      cases hb.symm.trans hb'
    exact (List.getElem?_set_ne hne).trans hb'

theorem kept_close (who : Option ℕ) {fd j : ℕ} (hfd : s.files fd = .conn j) (hkj : k ≠ j) :
    Kept s (s.closeFd who fd) k where
  files fd' h := by
    have hne : fd' ≠ fd := by
      rintro rfl
      exact hkj (File.conn.inj (h.symm.trans hfd))
    exact (Function.update_of_ne hne ..).trans h
  holds _ _ h _ := h

theorem block_eq {b : ℕ} {x : Block} (h : s.blocks[b]? = some x) : s.block b = x := by
  rw [State.block, List.getD_eq_getElem?_getD, h]
  rfl

/-! #### The steps of `main` -/

theorem Inv.ended (hI : Inv s) (hp : s.pc = .top ∨ s.pc = .ended) {pc : Pc}
    (hpc : pc = .ended ∨ pc = .exited) : Inv { s with pc } := by
  have hpend : pc.pending = s.pc.pending := by
    rcases hp with hp | hp <;> rcases hpc with rfl | rfl <;> rw [hp] <;> rfl
  constructor
  case server => exact hI.server
  case count =>
    rw [hpend]
    exact hI.count
  case main => rcases hpc with rfl | rfl <;> trivial
  case thread => exact hI.thread
  case served => exact hI.served
  case unique => exact hI.unique
  case inUse =>
    intro b x hb hx
    rcases hI.inUse b x hb hx with h | h | h
    · rcases hp with hp | hp <;> rw [hp] at h <;> cases h
    · rcases hp with hp | hp <;> rw [hp] at h <;> cases h
    · exact .inr (.inr h)
  case acts => exact hI.acts
  case once => exact hI.once

theorem Inv.malloc (hI : Inv s) (hp : s.pc = .top) :
    Inv { s with pc := .accept s.blocks.length, blocks := s.blocks ++ [.unset] } := by
  have hcount := hI.count
  rw [hp] at hcount
  have hkept (k : ℕ) :
      Kept s { s with pc := .accept s.blocks.length, blocks := s.blocks ++ [.unset] } k :=
    ⟨fun _ h => h, fun _ _ hb _ => get_snoc hb _⟩
  constructor
  case server => exact hI.server
  case count => exact hcount
  case main => exact List.getElem?_concat_length ..
  case thread => exact fun k t hk => (hI.thread k t hk).kept (hkept k)
  case served => exact hI.served
  case unique => exact hI.unique
  case inUse =>
    intro b x hb hx
    rw [List.getElem?_append] at hb
    split_ifs at hb with hlt
    · rcases hI.inUse b x hb hx with h | h | h
      · rw [hp] at h
        cases h
      · rw [hp] at h
        cases h
      · exact .inr (.inr h)
    · left
      have hone : b - s.blocks.length < 1 := (List.getElem?_eq_some_iff.1 hb).1
      exact congrArg Pc.accept (by omega)
  case acts => exact hI.acts
  case once => exact hI.once

theorem sound_snoc {acts : List Act} {a : Act} (h : ∀ a ∈ acts, a.Sound) (ha : a.Sound) :
    ∀ a' ∈ acts ++ [a], a'.Sound := by
  rw [List.forall_mem_append]
  exact ⟨h, fun a' ha' => by rw [List.mem_singleton.1 ha']; exact ha⟩

theorem count_snoc_ne {acts : List Act} {a a' : Act} (h : a' ≠ a) :
    (acts ++ [a']).count a = acts.count a := by
  rw [List.count_append, List.count_singleton, beq_false_of_ne h]
  rfl

theorem Inv.freeBlock {b : ℕ} {x : Block} {pc : Pc} (hI : Inv s)
    (hb : s.blocks[b]? = some x) (hx : x ≠ .freed) (hown : s.pc = .accept b ∨ s.pc = .create b)
    (hpend : pc.pending = s.pc.pending)
    (hmain : pc.Ok (s.freeBlock b).blocks s.files s.threads.length)
    (hkept : ∀ k, k < s.threads.length → Kept s (s.freeBlock b) k) :
    Inv { s.freeBlock b with pc } := by
  constructor
  case server => exact hI.server
  case count =>
    rw [hpend]
    exact hI.count
  case main => exact hmain
  case thread =>
    intro k t hk
    have hlt := (List.getElem?_eq_some_iff.1 hk).1
    have hkept' : Kept s { s.freeBlock b with pc } k := ⟨(hkept k hlt).files, (hkept k hlt).holds⟩
    exact (hI.thread k t hk).kept hkept'
  case served => exact hI.served
  case unique => exact hI.unique
  case inUse =>
    intro b' y hb' hy
    dsimp only [State.freeBlock] at hb'
    rw [List.getElem?_set] at hb'
    split_ifs at hb' with hbb
    · exact absurd (Option.some.inj hb').symm hy
    · rcases hI.inUse b' y hb' hy with h | h | h
      · rcases hown with hown | hown <;> rw [hown] at h
        · exact absurd (Pc.accept.inj h) hbb
        · cases h
      · rcases hown with hown | hown <;> rw [hown] at h
        · cases h
        · exact absurd (Pc.create.inj h) hbb
      · exact .inr (.inr h)
  case acts =>
    apply sound_snoc hI.acts
    rw [block_eq hb]
    exact hx
  case once => exact fun k => (count_snoc_ne (by simp)).trans (hI.once k)

theorem Inv.connect {b fd : ℕ} (hI : Inv s) (hp : s.pc = .accept b)
    (hserver : s.files s.serverSockFd = .listening) (hfree : LowestFree s.files fd) :
    Inv { s with
      pc := .create b
      files := Function.update s.files fd (.conn s.accepted)
      blocks := s.blocks.set b (.holds fd)
      accepted := s.accepted + 1 } := by
  have hcount := hI.count
  have hmain := hI.main
  rw [hp] at hcount hmain
  have hne : s.serverSockFd ≠ fd := by
    rintro rfl
    cases hserver.symm.trans hfree.1
  have hconn : ∀ fd' i, s.files fd' = .conn i → fd' ≠ fd := by
    rintro fd' i h rfl
    cases h.symm.trans hfree.1
  have hold : ∀ fd' i, s.files fd' = .conn i → i ≠ s.accepted := by
    intro fd' i h
    exact Nat.ne_of_lt (hI.served fd' i h).1
  constructor
  case server => exact .inl ((Function.update_of_ne hne ..).trans hserver)
  case count => exact congrArg Nat.succ hcount
  case main =>
    refine ⟨fd, get_set hmain _, ?_⟩
    rw [← hcount]
    exact Function.update_self ..
  case thread =>
    intro k t hk
    refine (hI.thread k t hk).kept ⟨fun fd' h => ?_, fun b' fd' hb' _ => ?_⟩
    · exact (Function.update_of_ne (hconn fd' k h) ..).trans h
    · have hbb : b ≠ b' := by
        rintro rfl
        cases hmain.symm.trans hb'
      exact (List.getElem?_set_ne hbb).trans hb'
  case served =>
    intro fd' i h
    dsimp only at h
    rw [Function.update_apply] at h
    split_ifs at h with heq
    · obtain rfl := File.conn.inj h
      refine ⟨Nat.lt_succ_self _, fun t ht => ?_⟩
      have hlt : s.accepted < s.threads.length := (List.getElem?_eq_some_iff.1 ht).1
      simp only [Pc.pending] at hcount
      omega
    · obtain ⟨hlt, hlive⟩ := hI.served fd' i h
      exact ⟨Nat.lt_succ_of_lt hlt, hlive⟩
  case unique =>
    intro fd₁ fd₂ i h₁ h₂
    dsimp only at h₁ h₂
    rw [Function.update_apply] at h₁ h₂
    split_ifs at h₁ h₂ with heq₁ heq₂ heq₂
    · rw [heq₁, heq₂]
    · obtain rfl := File.conn.inj h₁
      exact absurd rfl (hold fd₂ _ h₂)
    · obtain rfl := File.conn.inj h₂
      exact absurd rfl (hold fd₁ _ h₁)
    · exact hI.unique fd₁ fd₂ i h₁ h₂
  case inUse =>
    intro b' x hb' hx
    dsimp only at hb'
    rw [List.getElem?_set] at hb'
    split_ifs at hb' with hbb
    · exact .inr (.inl (congrArg Pc.create hbb))
    · rcases hI.inUse b' x hb' hx with h | h | h
      · rw [hp] at h
        exact absurd (Pc.accept.inj h) hbb
      · rw [hp] at h
        cases h
      · exact .inr (.inr h)
  case acts => exact hI.acts
  case once => exact hI.once

theorem Inv.create {b : ℕ} (hI : Inv s) (hp : s.pc = .create b) :
    Inv { s with pc := .top, threads := s.threads ++ [⟨b, 0, .load⟩] } := by
  have hcount := hI.count
  have hmain := hI.main
  rw [hp] at hcount hmain
  have hnew : ∀ (k : ℕ) (t : Thread), (s.threads ++ [⟨b, 0, .load⟩])[k]? = some t →
      s.threads[k]? = some t ∨ k = s.threads.length ∧ t = ⟨b, 0, .load⟩ := by
    intro k t hk
    rw [List.getElem?_append] at hk
    split_ifs at hk with hlt
    · exact .inl hk
    · have hone := (List.getElem?_eq_some_iff.1 hk).1
      rw [List.length_singleton] at hone
      exact .inr ⟨by omega, List.mem_singleton.1 (List.mem_of_getElem? hk)⟩
  constructor
  case server => exact hI.server
  case count =>
    rw [List.length_append]
    exact hcount
  case main => trivial
  case thread =>
    intro k t hk
    obtain hk | ⟨rfl, rfl⟩ := hnew k t hk
    · exact hI.thread k t hk
    · exact hmain
  case served =>
    intro fd i h
    obtain ⟨hlt, hlive⟩ := hI.served fd i h
    refine ⟨hlt, fun t ht => ?_⟩
    obtain ht | ⟨-, rfl⟩ := hnew i t ht
    · exact hlive t ht
    · simp
  case unique => exact hI.unique
  case inUse =>
    intro b' x hb' hx
    rcases hI.inUse b' x hb' hx with h | h | ⟨t, ht, h⟩
    · rw [hp] at h
      cases h
    · rw [hp] at h
      obtain rfl := Pc.create.inj h
      exact .inr (.inr ⟨_, List.mem_append_right _ (List.mem_singleton_self _), rfl, .inl rfl⟩)
    · exact .inr (.inr ⟨t, List.mem_append_left _ ht, h⟩)
  case acts => exact hI.acts
  case once =>
    intro k
    rw [hI.once k]
    by_cases hlt : k < s.threads.length
    · rw [List.getElem?_append_left hlt]
    · rw [List.getElem?_append_right (Nat.le_of_not_lt hlt),
        List.getElem?_eq_none (Nat.le_of_not_lt hlt)]
      cases k - s.threads.length <;> simp

theorem Inv.sigint (hI : Inv s) : Inv { s with
    loopFlag := false
    files := Function.update s.files s.serverSockFd .closed } := by
  have hconn (fd i : ℕ) := @close_server s.files s.serverSockFd hI.server fd i
  have hkept (k : ℕ) : Kept s { s with
      loopFlag := false
      files := Function.update s.files s.serverSockFd .closed } k :=
    ⟨fun fd h => (hconn fd k).2 h, fun _ _ h _ => h⟩
  constructor
  case server => exact .inr (Function.update_self ..)
  case count => exact hI.count
  case main => exact hI.main.kept (hkept _) fun _ h => h
  case thread => exact fun k t hk => (hI.thread k t hk).kept (hkept k)
  case served => exact fun fd i h => hI.served fd i ((hconn fd i).1 h)
  case unique => exact fun fd fd' i h h' => hI.unique fd fd' i ((hconn fd i).1 h) ((hconn fd' i).1 h')
  case inUse => exact hI.inUse
  case acts => exact hI.acts
  case once => exact hI.once

/-! #### The steps of a thread -/

theorem served_set {t' : Thread} (ht' : t'.phase ≠ .exited) {i : ℕ}
    (h : s.Served i) : ({ s with threads := s.threads.set k t' } : State).Served i := by
  refine ⟨h.1, fun u hu => ?_⟩
  dsimp only at hu
  rw [List.getElem?_set] at hu
  split_ifs at hu
  · obtain rfl := Option.some.inj hu
    exact ht'
  · exact h.2 u hu

theorem any_exited_set (hk : s.threads[k]? = some t) {t' : Thread} (ht : t.phase ≠ .exited)
    (ht' : t'.phase ≠ .exited) (j : ℕ) :
    ((s.threads.set k t')[j]?.any fun t => t.phase = .exited) =
      s.threads[j]?.any fun t => t.phase = .exited := by
  by_cases hkj : k = j
  · subst hkj
    rw [get_set hk, hk]
    simp [ht, ht']
  · rw [List.getElem?_set_ne hkj]

/-- Who is still to free a block, once thread `k` has gone on. -/
theorem inUse_set {b : ℕ} (hk : s.threads[k]? = some t) (t' : Thread) (h : s.InUse b)
    (hkeep : t.arg = b → t.phase = .load ∨ t.phase = .free →
      t'.arg = b ∧ (t'.phase = .load ∨ t'.phase = .free)) :
    ({ s with threads := s.threads.set k t' } : State).InUse b := by
  rcases h with h | h | ⟨u, hu, hb, hp⟩
  · exact .inl h
  · exact .inr (.inl h)
  · obtain ⟨j, hj⟩ := List.mem_iff_getElem?.1 hu
    refine .inr (.inr ?_)
    by_cases hkj : k = j
    · subst hkj
      obtain rfl := Option.some.inj (hk.symm.trans hj)
      exact ⟨t', List.mem_of_getElem? (get_set hk t'), hkeep hb hp⟩
    · exact ⟨u, List.mem_of_getElem? ((List.getElem?_set_ne hkj).trans hj), hb, hp⟩

theorem Inv.load {fd : ℕ} (hI : Inv s) (hk : s.threads[k]? = some t) (hp : t.phase = .load)
    (hb : s.blocks[t.arg]? = some (.holds fd)) (hfd : s.files fd = .conn k) :
    Inv { s with
      acts := s.acts ++ [.load (.holds fd)]
      threads := s.threads.set k { t with clientSockFd := fd, phase := .free } } := by
  constructor
  case server => exact hI.server
  case count =>
    rw [List.length_set]
    exact hI.count
  case main =>
    rw [List.length_set]
    exact hI.main
  case thread => exact forall_set hI.thread ⟨hb, hfd⟩
  case served => exact fun fd i h => served_set (by simp) (hI.served fd i h)
  case unique => exact hI.unique
  case inUse => exact fun b x hb hx => inUse_set hk _ (hI.inUse b x hb hx) fun h _ => ⟨h, .inr rfl⟩
  case acts => exact sound_snoc hI.acts ⟨fd, rfl⟩
  case once =>
    intro j
    dsimp only
    rw [any_exited_set hk (by simp [hp]) (by simp), count_snoc_ne (by simp)]
    exact hI.once j

theorem Inv.io (hI : Inv s) {file : File} (hfile : file = .conn k) :
    Inv { s with acts := s.acts ++ [.io k file] } where
  server := hI.server
  count := hI.count
  main := hI.main
  thread := hI.thread
  served := hI.served
  unique := hI.unique
  inUse := hI.inUse
  acts := sound_snoc hI.acts hfile
  once j := (count_snoc_ne (by simp)).trans (hI.once j)

theorem Inv.free (hI : Inv s) (hk : s.threads[k]? = some t) (hp : t.phase = .free)
    (hb : s.blocks[t.arg]? = some (.holds t.clientSockFd))
    (hfd : s.files t.clientSockFd = .conn k) :
    Inv { s.freeBlock t.arg with threads := s.threads.set k { t with phase := .serve } } := by
  have hlt : k < s.threads.length := (List.getElem?_eq_some_iff.1 hk).1
  have hkept (j : ℕ) (hj : j ≠ k) : Kept s
      { s.freeBlock t.arg with threads := s.threads.set k { t with phase := .serve } } j :=
    ⟨(kept_free hb hfd hj).files, (kept_free hb hfd hj).holds⟩
  constructor
  case server => exact hI.server
  case count =>
    rw [List.length_set]
    exact hI.count
  case main =>
    rw [List.length_set]
    refine hI.main.kept (hkept _ (Nat.ne_of_gt hlt)) fun b hb' => ?_
    have hne : t.arg ≠ b := by
      rintro rfl
      cases hb.symm.trans hb'
    exact (List.getElem?_set_ne hne).trans hb'
  case thread =>
    intro j u hj
    dsimp only at hj
    rw [List.getElem?_set] at hj
    split_ifs at hj with hkj
    · obtain rfl := Option.some.inj hj
      rw [← hkj]
      exact hfd
    · exact (hI.thread j u hj).kept (hkept j (Ne.symm hkj))
  case served => exact fun fd i h => served_set (by simp) (hI.served fd i h)
  case unique => exact hI.unique
  case inUse =>
    intro b x hb' hx
    dsimp only [State.freeBlock] at hb'
    rw [List.getElem?_set] at hb'
    split_ifs at hb' with hbb
    · exact absurd (Option.some.inj hb').symm hx
    · exact inUse_set hk _ (hI.inUse b x hb' hx) fun h _ => absurd h hbb
  case acts =>
    apply sound_snoc hI.acts
    rw [block_eq hb]
    simp [Act.Sound]
  case once =>
    intro j
    dsimp only [State.freeBlock]
    rw [any_exited_set hk (by simp [hp]) (by simp), count_snoc_ne (by simp)]
    exact hI.once j

theorem Inv.exit (hI : Inv s) (hk : s.threads[k]? = some t) (hp : t.phase = .serve)
    (hfd : s.files t.clientSockFd = .conn k) :
    Inv { s.closeFd (some k) t.clientSockFd with
      threads := s.threads.set k { t with phase := .exited } } := by
  have hlt : k < s.threads.length := (List.getElem?_eq_some_iff.1 hk).1
  have hne : s.serverSockFd ≠ t.clientSockFd := by
    intro heq
    rw [← heq] at hfd
    rcases hI.server with h | h <;> cases h.symm.trans hfd
  have hkept (j : ℕ) (hj : j ≠ k) : Kept s { s.closeFd (some k) t.clientSockFd with
      threads := s.threads.set k { t with phase := .exited } } j :=
    ⟨(kept_close (some k) hfd hj).files, (kept_close (some k) hfd hj).holds⟩
  have hold : ∀ fd i, (s.closeFd (some k) t.clientSockFd).files fd = .conn i →
      s.files fd = .conn i ∧ fd ≠ t.clientSockFd := by
    intro fd i h
    dsimp only [State.closeFd] at h
    rw [Function.update_apply] at h
    split_ifs at h with heq
    exact ⟨h, heq⟩
  constructor
  case server =>
    have hsame := Function.update_of_ne hne .closed s.files
    exact hI.server.imp hsame.trans hsame.trans
  case count =>
    rw [List.length_set]
    exact hI.count
  case main =>
    rw [List.length_set]
    exact hI.main.kept (hkept _ (Nat.ne_of_gt hlt)) fun _ h => h
  case thread =>
    intro j u hj
    dsimp only at hj
    rw [List.getElem?_set] at hj
    split_ifs at hj with hkj
    · obtain rfl := Option.some.inj hj
      trivial
    · exact (hI.thread j u hj).kept (hkept j (Ne.symm hkj))
  case served =>
    intro fd i h
    obtain ⟨hfdi, hfdne⟩ := hold fd i h
    obtain ⟨hi, hlive⟩ := hI.served fd i hfdi
    have hki : k ≠ i := by
      rintro rfl
      exact hfdne (hI.unique _ _ k hfdi hfd)
    refine ⟨hi, fun u hu => hlive u ?_⟩
    dsimp only at hu
    rwa [List.getElem?_set_ne hki] at hu
  case unique => exact fun fd fd' i h h' => hI.unique fd fd' i (hold fd i h).1 (hold fd' i h').1
  case inUse =>
    intro b x hb hx
    apply inUse_set hk _ (hI.inUse b x hb hx)
    intro _ h
    rcases h with h | h <;> cases hp.symm.trans h
  case acts => exact sound_snoc hI.acts ⟨k, rfl, hfd⟩
  case once =>
    intro j
    dsimp only [State.closeFd]
    by_cases hkj : k = j
    · subst hkj
      have h0 := hI.once k
      rw [hk] at h0
      rw [get_set hk, hfd, List.count_append, h0]
      simp [hp]
    · rw [List.getElem?_set_ne hkj, count_snoc_ne (by simp [hkj])]
      exact hI.once j

theorem inv_step (hI : Inv s) (hc : Created s e) (h : step s e = some s') : Inv s' := by
  unfold step at h
  split_ifs at h with hex
  cases e with
  | malloc ok =>
    simp only [stepMain] at h
    split_ifs at h with hp
    · obtain rfl := Option.some.inj h
      exact hI.ended (.inl hp) (.inl rfl)
    · obtain rfl := Option.some.inj h
      exact hI.malloc hp
    · obtain rfl := Option.some.inj h
      exact hI
  | accept clientSockFd =>
    simp only [stepMain] at h
    split at h
    · rename_i b hp
      obtain rfl := Option.some.inj h
      have hb := hI.main
      rw [hp] at hb
      exact hI.freeBlock hb (by simp) (.inl hp) (by rw [hp]; rfl) trivial
        fun _ _ => kept_free_unset hb
    · rename_i b fd hp
      split_ifs at h with hfree
      obtain rfl := Option.some.inj h
      exact hI.connect hp hfree.1 hfree.2
    · cases h
  | create ok =>
    simp only [stepMain] at h
    split at h
    · rename_i b hp
      obtain rfl := Option.some.inj h
      split_ifs
      · exact hI.create hp
      · obtain ⟨fd, hb, hfd⟩ : ∃ fd, s.blocks[b]? = some (.holds fd) ∧
            s.files fd = .conn s.threads.length := by
          have := hI.main
          rwa [hp] at this
        exact hI.freeBlock hb (by simp) (.inr hp) (by rw [hp]; rfl) ⟨fd, hfd⟩
          fun k hk => kept_free hb hfd (Nat.ne_of_lt hk)
    · cases h
  | close junk =>
    simp only [stepMain] at h
    split at h
    · rename_i b hp
      exact absurd rfl (hc b junk hp)
    · cases h
  | leave =>
    simp only [stepMain] at h
    split_ifs at h with hp
    obtain rfl := Option.some.inj h
    exact hI.ended (.inr hp) (.inr rfl)
  | load k junk =>
    obtain ⟨t, hk, h⟩ := Option.bind_eq_some_iff.1 h
    simp only [stepThread] at h
    split_ifs at h with hp
    obtain rfl := Option.some.inj h
    have hok := hI.thread k t hk
    unfold Thread.Ok at hok
    rw [hp] at hok
    obtain ⟨fd, hb, hfd⟩ := hok
    rw [block_eq hb]
    exact hI.load hk hp hb hfd
  | free k =>
    obtain ⟨t, hk, h⟩ := Option.bind_eq_some_iff.1 h
    simp only [stepThread] at h
    split_ifs at h with hp
    obtain rfl := Option.some.inj h
    have hok := hI.thread k t hk
    unfold Thread.Ok at hok
    rw [hp] at hok
    exact hI.free hk hp hok.1 hok.2
  | io k =>
    obtain ⟨t, hk, h⟩ := Option.bind_eq_some_iff.1 h
    simp only [stepThread] at h
    split_ifs at h with hp
    obtain rfl := Option.some.inj h
    have hok := hI.thread k t hk
    unfold Thread.Ok at hok
    rw [hp] at hok
    exact hI.io hok
  | exit k =>
    obtain ⟨t, hk, h⟩ := Option.bind_eq_some_iff.1 h
    simp only [stepThread] at h
    split_ifs at h with hp
    obtain rfl := Option.some.inj h
    have hok := hI.thread k t hk
    unfold Thread.Ok at hok
    rw [hp] at hok
    exact hI.exit hk hp hok
  | sigint =>
    obtain rfl := Option.some.inj h
    exact hI.sigint

/-- Nothing is taken from the record, and a `close` in `main` is put on it. -/
theorem acts_step (h : step s e = some s') :
    s.acts <+: s'.acts ∧ (¬ Created s e → ∃ file, .close none file ∈ s'.acts) := by
  have hquiet : s.acts <+: s'.acts → (∀ junk, e ≠ .close junk) →
      s.acts <+: s'.acts ∧ (¬ Created s e → ∃ file, .close none file ∈ s'.acts) :=
    fun hacts he => ⟨hacts, fun hn => absurd (fun _ junk _ => he junk) hn⟩
  unfold step at h
  split_ifs at h with hex
  cases e with
  | malloc ok =>
    simp only [stepMain] at h
    split_ifs at h <;> obtain rfl := Option.some.inj h <;> exact hquiet (List.prefix_refl _) (by simp)
  | accept clientSockFd =>
    simp only [stepMain] at h
    split at h
    · obtain rfl := Option.some.inj h
      exact hquiet (List.prefix_append _ _) (by simp)
    · split_ifs at h
      obtain rfl := Option.some.inj h
      exact hquiet (List.prefix_refl _) (by simp)
    · cases h
  | create ok =>
    simp only [stepMain] at h
    split at h
    · obtain rfl := Option.some.inj h
      cases ok with
      | true => exact hquiet (List.prefix_refl _) (by simp)
      | false => exact hquiet (List.prefix_append _ _) (by simp)
    · cases h
  | close junk =>
    simp only [stepMain] at h
    split at h
    · rename_i b _
      obtain rfl := Option.some.inj h
      refine ⟨(List.prefix_append _ _).trans (List.prefix_append _ _), fun _ => ?_⟩
      refine ⟨s.files ((s.block b).value junk), ?_⟩
      exact List.mem_append_right _ (List.mem_singleton_self _)
    · cases h
  | leave =>
    simp only [stepMain] at h
    split_ifs at h
    obtain rfl := Option.some.inj h
    exact hquiet (List.prefix_refl _) (by simp)
  | load k junk =>
    obtain ⟨t, hk, h⟩ := Option.bind_eq_some_iff.1 h
    simp only [stepThread] at h
    split_ifs at h
    obtain rfl := Option.some.inj h
    exact hquiet (List.prefix_append _ _) (by simp)
  | free k =>
    obtain ⟨t, hk, h⟩ := Option.bind_eq_some_iff.1 h
    simp only [stepThread] at h
    split_ifs at h
    obtain rfl := Option.some.inj h
    exact hquiet (List.prefix_append _ _) (by simp)
  | io k =>
    obtain ⟨t, hk, h⟩ := Option.bind_eq_some_iff.1 h
    simp only [stepThread] at h
    split_ifs at h
    obtain rfl := Option.some.inj h
    exact hquiet (List.prefix_append _ _) (by simp)
  | exit k =>
    obtain ⟨t, hk, h⟩ := Option.bind_eq_some_iff.1 h
    simp only [stepThread] at h
    split_ifs at h
    obtain rfl := Option.some.inj h
    exact hquiet (List.prefix_append _ _) (by simp)
  | sigint =>
    obtain rfl := Option.some.inj h
    exact hquiet (List.prefix_refl _) (by simp)

theorem inv_run (h : Run step (init serverSockFd inherited) tr s) (hc : EachStep Created tr) :
    Inv s :=
  (h.always_of_eachStep inv_init (fun _ _ _ hi hc he => inv_step hi hc he) hc).2

theorem created_of_sound (h : Run step (init serverSockFd inherited) tr s)
    (hs : ∀ a ∈ s.acts, a.Sound) : EachStep Created tr := by
  induction h with
  | nil => exact eachStep_nil
  | @snoc tr s e s' _ he ih =>
    obtain ⟨hacts, hclose⟩ := acts_step he
    refine eachStep_snoc.2 ⟨ih fun a ha => hs a (hacts.subset ha), ?_⟩
    by_contra hn
    obtain ⟨file, hmem⟩ := hclose hn
    obtain ⟨k, hk, -⟩ := hs _ hmem
    cases hk

/-- An open connection is the one of a thread, or is about to get one. -/
theorem Inv.open_of_served (hI : Inv s) {i : ℕ} (h : s.Served i) : ∃ fd, s.files fd = .conn i := by
  obtain ⟨hi, hlive⟩ := h
  have hcount := hI.count
  by_cases hlt : i < s.threads.length
  · have hget := List.getElem?_eq_getElem hlt
    have hok := hI.thread i _ hget
    have hphase := hlive _ hget
    unfold Thread.Ok at hok
    split at hok
    · obtain ⟨fd, -, hfd⟩ := hok
      exact ⟨fd, hfd⟩
    · exact ⟨_, hok.2⟩
    · exact ⟨_, hok⟩
    · rename_i hp
      exact absurd hp hphase
  · have hmain := hI.main
    have hone : s.threads.length = i := by
      cases hp : s.pc <;> simp only [hp, Pc.pending] at hcount <;> omega
    rw [hone] at hmain
    cases hp : s.pc <;> simp only [hp, Pc.pending, Pc.Ok] at hcount hmain
    case create b =>
      obtain ⟨fd, -, hfd⟩ := hmain
      exact ⟨fd, hfd⟩
    case close b => exact hmain
    all_goals omega

/-- As long as `main` does not go on from a failed `pthread_create`, and no longer, nothing is
used that is freed, and each thread uses and closes its own connection. Up to then a connection
is open until its thread closes it, which it does once, and every block is freed or has somebody
who is to free it. -/
theorem own_connections (h : Run step (init serverSockFd inherited) tr s) :
    ((∀ a ∈ s.acts, a.Sound) ↔ EachStep Created tr) ∧
      (EachStep Created tr →
        (s.pc ≠ .exited → ∀ i, (∃ fd, s.files fd = .conn i) ↔ s.Served i) ∧
        (∀ k t, s.threads[k]? = some t → s.acts.count (.close (some k) (.conn k)) =
          if t.phase = .exited then 1 else 0) ∧
        ∀ b x, s.blocks[b]? = some x → x ≠ .freed → s.InUse b) := by
  refine ⟨⟨created_of_sound h, fun hc => (inv_run h hc).acts⟩, fun hc => ?_⟩
  have hI := inv_run h hc
  refine ⟨fun _ i => ⟨?_, hI.open_of_served⟩, ?_, hI.inUse⟩
  · rintro ⟨fd, hfd⟩
    exact hI.served fd i hfd
  · intro k t hk
    rw [hI.once k, hk]
    simp

/-- The second client gets the descriptor of the first. -/
def numberReused : List Event :=
  [.malloc true, .accept (some 4), .create true, .malloc true, .load 0 0, .free 0, .io 0, .exit 0,
    .accept (some 4), .create true, .load 1 0, .free 1, .io 1]

theorem numberReused_isSome : (exec step (init 3 (· < 3)) numberReused).isSome := by decide

theorem own_connections_numberReused :
    EachStep Created (trace step (init 3 (· < 3)) numberReused) ∧
      ∃ s, exec step (init 3 (· < 3)) numberReused = some s ∧
        (∃ fd, s.files fd = .conn 1) ∧ ¬ ∃ fd, s.files fd = .conn 0 := by
  have hrun := run_of_isSome (init 3 (· < 3)) numberReused numberReused_isSome
  have hacts : ((exec step (init 3 (· < 3)) numberReused).get numberReused_isSome).acts =
      [.load (.holds 4), .free (.holds 4), .io 0 (.conn 0), .close (some 0) (.conn 0),
        .load (.holds 4), .free (.holds 4), .io 1 (.conn 1)] := by decide
  have hpc : ((exec step (init 3 (· < 3)) numberReused).get numberReused_isSome).pc ≠ .exited := by
    decide
  have hthread : ((exec step (init 3 (· < 3)) numberReused).get numberReused_isSome).threads[0]? =
      some ⟨0, 4, .exited⟩ := by decide
  obtain ⟨hsound, hopen⟩ := own_connections hrun
  have hcreated := hsound.1 (by rw [hacts]; simp [Act.Sound])
  obtain ⟨hserved, -, -⟩ := hopen hcreated
  refine ⟨hcreated, (exec step (init 3 (· < 3)) numberReused).get numberReused_isSome,
    (Option.some_get _).symm, ⟨4, by decide⟩, ?_⟩
  rw [hserved hpc 0]
  rintro ⟨-, hlive⟩
  exact hlive _ hthread rfl

end Threaded

end OsLabs.Seats
