import OsLabs.Spec.ProdconsService

/-! The RPC producer-consumer client, `lab-rpc/prodcons/prodcons_client.c`: a process whose
threads all run `process_request`. Each calls through the same stub, `service_1`, which
hands every caller a pointer to the same static `clnt_res`; so each later read through that
pointer is a step of its own. -/

namespace OsLabs.Prodcons

/-- Where a thread stands: before or inside a call of `service_1`, or about to read the field
of the reply its next statement reads. A thread that comes back from a failed call inside
the loop reads through the null pointer. -/
inductive Pc
  | register
  | registering
  | readIdx
  | testLow
  | testHigh
  | poll
  | polling
  | checkTime
  | readZero
  | readResult
  | printed
  | callFailed
  | readsNull
  deriving DecidableEq

/-- A thread: `data->service_1_arg`, the local `idx`, and the number of its last call, by which
the RPC library tells its replies apart. `polls` keeps account of the tickets it polled with. -/
structure Thread where
  arg : REQUEST
  idx : ℤ
  pc : Pc
  xid : ℕ
  polls : List ℤ

namespace Thread

def new (type : UInt8) : Thread := ⟨⟨-1, type, NONE⟩, 0, .register, 0, []⟩

def call (t : Thread) : Option Thread :=
  match t.pc with
  | .register => some { t with pc := .registering, xid := t.xid + 1 }
  | .poll =>
    let arg := { t.arg with idx := t.idx }
    some { t with arg, pc := .polling, xid := t.xid + 1, polls := t.polls ++ [t.idx] }
  | _ => none

/-- Inside `clnt_call`, which sends the request, again and again until a reply comes. -/
def calling (t : Thread) : Bool := t.pc = .registering || t.pc = .polling

def succeed (t : Thread) : Option Thread :=
  match t.pc with
  | .registering => some { t with pc := .readIdx }
  | .polling => some { t with pc := .checkTime }
  | _ => none

def fail (t : Thread) : Option Thread :=
  match t.pc with
  | .registering => some { t with pc := .callFailed }
  | .polling => some { t with pc := .readsNull }
  | _ => none

def print (t : Thread) (result : UInt8) : Thread :=
  { t with arg := ⟨t.idx, t.arg.type, result⟩, pc := .printed }

/-- The next statement, which reads one field of the reply. -/
def read (t : Thread) (res : REQUEST) : Option Thread :=
  match t.pc with
  | .readIdx => some { t with idx := res.idx, pc := .testLow }
  | .testLow => some { t with pc := if res.result ≥ 97 then .testHigh else .poll }
  | .testHigh => some { t with pc := if res.result ≤ 122 then .readZero else .poll }
  | .readZero => some (if res.result = 0 then t.print NONE else { t with pc := .readResult })
  | .readResult => some (t.print res.result)
  | _ => none

/-- The test of the time since the loop was entered, `late` when 120 seconds have passed. -/
def time (t : Thread) (late : Bool) : Option Thread :=
  match t.pc with
  | .checkTime => some { t with pc := if late then .readZero else .testLow }
  | _ => none

end Thread

/-- A request or a reply on its way, with the thread whose call `xid` it belongs to. -/
structure Datagram where
  thread : ℕ
  xid : ℕ
  body : REQUEST

/-- The server, the client process and the datagrams between them. `issued` keeps account of
the tickets issued, each with the thread whose request it answered, and `caller` of the
thread whose call wrote `clntRes` last: `service_1` clears it first and a reply fills it. -/
structure System where
  service : Service
  clntRes : REQUEST
  threads : List Thread
  requests : List Datagram
  replies : List Datagram
  issued : List (ℕ × ℤ)
  caller : Option ℕ

namespace System

def init : System := ⟨.init, ⟨0, 0, 0⟩, [], [], [], [], none⟩

/-- What can happen: a thread is started, calls, sends its request again, reads, looks at the
clock or has its call fail; a datagram is lost or arrives; the server does anything else, a
worker's statement or a request of another process. -/
inductive Event
  | spawn (type : UInt8)
  | call (j : ℕ)
  | resend (j : ℕ)
  | read (j : ℕ)
  | time (j : ℕ) (late : Bool)
  | timeout (j : ℕ)
  | loseRequest (n : ℕ)
  | loseReply (n : ℕ)
  | deliver (n : ℕ) (alloc create : Bool)
  | receive (n : ℕ)
  | server (e : Service.Event)

def goto (s : System) (j : ℕ) (t : Thread) : System := { s with threads := s.threads.set j t }

def request (j : ℕ) (t : Thread) : Datagram := ⟨j, t.xid, t.arg⟩

/-- The tickets the server has issued for thread `j`: the numbers its counter has passed. -/
def newTickets (j : ℕ) (service service' : Service) : List (ℕ × ℤ) :=
  (List.range (service'.idx - service.idx).toNat).map fun i => (j, service.idx + i)

/-- `prodcons_prog_1` of the server: `service_1_svc` answers the request, unless it has no reply.
Nothing remembers the requests that were answered before. -/
def serve (s : System) (d : Datagram) (alloc create : Bool) : Option System := do
  let (service, result) ← (s.service.service1Svc d.body alloc create).toOption
  let replies := s.replies ++ result.toList.map fun r => ⟨d.thread, d.xid, r⟩
  some { s with service, replies, issued := s.issued ++ newTickets d.thread s.service service }

/-- A reply arrives. The library drops it unless it belongs to the call the thread is in. -/
def accept (s : System) (d : Datagram) : Option System := do
  let t ← s.threads[d.thread]?
  if t.xid = d.xid && t.calling then
    let t ← t.succeed
    some { s.goto d.thread t with clntRes := d.body, caller := some d.thread }
  else some s

def step (s : System) : Event → Option System
  | .spawn type => some { s with threads := s.threads ++ [.new type] }
  | .call j => do
    let t ← s.threads[j]?
    let t ← t.call
    let requests := s.requests ++ [request j t]
    some { s.goto j t with requests, clntRes := ⟨0, 0, 0⟩, caller := some j }
  | .resend j => do
    let t ← s.threads[j]?
    if t.calling then some { s with requests := s.requests ++ [request j t] } else none
  | .read j => do
    let t ← s.threads[j]?
    let t ← t.read s.clntRes
    some (s.goto j t)
  | .time j late => do
    let t ← s.threads[j]?
    let t ← t.time late
    some (s.goto j t)
  | .timeout j => do
    let t ← s.threads[j]?
    let t ← t.fail
    some (s.goto j t)
  | .loseRequest n => some { s with requests := s.requests.eraseIdx n }
  | .loseReply n => some { s with replies := s.replies.eraseIdx n }
  | .deliver n alloc create => do
    let d ← s.requests[n]?
    { s with requests := s.requests.eraseIdx n }.serve d alloc create
  | .receive n => do
    let d ← s.replies[n]?
    { s with replies := s.replies.eraseIdx n }.accept d
  | .server e => do
    let service ← s.service.step e
    some { s with service }

def tickets (s : System) (j : ℕ) : List ℤ := (s.issued.filter fun p => p.1 = j).map Prod.snd

def items (s : System) (j : ℕ) : List (ℤ × UInt8) :=
  s.service.finished.filter fun f => f.1 ∈ s.tickets j

def registers (j : ℕ) (s : System) (e : Event) : Bool :=
  match e with
  | .deliver n _ _ => (s.requests[n]?).any fun d => d.thread = j && d.body.idx < 0
  | _ => false

def registrations (j : ℕ) (tr : List (System × Event)) : ℕ := tr.countP fun p => registers j p.1 p.2

/-- The replies on their way to a registration, the first call of a thread. -/
def welcomes (s : System) : List Datagram := s.replies.filter fun d => d.xid = 1

/-- A thread polls only with a ticket issued for it, and prints such a ticket with the
character the server has stored for it. -/
def OwnTickets (s : System) : Prop :=
  ∀ j t, s.threads[j]? = some t →
    (∀ i ∈ t.polls, (j, i) ∈ s.issued) ∧
      (t.pc = .printed →
        (j, t.arg.idx) ∈ s.issued ∧ (t.arg.idx, t.arg.result) ∈ s.service.finished)

/-- When a thread reads its ticket or what it is going to print, no other thread's call has
written `clntRes` since the reader's own. -/
def Undisturbed (s : System) (e : Event) : Prop :=
  ∀ j t, e = .read j → s.threads[j]? = some t →
    t.pc = .readIdx ∨ t.pc = .readZero ∨ t.pc = .readResult → s.caller = some j

/-- A thread leaves its loop because of the time only when it has its character already. -/
def InTime (s : System) (e : Event) : Prop := ∀ j, e = .time j true → isLetter s.clntRes.result

end System

end OsLabs.Prodcons
