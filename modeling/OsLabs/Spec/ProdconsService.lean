import OsLabs.Spec.Prodcons

/-! The whole RPC producer-consumer server: `service_1_svc`, which issues the tickets,
starts the workers and answers the polls, next to the workers it has started. The server
handles one request after another; `result` is static, but every reply sets the two
fields it carries. -/

namespace OsLabs.Prodcons

def MAX_CNT_CLNT : ℤ := 1024 * 1024

structure REQUEST where
  idx : ℤ
  type : UInt8
  result : UInt8
  deriving DecidableEq

def CONSUMER : UInt8 := 99
def PRODUCER : UInt8 := 112

/-- The result of a request that has none yet, `'-'`. -/
def NONE : UInt8 := 45

def isLetter (ch : UInt8) : Bool := ch ≥ 97 && ch ≤ 122

/-- The workers, the ticket counter `idx`, and the characters the workers have stored in
`resultBuffer`, each with its ticket, newest last. -/
structure Service where
  workers : State
  idx : ℤ
  finished : List (ℤ × UInt8)

namespace Service

def init : Service := ⟨Prodcons.init, 0, []⟩

/-- An index at which `resultBuffer` is read outside of its bounds. -/
abbrev Fault := ℤ

/-- The `switch` on the type of a client that registers. -/
def kindOf (type : UInt8) : Option Kind :=
  if type = CONSUMER then some .consumer
  else if type = PRODUCER then some .producer
  else none

def poll (s : Service) (argp : REQUEST) : Except Fault REQUEST :=
  if argp.result = NONE then
    if argp.idx < MAX_CNT_CLNT then
      let ch := s.workers.data.resultBuffer argp.idx
      .ok ⟨argp.idx, 0, if isLetter ch then ch else NONE⟩
    else .error argp.idx
  else .ok ⟨argp.idx, 0, argp.result⟩

/-- The part that registers a client. `alloc` and `create` tell whether `malloc` and
`pthread_create` succeed; without memory there is no reply, but the ticket is gone. -/
def register (s : Service) (argp : REQUEST) (alloc create : Bool) : Service × Option REQUEST :=
  let ticket := s.idx
  let s := { s with idx := s.idx + 1 }
  if alloc then
    match kindOf argp.type, create with
    | some kind, true =>
      let procs := s.workers.procs ++ [⟨⟨kind, ticket⟩, .outside⟩]
      ({ s with workers := { s.workers with procs } }, some ⟨ticket, 0, NONE⟩)
    | _, _ => (s, some ⟨ticket, 0, NONE⟩)
  else (s, none)

def service1Svc (s : Service) (argp : REQUEST) (alloc create : Bool) :
    Except Fault (Service × Option REQUEST) :=
  if argp.idx ≥ 0 then do
    let result ← s.poll argp
    return (s, some result)
  else .ok (s.register argp alloc create)

/-- A request handled, or a statement or a failed `semop` of worker `k`. -/
inductive Event
  | call (argp : REQUEST) (alloc create : Bool)
  | run (k : ℕ)
  | fail (k : ℕ)

/-- The character that the next statement of worker `k` leaves in `resultBuffer`. -/
def stores (s : Service) (k : ℕ) (workers : State) : List (ℤ × UInt8) :=
  match s.workers.procs[k]? with
  | some ⟨w, .entered⟩ => [(w.idx, workers.data.resultBuffer w.idx)]
  | _ => []

/-- A fault has no next state. -/
def step (s : Service) : Event → Option Service
  | .call argp alloc create => (s.service1Svc argp alloc create).toOption.map Prod.fst
  | .run k => (Prodcons.workers.step s.workers (.run k)).map fun workers =>
    { s with workers, finished := s.finished ++ s.stores k workers }
  | .fail k => (Prodcons.workers.step s.workers (.fail k)).map fun workers => { s with workers }

/-- Every character stored is a letter, and a poll for its ticket answers with it. -/
def Collectable (s : Service) : Prop :=
  ∀ p ∈ s.finished, isLetter p.2 ∧
    ∀ type, s.poll ⟨p.1, type, NONE⟩ = .ok ⟨p.1, 0, p.2⟩

def TicketsFit (s : Service) (e : Event) : Prop :=
  ∀ argp alloc create, e = .call argp alloc create → argp.idx < 0 → s.idx < MAX_CNT_CLNT

def WithinAlphabet (s : Service) (e : Event) : Prop :=
  ∀ k idx, e = .run k → s.workers.procs[k]? = some ⟨⟨.producer, idx⟩, .entered⟩ →
    s.workers.data.stored.length < 26

/-- The indices at which the next step accesses `resultBuffer`: a poll reads the entry of
the index it carries, unless it brings its result along, and a body stores the
character under its worker's ticket. -/
def accesses (s : Service) : Event → List ℤ
  | .call argp _ _ => if argp.idx ≥ 0 ∧ argp.result = NONE then [argp.idx] else []
  | .run k =>
    match s.workers.procs[k]? with
    | some ⟨w, .entered⟩ => [w.idx]
    | _ => []
  | .fail _ => []

def InBuffer (i : ℤ) : Prop := 0 ≤ i ∧ i < MAX_CNT_CLNT

/-- How many clients have registered, and for each worker how many of them did so before
its own. -/
structure Roll where
  registrations : ℕ
  started : List ℕ

def Roll.add (r : Roll) : Event → Roll
  | .call argp alloc create =>
    if argp.idx ≥ 0 then r
    else ⟨r.registrations + 1, if alloc && create && (kindOf argp.type).isSome then
      r.started ++ [r.registrations] else r.started⟩
  | .run _ | .fail _ => r

def roll (tr : List (Service × Event)) : Roll := tr.foldl (fun r p => r.add p.2) ⟨0, []⟩

/-- The index polled is one of the buffer's, and a worker that runs its body was started
by one of the first `MAX_CNT_CLNT` registrations. -/
def WithinBuffer (tr : List (Service × Event)) (s : Service) : Event → Prop
  | .call argp _ _ => argp.idx ≥ 0 → argp.result = NONE → argp.idx < MAX_CNT_CLNT
  | .run k => ∀ w n, s.workers.procs[k]? = some ⟨w, .entered⟩ →
    (roll tr).started[k]? = some n → (n : ℤ) < MAX_CNT_CLNT
  | .fail _ => True

end Service

end OsLabs.Prodcons
