import OsLabs.Spec.Bakery

/-! The bakery client, `bakery_prog_1` of `lab-rpc/bakery/bakery_client.c`, and any number of
such clients with the server. Each is a process of its own: it takes a ticket, asks for the
service until it gets a result, and gives up after `ATTEMPTS` refusals. -/

namespace OsLabs.Bakery

def ATTEMPTS : ℕ := 30

/-- Where a client stands: before its call of `get_number_1`, before a call of
`bakery_service_1`, or at its end. After a failed call it reads through the null pointer. -/
inductive Pc
  | getNumber
  | service
  | returned
  | readsNull
  deriving DecidableEq

/-- A client: its request, its counter `at`, and the field `res` it keeps its answer in. -/
structure Client (α : Type) where
  req : REQUEST α
  attempts : ℕ
  res : α
  pc : Pc

variable {α : Type} [Number α]

namespace Client

def new (req : REQUEST α) : Client α := ⟨req, 0, 0, .getNumber⟩

omit [Number α] in
def number (c : Client α) : Option ℤ → Client α
  | none => { c with pc := .readsNull }
  | some num => { c with req := { c.req with num }, pc := .service }

/-- `bakery_service_1` comes back: one turn of the loop, and what follows when it ends. -/
def result (c : Client α) : Option α → Client α
  | none => { c with pc := .readsNull }
  | some res =>
    if res == Number.infinity then
      let attempts := c.attempts + 1
      if attempts < ATTEMPTS then { c with attempts } else { c with attempts, res, pc := .returned }
    else { c with res, pc := .returned }

end Client

structure System (α : Type) where
  server : Server α
  clients : List (Client α)

namespace System

def init : System α := ⟨Bakery.init, []⟩

/-- A client is started, with an index no other has; or client `k` makes its next call, which
the server answers. -/
inductive Event (α : Type)
  | start (req : REQUEST α)
  | call (k : ℕ)

def goto (s : System α) (k : ℕ) (c : Client α) : System α :=
  { s with clients := s.clients.set k c }

def step (s : System α) : Event α → Option (System α)
  | .start req =>
    if ∀ c ∈ s.clients, c.req.idx ≠ req.idx then
      some { s with clients := s.clients ++ [.new req] }
    else none
  | .call k => do
    let c ← s.clients[k]?
    match c.pc with
    | .getNumber =>
      let (server, num) ← (getNumber1Svc s.server c.req).toOption
      some { s.goto k (c.number (some num)) with server }
    | .service =>
      let (server, res) ← (bakeryService1Svc s.server c.req).toOption
      some { s.goto k (c.result (some res)) with server }
    | .returned | .readsNull => none

def AllReturned (s : System α) : Prop := ∀ c ∈ s.clients, c.pc = .returned

def NoTickets (s : System α) : Prop := ∀ i, s.server.numbers i = 0

/-- A client makes its last attempt only when no other slot holds a smaller ticket. -/
def InTurn (s : System α) (e : Event α) : Prop :=
  ∀ k c (i : Slot), e = .call k → s.clients[k]? = some c → c.req.idx = i.val →
    c.pc = .service → c.attempts + 1 = ATTEMPTS →
      ∀ j, s.server.numbers j ≠ 0 → s.server.numbers i ≤ s.server.numbers j

end System

end OsLabs.Bakery
