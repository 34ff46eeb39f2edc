import OsLabs.Lib.Serve
import OsLabs.Lib.Xdr
import OsLabs.Spec.Bakery

/-! The bakery over RPC, as `rpcgen` has it: the XDR routine of the request in
`lab-rpc/bakery/bakery_xdr.c`, the dispatcher of `bakery_svc.c` and the stubs of
`bakery_clnt.c`. A `float` is 32 bits, whichever they are. -/

namespace OsLabs.Bakery

open Xdr

variable {α : Type} (bits : α ≃ UInt32)

/-- `struct REQUEST` with the field of the answer. -/
structure FullREQUEST (α : Type) extends REQUEST α where
  res : α

def xdrInts (xdrs : XDR) (objp : FullREQUEST α) : Option (XDR × FullREQUEST α) := do
  let (xdrs, pid) ← xdrInt xdrs objp.pid
  let (xdrs, idx) ← xdrInt xdrs objp.idx
  let (xdrs, num) ← xdrInt xdrs objp.num
  let (xdrs, op) ← xdrInt xdrs objp.op
  return (xdrs, { objp with pid, idx, num, op })

def xdrFloats (xdrs : XDR) (objp : FullREQUEST α) : Option (XDR × FullREQUEST α) := do
  let (xdrs, arg1) ← xdrFloat bits xdrs objp.arg1
  let (xdrs, arg2) ← xdrFloat bits xdrs objp.arg2
  let (xdrs, res) ← xdrFloat bits xdrs objp.res
  return (xdrs, { objp with arg1, arg2, res })

def putInline (xdrs : XDR) (objp : FullREQUEST α) : XDR :=
  let xdrs := ixdrPutLong xdrs objp.pid
  let xdrs := ixdrPutLong xdrs objp.idx
  let xdrs := ixdrPutLong xdrs objp.num
  ixdrPutLong xdrs objp.op

def getInline (buf : List UInt8) (objp : FullREQUEST α) : FullREQUEST α :=
  let (pid, buf) := ixdrGetLong buf
  let (idx, buf) := ixdrGetLong buf
  let (num, buf) := ixdrGetLong buf
  let (op, _) := ixdrGetLong buf
  { objp with pid, idx, num, op }

def xdrREQUEST (xdrs : XDR) (objp : FullREQUEST α) : Option (XDR × FullREQUEST α) :=
  match xdrs.x_op with
  | .ENCODE => do
    let xdrs ← match xdrInline xdrs (4 * BYTES_PER_XDR_UNIT) with
      | none => (xdrInts xdrs objp).map Prod.fst
      | some (xdrs, _) => some (putInline xdrs objp)
    xdrFloats bits xdrs objp
  | .DECODE => do
    let (xdrs, objp) ← match xdrInline xdrs (4 * BYTES_PER_XDR_UNIT) with
      | none => xdrInts xdrs objp
      | some (xdrs, buf) => some (xdrs, getInline buf objp)
    xdrFloats bits xdrs objp
  | .FREE => do
    let (xdrs, objp) ← xdrInts xdrs objp
    xdrFloats bits xdrs objp

/-! ### The dispatcher -/

def NULLPROC : ℕ := 0
def GET_NUMBER : ℕ := 1
def BAKERY_SERVICE : ℕ := 2

/-- What arrives: the procedure, the bytes of the arguments, and whether the stream over them
hands out pieces; and whether `svc_sendreply` gets a reply through. -/
structure Call where
  rq_proc : ℕ
  args : List UInt8
  inlines : Bool
  sent : Bool

inductive Reply
  | success (result : List UInt8)
  | noproc
  | decode
  | systemerr
  deriving DecidableEq

/-- How a call can end the server: by what C leaves undefined, or by `exit (1)`. -/
inductive Stop
  | fault (f : Fault)
  | exit
  deriving DecidableEq

/-- `memset` of the argument, and `svc_getargs`. -/
def svcGetargs (c : Call) : Option (FullREQUEST α) :=
  let zero := bits.symm 0
  (xdrREQUEST bits ⟨.DECODE, c.args, 0, c.inlines⟩ ⟨⟨0, 0, 0, 0, zero, zero⟩, zero⟩).map Prod.snd

def svcFreeargs (argument : FullREQUEST α) : Bool :=
  (xdrREQUEST bits ⟨.FREE, [], 0, false⟩ argument).isSome

/-- The reply, or the error reply when the first could not be sent. -/
def sendreply (c : Call) (result : List UInt8) : Reply :=
  if c.sent then .success result else .systemerr

/-- The calls of `svc_getargs`, of the procedure, of `svc_sendreply` and of `svc_freeargs`. -/
def dispatch {β : Type} (s : Server α) (c : Call) (xdrResult : β → List UInt8)
    (local_ : Server α → REQUEST α → Except Fault (Server α × β)) :
    Except Stop (Server α × List Reply) :=
  match svcGetargs bits c with
  | none => .ok (s, [.decode])
  | some argument => do
    let (s, result) ← (local_ s argument.toREQUEST).mapError Stop.fault
    if svcFreeargs bits argument then return (s, [sendreply c (xdrResult result)])
    else throw .exit

def bakeryProg1 [Number α] (s : Server α) (c : Call) : Except Stop (Server α × List Reply) :=
  if c.rq_proc = NULLPROC then .ok (s, if c.sent then [.success []] else [])
  else if c.rq_proc = GET_NUMBER then dispatch bits s c putLong getNumber1Svc
  else if c.rq_proc = BAKERY_SERVICE then dispatch bits s c (putBits bits) bakeryService1Svc
  else .ok (s, [.noproc])

def request? (c : Call) : Option (Request α) :=
  if c.rq_proc = NULLPROC then none
  else if c.rq_proc = GET_NUMBER then (svcGetargs bits c).map fun r => .getNumber r.toREQUEST
  else if c.rq_proc = BAKERY_SERVICE then
    (svcGetargs bits c).map fun r => .bakeryService r.toREQUEST
  else none

/-! ### The stubs -/

def UDPMSGSIZE : ℕ := 8800

/-- `clnt_call` over a network that loses nothing: the arguments are encoded, the server
answers, and the result is decoded; `none` when the call comes back with an error. -/
def clntCall [Number α] {β : Type} (s : Server α) (proc : ℕ) (argp : FullREQUEST α)
    (xdrRes : List UInt8 → Option (β × List UInt8)) (inlines inlines' : Bool) :
    Except Stop (Server α × Option β) :=
  match xdrREQUEST bits ⟨.ENCODE, [], UDPMSGSIZE, inlines⟩ argp with
  | none => .ok (s, none)
  | some (xdrs, _) => do
    let (s, replies) ← bakeryProg1 bits s ⟨proc, xdrs.bytes, inlines', true⟩
    match replies with
    | [.success result] => return (s, (xdrRes result).map Prod.fst)
    | _ => return (s, none)

def getNumber1 [Number α] (s : Server α) (argp : FullREQUEST α) (inlines inlines' : Bool) :
    Except Stop (Server α × Option ℤ) :=
  clntCall bits s GET_NUMBER argp getLong inlines inlines'

def bakeryService1 [Number α] (s : Server α) (argp : FullREQUEST α) (inlines inlines' : Bool) :
    Except Stop (Server α × Option α) :=
  clntCall bits s BAKERY_SERVICE argp (getBits bits) inlines inlines'

/-! ### What is on the wire -/

def wire (r : FullREQUEST α) : List UInt8 :=
  putLong r.pid ++ putLong r.idx ++ putLong r.num ++ putLong r.op ++
    putBits bits r.arg1 ++ putBits bits r.arg2 ++ putBits bits r.res

/-- The integers of a request are values of a C `int`. -/
structure FullREQUEST.Valid (r : FullREQUEST α) : Prop where
  pid : IsInt r.pid
  idx : IsInt r.idx
  num : IsInt r.num
  op : IsInt r.op

end OsLabs.Bakery
