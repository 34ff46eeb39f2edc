import OsLabs.Spec.SelectServer

/-! The services of `lab-socket/task-06/server.c` one after the other, with what each of
them replied. -/

namespace OsLabs.SelectServer

open SeatClient (STR_BUFFER_SIZE cString)
open Seats (SHM_BUFFER_SIZE shmInit)

/-- What a connection delivers, `none` where it closes first. -/
structure Request where
  op : Option Char
  idx : Option Int8
  deriving DecidableEq

def Request.writes (r : Request) : Bool := r.op = some OP_WRITER && r.idx.isSome

/-- The array of `writer` as the call finds it on the stack. `reader` fills its own with
zeros. -/
abbrev Local := { buffer : List Char // buffer.length = STR_BUFFER_SIZE }

/-- The shared buffer, and the requests with what was done for them, newest last. -/
structure Desk where
  shmBuf : Cells
  log : List (Request × Served)

namespace Desk

def serve (d : Desk) (e : Request × Local) : Desk :=
  let r := clientService d.shmBuf e.1.op e.1.idx e.2
  ⟨r.shmBuf, d.log ++ [(e.1, r)]⟩

def serveAll (shmBuf : Cells) (es : List (Request × Local)) : Desk := es.foldl serve ⟨shmBuf, []⟩

def sent (d : Desk) : List (List (List Char)) := d.log.map fun p => p.2.sent

def single : List Char → Option Char
  | [ch] => some ch
  | _ => none

/-- A successful reply of `writer` is the string of one character. -/
def letterOf (bytes : List Char) : Option Char := single (cString bytes)

/-- The index asked for and the letter sent for it. A `send` that fails is not noticed. -/
def booking (p : Request × Served) : Option (ℤ × Char) :=
  match p.1.op, p.1.idx, p.2.sent with
  | some op, some idx, [bytes] =>
    if op = OP_WRITER then (letterOf bytes).map (idx.toInt, ·) else none
  | _, _, _ => none

def bookings (d : Desk) : List (ℤ × Char) := d.log.filterMap booking

/-- Every letter is sent at most once, and for its own index; a cell is `'-'` when its
letter was sent, and otherwise what `main` stored there. -/
structure Conserved (d : Desk) : Prop where
  once : (d.bookings.map Prod.snd).Nodup
  own : ∀ p ∈ d.bookings, ∃ i : Fin SHM_BUFFER_SIZE, p = ((i.val : ℤ), shmInit i)
  sold : ∀ i, d.shmBuf i = '-' ↔ ((i.val : ℤ), shmInit i) ∈ d.bookings
  kept : ∀ i, d.shmBuf i ≠ '-' → d.shmBuf i = shmInit i

end Desk

end OsLabs.SelectServer
