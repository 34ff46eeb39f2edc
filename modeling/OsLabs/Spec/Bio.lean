import OsLabs.Lib.Blocks

/-! Two buffered streams over one descriptor, `lab-bio/src/task-01/main.c`. The file is
not changed while it is read, so that a `read` before its end delivers what was asked for
or all there is left. -/

namespace OsLabs.Bio

def BUFF_SIZE : ℕ := 20

/-- The streams made by `fdopen`, and the colors of what they print. -/
inductive Fs
  | fs1
  | fs2
  deriving DecidableEq

variable {α : Type}

/-- What is left in the buffer of a stream, and whether it has met the end of the file. -/
structure Stream (α : Type) where
  buffer : List α
  eof : Bool
  deriving DecidableEq

/-- The offset of the descriptor, the two streams, and what was printed. -/
structure State (α : Type) where
  offset : ℕ
  fs1 : Stream α
  fs2 : Stream α
  out : List (Fs × α)
  deriving DecidableEq

def init : State α := ⟨0, ⟨[], false⟩, ⟨[], false⟩, []⟩

variable (contents : List α)

def read (offset count : ℕ) : List α × ℕ :=
  let bytes := (contents.drop offset).take count
  (bytes, offset + bytes.length)

/-- `fscanf(fs, "%c", &c)`: `some c` when it returns 1. -/
def fscanf (offset : ℕ) (fs : Stream α) : Option α × Stream α × ℕ :=
  if fs.eof then (none, fs, offset)
  else
    match fs.buffer with
    | c :: rest => (some c, { fs with buffer := rest }, offset)
    | [] =>
      match read contents offset BUFF_SIZE with
      | (c :: rest, offset) => (some c, { fs with buffer := rest }, offset)
      | ([], offset) => (none, { fs with eof := true }, offset)

def fprintf (fs : Fs) (c : Option α) (out : List (Fs × α)) : List (Fs × α) :=
  out ++ (c.map (fs, ·)).toList

/-- The body of the loop: `rc1 == 1`, `rc2 == 1` and the new state. -/
def turn (s : State α) : Bool × Bool × State α :=
  let (c1, fs1, offset) := fscanf contents s.offset s.fs1
  let out := fprintf .fs1 c1 s.out
  let (c2, fs2, offset) := fscanf contents offset s.fs2
  let out := fprintf .fs2 c2 out
  (c1.isSome, c2.isSome, ⟨offset, fs1, fs2, out⟩)

def loop : ℕ → Bool → Bool → State α → Option (State α)
  | 0, rc1, rc2, s => if rc1 || rc2 then none else some s
  | fuel + 1, rc1, rc2, s =>
    if rc1 || rc2 then
      let (rc1, rc2, s) := turn contents s
      loop fuel rc1 rc2 s
    else some s

/-- What `main` prints, less the newline at the end. -/
def main (fuel : ℕ) : Option (List (Fs × α)) :=
  (loop contents fuel true true init).map State.out

def printedBy (fs : Fs) (out : List (Fs × α)) : List α :=
  (out.filter (·.1 = fs)).map Prod.snd

end OsLabs.Bio
