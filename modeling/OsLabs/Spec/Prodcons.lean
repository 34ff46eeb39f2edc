import OsLabs.Lib.Buffer

/-! The workers of the RPC producer-consumer server,
`lab-rpc/prodcons/prodcons_server.c`: one thread for each registered client,
which stores or takes one character of a ring and leaves it in `resultBuffer`. -/

namespace OsLabs.Prodcons

inductive Sem
  | SE
  | SF
  | SB
  deriving DecidableEq

def P : ℤ := -1
def V : ℤ := 1

def producerLock : List (Sembuf Sem) := [⟨.SE, P⟩, ⟨.SB, P⟩]
def producerRelease : List (Sembuf Sem) := [⟨.SB, V⟩, ⟨.SF, V⟩]
def consumerLock : List (Sembuf Sem) := [⟨.SF, P⟩, ⟨.SB, P⟩]
def consumerRelease : List (Sembuf Sem) := [⟨.SB, V⟩, ⟨.SE, V⟩]

/-- The macro is `26 + 3`, without parentheses. -/
def BUFFER_SIZE : ℕ := 26 + 3

/-- `(BUFFER_SIZE - 3)`: the places left behind the three header bytes. -/
def SLOTS : ℕ := 26 + 3 - 3

def semInit : Sem → ℕ
  | .SE => BUFFER_SIZE
  | .SF => 0
  | .SB => 1

/-- The place `*(buffer + i) % (BUFFER_SIZE - 3)` a header byte points to. -/
def sid (b : UInt8) : Fin SLOTS := ⟨b.toNat % SLOTS, Nat.mod_lt _ (by decide)⟩

def advance (b : UInt8) : UInt8 := UInt8.ofNat ((b.toNat + 1) % SLOTS)

/-- `buffer`, byte by byte: the header bytes 0, 1 and 2 and the places from 3 on;
and `resultBuffer`. The rest keeps account: what was stored and taken so far,
newest last, and which places hold an item nobody has taken. -/
structure Shared where
  prodCur : UInt8
  consCur : UInt8
  ch : UInt8
  slots : Fin SLOTS → UInt8
  resultBuffer : ℤ → UInt8
  stored : List UInt8
  taken : List UInt8
  full : Fin SLOTS → Bool

def sharedInit : Shared := ⟨0, 0, 97, fun _ => 0, fun _ => 0, [], [], fun _ => false⟩

def producer (idx : ℤ) (m : Shared) : Shared :=
  let i := sid m.prodCur
  { m with
    slots := Function.update m.slots i m.ch
    resultBuffer := Function.update m.resultBuffer idx m.ch
    ch := m.ch + 1
    prodCur := advance m.prodCur
    stored := m.stored ++ [m.ch]
    full := Function.update m.full i true }

def consumer (idx : ℤ) (m : Shared) : Shared :=
  let i := sid m.consCur
  { m with
    resultBuffer := Function.update m.resultBuffer idx (m.slots i)
    slots := Function.update m.slots i 0
    consCur := advance m.consCur
    taken := m.taken ++ [m.slots i]
    full := Function.update m.full i false }

structure Worker where
  kind : Kind
  idx : ℤ
  deriving DecidableEq

/-- The worker threads. A thread runs once and ends. -/
def workers : Section Sem Worker Shared where
  lock w := match w.kind with
    | .producer => producerLock
    | .consumer => consumerLock
  release w := match w.kind with
    | .producer => producerRelease
    | .consumer => consumerRelease
  body w m := match w.kind with
    | .producer => some (producer w.idx m)
    | .consumer => some (consumer w.idx m)
  loops := false

abbrev State := Section.State Sem Worker Shared
abbrev Event := Section.Event Worker

def init : State := .init semInit sharedInit

/-- The step runs the body of a worker of the given kind. -/
def RunsBody (k : Kind) (s : State) (e : Event) : Prop :=
  ∃ i idx, e = .run i ∧ s.procs[i]? = some ⟨⟨k, idx⟩, .entered⟩

/-- The step overwrites no item that was not taken and takes no place that was
not filled. -/
def Clean (s : State) (e : Event) : Prop :=
  (RunsBody .producer s e → s.data.full (sid s.data.prodCur) = false) ∧
    (RunsBody .consumer s e → s.data.full (sid s.data.consCur) = true)

/-- What was taken is an initial part of what was stored. -/
def Fifo (s : State) : Prop := s.data.taken <+: s.data.stored

/-- A producer stores only while one of the places is free. -/
def HasRoom (s : State) (e : Event) : Prop :=
  RunsBody .producer s e → s.data.stored.length < s.data.taken.length + SLOTS

end OsLabs.Prodcons
