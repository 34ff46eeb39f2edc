import OsLabs.Lib.Buffer

/-! Producers and consumers in a shared memory segment,
`lab-shmemory/semaphore/pc.c`. The first two words of the segment are the
cursors; the letters follow them. -/

namespace OsLabs.Pc

inductive Sem
  | SE
  | SF
  | SB
  deriving DecidableEq

def P : ℤ := -1
def V : ℤ := 1

def producerLock : List (Sembuf Sem) := [⟨.SE, P⟩, ⟨.SB, P⟩]
def producerRelease : List (Sembuf Sem) := [⟨.SB, V⟩, ⟨.SF, V⟩]
def consumerLock : List (Sembuf Sem) := [⟨.SF, P⟩, ⟨.SB, P⟩]
def consumerRelease : List (Sembuf Sem) := [⟨.SB, V⟩, ⟨.SE, V⟩]

def semInit : Sem → ℕ
  | .SB => 1
  | .SE => 26
  | .SF => 0

/-- The size asked of `shmget`. -/
def SEGMENT : ℕ := 4096

/-- `sizeof(char *)`. -/
def PTR : ℕ := 8

def letter (i : ℕ) : UInt8 := UInt8.ofNat (97 + i % 26)

/-- The segment, by offset from `addr`. `consCur` and `prodCur` are the two
cursor words, as the offsets they point to. The logs keep what was stored and
what was read, each with the offset it was at, newest last. -/
structure Seg where
  mem : ℕ → UInt8
  consCur : ℕ
  prodCur : ℕ
  produced : List (ℕ × UInt8)
  consumed : List (ℕ × UInt8)

/-- Both cursors start behind the two words. -/
def segInit : Seg := ⟨fun _ => 0, PTR + PTR, PTR + PTR, [], []⟩

/-- The body of `producer`; a store outside of the segment has no result. -/
def producer (m : Seg) : Option Seg :=
  if m.prodCur < SEGMENT then
    let ch := letter (m.prodCur - (PTR + PTR))
    some { m with
      mem := Function.update m.mem m.prodCur ch
      prodCur := m.prodCur + 1
      produced := m.produced ++ [(m.prodCur, ch)] }
  else none

/-- The body of `consumer`; a load outside of the segment has no result. -/
def consumer (m : Seg) : Option Seg :=
  if m.consCur < SEGMENT then
    some { m with
      consCur := m.consCur + 1
      consumed := m.consumed ++ [(m.consCur, m.mem m.consCur)] }
  else none

/-- The program: both loops go on until the signal handler clears `flag`. -/
def pc : Section Sem Kind Seg where
  lock
    | .producer => producerLock
    | .consumer => consumerLock
  release
    | .producer => producerRelease
    | .consumer => consumerRelease
  body
    | .producer => producer
    | .consumer => consumer
  loops := true

abbrev State := Section.State Sem Kind Seg
abbrev Event := Section.Event Kind

def init : State := .init semInit segInit

def inBody (s : State) : ℕ := Section.insideCount (fun _ => true) s.procs

def bodiesRun (k : Kind) (s : State) : ℕ := Section.countKind id k s.bodies

/-- The completed productions or consumptions, release call included. -/
def completed (k : Kind) (s : State) : ℕ := Section.countKind id k s.releases

def cursor (m : Seg) : Kind → ℕ
  | .producer => m.prodCur
  | .consumer => m.consCur

/-- Every process about to run its body does so inside of the segment and behind the
cursor words. -/
def InSegment (s : State) : Prop :=
  ∀ p ∈ s.procs, p.phase = .entered →
    PTR + PTR ≤ cursor s.data p.role ∧ cursor s.data p.role < SEGMENT

/-- A producer whose lock call goes through finds a free byte behind the letters stored
so far. -/
def ByteLeft (s : State) (e : Event) : Prop :=
  ∀ k, e = .run k → s.procs[k]? = some ⟨.producer, .outside⟩ →
    s.data.produced.length < SEGMENT - (PTR + PTR)

end OsLabs.Pc
