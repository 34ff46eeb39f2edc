import OsLabs.Spec.SeatClient

/-! The timing log of the seat clients, beside the replies it is kept for. The test that lets
a line be logged reads `first_unoccupied_idx` again, and whatever `result_buffer` held
before the reply is still in it. -/

namespace OsLabs.SeatClient

/-- What was received is the string of one letter, its NUL there or not. -/
def SingleLetter (bytes : List Char) : Prop := ∃ ch ∈ letters, cString bytes = [ch]

instance (bytes : List Char) : Decidable (SingleLetter bytes) :=
  List.decidableBEx (fun ch => cString bytes = [ch]) letters

/-- The threads, with what the one that stored to the global last had received, the last
reply of each, and those that have received a single letter, newest last. -/
structure Watched where
  client : State
  snapshot : Option (List Char)
  reply : ℕ → List Char
  singles : List ℕ

namespace Watched

def init : Watched := ⟨SeatClient.init, none, fun _ => [], []⟩

def Bounded (s : State) : Event → Prop
  | .spawn resultBuffer => resultBuffer.length = STR_BUFFER_SIZE
  | .recv j (some bytes) => ∀ t ∈ s.threads[j]?,
    bytes.length ≤ if t.phase = .recvBuf then SHM_BUFFER_SIZE else STR_BUFFER_SIZE
  | _ => True

instance (s : State) : (e : Event) → Decidable (Bounded s e)
  | .spawn resultBuffer => inferInstanceAs (Decidable (resultBuffer.length = STR_BUFFER_SIZE))
  | .recv j (some bytes) => inferInstanceAs (Decidable (∀ t ∈ s.threads[j]?,
    bytes.length ≤ if t.phase = .recvBuf then SHM_BUFFER_SIZE else STR_BUFFER_SIZE))
  | .recv _ none | .connect _ _ | .send _ _ | .run _ | .quit _ => .isTrue trivial

def phase (w : Watched) (j : ℕ) : Option Phase := w.client.threads[j]?.map Thread.phase

/-- What is to be noted of an event that leads to `client`. -/
def note (w : Watched) (e : Event) (client : State) : Watched :=
  match e with
  | .run j =>
    match w.phase j with
    | some (.compute received) => { w with client, snapshot := some received }
    | _ => { w with client }
  | .recv j (some bytes) =>
    if w.phase j = some .recvResult then
      { w with
        client
        reply := Function.update w.reply j bytes
        singles := if SingleLetter bytes then w.singles ++ [j] else w.singles }
    else { w with client }
  | _ => { w with client }

def step (w : Watched) (e : Event) : Option Watched :=
  if Bounded w.client e then (SeatClient.step w.client e).map (w.note e) else none

/-- The line that a single letter calls for, when its thread comes to the test. -/
def due (w : Watched) : Event → List ℕ
  | .run j => if w.phase j = some .logTest ∧ SingleLetter (w.reply j) then [j] else []
  | _ => []

/-- A line is logged if and only if one is due. -/
def LogsBookings (w : Watched) (e : Event) : Prop :=
  ∀ w', w.step e = some w' → w'.client.log = w.client.log ++ w.due e

/-- Each thread has a line for every single letter it has received, but for one that is due
now. -/
def Counted (w : Watched) : Prop :=
  ∀ j, (w.client.log ++ w.due (.run j)).count j = w.singles.count j

/-- There was a letter in the last snapshot that a thread computed the global from. -/
def LetterLeft (w : Watched) : Prop :=
  ∀ received ∈ w.snapshot, ∃ ch ∈ cString received, ch ∈ letters

/-- A thread that comes to the test with a single letter finds that the last snapshot any
thread has computed from had a letter, and nothing of its older replies shows in the
array. One that comes with anything else finds no letter was left, or does not find one
character in the array. -/
def Undisturbed (w : Watched) (e : Event) : Prop :=
  ∀ j t, e = .run j → w.client.threads[j]? = some t → t.phase = .logTest →
    if SingleLetter (w.reply j) then
      w.LetterLeft ∧ cString t.resultBuffer = cString (w.reply j)
    else w.LetterLeft → (cString t.resultBuffer).length ≠ 1

end Watched

end OsLabs.SeatClient
