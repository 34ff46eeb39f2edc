import OsLabs.Spec.Fortune

/-! Used with messages that fit, the pot is the cyclic list: it holds every message
with a NUL for its newline, one behind the other, and `readInd` is where the next
one begins. -/

namespace OsLabs.Fortune

variable {P : Page}

def Message.stored (m : Message) : List UInt8 := m.bytes.dropLast ++ [0]

def stored (ms : List Message) : List UInt8 := ms.flatMap Message.stored

theorem Message.bytes_eq (m : Message) : m.bytes = m.bytes.dropLast ++ [newline] :=
  (List.dropLast_append_getLast? newline (by simp [m.newline_last])).symm

theorem Message.text_nul_free (m : Message) : 0 ∉ m.bytes.dropLast := by
  intro h
  exact m.nul_free ((List.dropLast_sublist _).subset h)

theorem Message.stored_length (m : Message) : m.stored.length = m.bytes.length := by
  rw [m.bytes_eq]
  simp [stored]

theorem stored_append (ms ns : List Message) : stored (ms ++ ns) = stored ms ++ stored ns :=
  List.flatMap_append

theorem stored_singleton (m : Message) : stored [m] = m.stored := by simp [stored]

theorem stored_eq_nil {ms : List Message} : stored ms = [] ↔ ms = [] := by
  cases ms <;> simp [stored, Message.stored]

/-- The device holds the cyclic list `c` and has room for what `ops` will write. -/
structure Holds (d : Device P) (c : Cyclic Message) (ops : List Op) : Prop where
  pot : ∃ rest, d.cookiePot.bytes = stored c.items ++ rest
  readInd : d.readInd = (stored c.before).length
  writeInd : d.writeInd = (stored c.items).length
  room : d.writeInd + (ops.flatMap Op.written).length < P.size

variable {d : Device P} {c : Cyclic Message} {ops : List Op}

theorem storePot_append {pot : Region P.size} {a b s : List UInt8} {i : ℤ}
    (hpot : pot.bytes = a ++ b) (hi : i = a.length) (hfit : s.length ≤ b.length) :
    ∃ pot', storePot pot i s = .ok pot' ∧ pot'.bytes = a ++ s ++ b.drop s.length := by
  obtain ⟨pot', hst, hb⟩ := Region.store_append hpot hfit
  refine ⟨pot', ?_, hb⟩
  unfold storePot
  rw [hi, hst]

/-- A message written goes behind the ones in the pot. -/
theorem Holds.write {m : Message} (h : Holds d c (.echo m :: ops)) :
    ∃ d', fortuneWrite d m.bytes 0 none = .ok (d', ⟨m.bytes.length, [], 0⟩) ∧
      Holds d' (c.add m) ops := by
  obtain ⟨rest, hpot⟩ := h.pot
  have hroom : d.writeInd + m.bytes.length + (ops.flatMap Op.written).length < P.size := by
    have := h.room
    simp only [List.flatMap_cons, Op.written, List.length_append] at this
    omega
  have hlen : d.writeInd + rest.length = P.size := by
    rw [h.writeInd, ← List.length_append, ← hpot]
    exact d.cookiePot.length_eq
  have hsize : ¬ m.bytes.length > (P.size + 2 ^ 64 - d.writeInd + 1) % 2 ^ 64 := by
    have := P.small
    omega
  -- the data are copied behind the messages, then the last byte is overwritten
  obtain ⟨pot₁, hst₁, hb₁⟩ := storePot_append (i := d.writeInd) (s := m.bytes) hpot
    (by rw [h.writeInd]) (by omega)
  have htext := congrArg List.length m.bytes_eq
  rw [List.length_append, List.length_singleton] at htext
  have hsplit : pot₁.bytes =
      stored c.items ++ m.bytes.dropLast ++ newline :: rest.drop m.bytes.length := by
    rw [hb₁]
    nth_rewrite 1 [m.bytes_eq]
    simp
  have hlast : ((d.writeInd + m.bytes.length : ℕ) : ℤ) - 1 =
      (stored c.items ++ m.bytes.dropLast).length := by
    rw [List.length_append, h.writeInd]
    omega
  obtain ⟨pot₂, hst₂, hb₂⟩ := storePot_append (s := [0]) hsplit hlast (by simp)
  refine ⟨{ d with cookiePot := pot₂, writeInd := d.writeInd + m.bytes.length }, ?_, ?_⟩
  · simp only [fortuneWrite, if_neg hsize, hst₁, hst₂, bind, Except.bind, pure, Except.pure]
  · refine ⟨⟨rest.drop m.bytes.length, ?_⟩, h.readInd, ?_, hroom⟩
    · rw [hb₂, Cyclic.items_add, stored_append, stored_singleton, Message.stored]
      simp
    · show d.writeInd + m.bytes.length = _
      rw [Cyclic.items_add, stored_append, stored_singleton, List.length_append,
        m.stored_length, h.writeInd]

/-- Where a read starts: at the cursor, or at the first message when the cursor is
past the last one. -/
theorem Holds.readInd_next {op : Op} (h : Holds d c (op :: ops)) {m : Message} {c' : Cyclic Message}
    (hn : c.next = some (m, c')) :
    ∃ ms, c'.before = ms ++ [m] ∧ c'.items = c.items ∧
      (if d.readInd ≥ d.writeInd then 0 else d.readInd) = (stored ms).length := by
  obtain ⟨hitems, ms, hbefore, hms⟩ := Cyclic.next_eq_some hn
  refine ⟨ms, hbefore, hitems, ?_⟩
  have hw : d.writeInd = d.readInd + (stored c.after).length := by
    rw [h.readInd, h.writeInd, Cyclic.items, stored_append, List.length_append]
  rcases hms with rfl | ⟨rfl, hafter⟩
  · have hpos : (stored c.after).length ≠ 0 := by
      intro h0
      have hafter := stored_eq_nil.1 (List.length_eq_zero_iff.1 h0)
      have := congrArg List.length hitems
      simp [Cyclic.items, hbefore, hafter] at this
    rw [if_neg (by omega), h.readInd]
  · have h0 : (stored c.after).length = 0 := by rw [hafter]; rfl
    rw [if_pos (by omega)]
    rfl

theorem Holds.read {len : ℕ} {m : Message} {c' : Cyclic Message} (h : Holds d c (.cat len :: ops))
    (hn : c.next = some (m, c')) :
    ∃ d', fortuneRead d len 0 0 = .ok (d', ⟨m.bytes.length, m.bytes, m.bytes.length⟩) ∧
      Holds d' c' ops := by
  obtain ⟨rest, hpot⟩ := h.pot
  obtain ⟨ms, hbefore, hitems, hread⟩ := h.readInd_next hn
  have hsplit : stored c.items = stored ms ++ (m.stored ++ stored c'.after) := by
    rw [← hitems, Cyclic.items, hbefore, stored_append, stored_append, stored_singleton,
      List.append_assoc]
  have hlen : d.writeInd = (stored ms).length + (m.bytes.length + (stored c'.after).length) := by
    rw [h.writeInd, hsplit, List.length_append, List.length_append, m.stored_length]
  have hroom : d.writeInd + (ops.flatMap Op.written).length < P.size := h.room
  have hmpos : 0 < m.bytes.length := by
    rw [m.bytes_eq]
    simp
  have hw : d.writeInd ≠ 0 := by omega
  -- the cookie found is the message without its newline, which `snprintf` puts back
  have hstr : d.cookiePot.str (stored ms).length = some m.bytes.dropLast := by
    refine Region.str_append (b := stored c'.after ++ rest) ?_ m.text_nul_free
    rw [hpot, hsplit, Message.stored]
    simp
  have hfit : m.bytes.length < P.size := by omega
  obtain ⟨tmpBuf, hsn, hload⟩ := Region.snprintf_of_lt (r := d.tmpBuf) hfit
  refine ⟨{ d with tmpBuf, readInd := (stored ms).length + m.bytes.length }, ?_, ?_⟩
  · simp [fortuneRead, hw, hread, hstr, ← m.bytes_eq, hsn, hload, pure, Except.pure]
  · refine ⟨⟨rest, by rw [hitems]; exact hpot⟩, ?_, by rw [hitems]; exact h.writeInd, hroom⟩
    show (stored ms).length + m.bytes.length = _
    rw [hbefore, stored_append, stored_singleton, List.length_append, m.stored_length]

theorem Holds.read_empty {len : ℕ} (h : Holds d c (.cat len :: ops)) (hn : c.next = none) :
    fortuneRead d len 0 0 = .ok (d, ⟨0, [], 0⟩) := by
  have hw : d.writeInd = 0 := by
    rw [h.writeInd, Cyclic.next_eq_none.1 hn]
    rfl
  simp [fortuneRead, hw, pure, Except.pure]

theorem holds_init (h : (ops.flatMap Op.written).length < P.size) :
    Holds (mdInit P) Cyclic.empty ops :=
  ⟨⟨_, rfl⟩, rfl, rfl, by simpa [mdInit] using h⟩

theorem holds_step (d : Device P) (c : Cyclic Message) (op : Op) (ops : List Op)
    (h : Holds d c (op :: ops)) :
    ∃ d', call d op.call = .ok (d', (use c op).2) ∧ Holds d' (use c op).1 ops := by
  cases op with
  | echo m => exact h.write
  | cat len =>
    cases hn : c.next with
    | none =>
      refine ⟨d, ?_, ?_⟩
      · simp only [use, hn]
        exact h.read_empty hn
      · simp only [use, hn]
        exact ⟨h.pot, h.readInd, h.writeInd, h.room⟩
    | some mc =>
      simp only [use, hn]
      exact h.read hn

/-- Messages and reads in any order, the messages fitting into the pot: every read
returns the message after the one read before it, or the first after the last. -/
theorem cookies_in_order (ops : List Op) (hfit : (ops.flatMap Op.written).length < P.size) :
    ∃ d, serve call (mdInit P) (ops.map Op.call) = .ok (d, answers use Cyclic.empty ops) :=
  serve_sim holds_step (holds_init hfit)

def fourKiB : Page := ⟨4096, by decide, by decide⟩

/-- `12345` and `gfhg`, each with its newline. -/
def firstCookie : Message := ⟨[49, 50, 51, 52, 53, 10], by decide, rfl⟩
def secondCookie : Message := ⟨[103, 102, 104, 103, 10], by decide, rfl⟩

/-- The second cookie arrives between two reads of the first; after it the first
one comes round again. -/
theorem cookies_in_order_twoCookies :
    ∃ d, serve call (mdInit fourKiB) [.write [49, 50, 51, 52, 53, 10] 0 none, .read 6 0 0,
        .write [103, 102, 104, 103, 10] 0 none, .read 131072 0 0, .read 6 0 0] =
      .ok (d, [⟨6, [], 0⟩, ⟨6, [49, 50, 51, 52, 53, 10], 6⟩, ⟨5, [], 0⟩,
        ⟨5, [103, 102, 104, 103, 10], 5⟩, ⟨6, [49, 50, 51, 52, 53, 10], 6⟩]) :=
  cookies_in_order (P := fourKiB)
    [.echo firstCookie, .cat 6, .echo secondCookie, .cat 131072, .cat 6] (by decide)

end OsLabs.Fortune
