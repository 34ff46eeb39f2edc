import OsLabs.Proofs.SeatsSnapshot
import OsLabs.Proofs.WrProgress

/-! Readers that overtake a blocked writer. A start list raises the count of waiting
writers and lowers it again within one call, so a writer that is blocked is never counted
and its wait keeps no reader out. -/

namespace OsLabs.Wr

open Section

variable {s : State}

def AtStart (r : Role) (s : State) : Prop := ⟨r, .outside⟩ ∈ s.procs

def WriterBlocked (s : State) : Prop := AtStart .writer s ∧ semop s.sem startWrite = .sleep

def ReaderEnabled (s : State) : Prop := AtStart .reader s ∧ Completes s.sem startRead

def NoOvertaking (s : State) : Prop := WriterBlocked s → ¬ ReaderEnabled s

/-- A writer is inside, and both a writer and a reader stand at their start calls, with
room for one more reader in the semaphore. -/
def Crowded (s : State) : Prop :=
  0 < active .writer s ∧ active .reader s < SEMVMX ∧ AtStart .writer s ∧ AtStart .reader s

theorem startRead_completes_iff {sem : Sem → ℕ} (hr : sem .WAITING_READERS = 0)
    (hw : sem .WAITING_WRITERS = 0) :
    Completes sem startRead ↔ sem .BIN_WRITER = 0 ∧ sem .ACTIVE_READERS < SEMVMX := by
  simp [startRead, readerLock, V, P, SEMVMX, hr, hw]
  omega

theorem startWrite_sleep {sem : Sem → ℕ} (hw : sem .WAITING_WRITERS = 0)
    (hb : sem .BIN_WRITER = 0) : semop sem startWrite = .sleep := by
  simp [startWrite, writerLock, semop, V, P, SEMVMX, hw, hb]

theorem noOvertaking_iff (h : wr.Ledger semInit s) : NoOvertaking s ↔ ¬ Crowded s := by
  have hread := startRead_completes_iff (waitingReaders_eq h) (waitingWriters_eq h)
  have hbin := binWriter_add h
  rw [activeReaders_eq h] at hread
  constructor
  · intro hno hcrowd
    obtain ⟨hin, hroom, hwriter, hreader⟩ := hcrowd
    have hb : s.sem .BIN_WRITER = 0 := by omega
    exact hno ⟨hwriter, startWrite_sleep (waitingWriters_eq h) hb⟩ ⟨hreader, hread.2 ⟨hb, hroom⟩⟩
  · intro hcrowd hblocked henabled
    obtain ⟨hb, hroom⟩ := hread.1 henabled.2
    exact hcrowd ⟨by omega, hroom, hblocked.1, henabled.1⟩

end OsLabs.Wr

namespace OsLabs.Seats

variable {s : State} {v : Server}

def WriterBlocked (s : State) : Prop :=
  (∃ h ∈ s.handlers, ∃ idx, h.phase = .startWrite idx) ∧ semop s.sem startWrite = .sleep

def ReaderEnabled (s : State) : Prop :=
  (∃ h ∈ s.handlers, h.phase = .startRead) ∧ Completes s.sem startRead

def NoOvertaking (s : State) : Prop := WriterBlocked s → ¬ ReaderEnabled s

/-- Readers are inside, with room for one more in the semaphore, and both a writer and a
reader stand at their start calls. -/
def Crowded (s : State) : Prop :=
  0 < readersInside s ∧ readersInside s < SEMVMX ∧
    (∃ h ∈ s.handlers, ∃ idx, h.phase = .startWrite idx) ∧ ∃ h ∈ s.handlers, h.phase = .startRead

theorem startRead_completes_iff {sem : Sem → ℕ} (hr : sem .SEM_WAITING_READERS = 0)
    (hw : sem .SEM_WAITING_WRITERS = 0) :
    Completes sem startRead ↔ sem .SEM_ACTIVE_WRITER = 0 ∧ sem .SEM_ACTIVE_READERS < SEMVMX := by
  simp [startRead, SEM_V, SEM_P, SEMVMX, hr, hw]
  omega

theorem startWrite_sleep_iff {sem : Sem → ℕ} (hw : sem .SEM_WAITING_WRITERS = 0) :
    semop sem startWrite = .sleep ↔ 0 < sem .SEM_ACTIVE_READERS := by
  by_cases h0 : sem .SEM_ACTIVE_READERS = 0
  · -- the other operations only add, so the call does not wait for them
    have hneg : ¬ (sem .SEM_ACTIVE_WRITER : ℤ) + 1 < 0 := by omega
    simp only [startWrite, semop, SEM_V, SEM_P, SEMVMX, hw, h0]
    simp [hneg]
    split_ifs <;> simp [h0]
  · simp [startWrite, semop, SEM_V, SEM_P, SEMVMX, hw, h0, Nat.pos_of_ne_zero]

theorem noOvertaking_iff (h : Snap s) : NoOvertaking s ↔ ¬ Crowded s := by
  have hread := startRead_completes_iff h.books.waitingReaders_eq h.books.waitingWriters_eq
  have hwrite := startWrite_sleep_iff h.books.waitingWriters_eq
  rw [h.books.activeReaders_eq] at hread hwrite
  constructor
  · intro hno hcrowd
    obtain ⟨hin, hroom, hwriter, hreader⟩ := hcrowd
    have hw : s.sem .SEM_ACTIVE_WRITER = 0 := by
      have := h.books.activeReaders_eq
      rcases h.apart with h0 | h0 <;> omega
    exact hno ⟨hwriter, hwrite.2 hin⟩ ⟨hreader, hread.2 ⟨hw, hroom⟩⟩
  · intro hcrowd hblocked henabled
    exact hcrowd ⟨hwrite.1 hblocked.2, (hread.1 henabled.2).2, hblocked.1, henabled.1⟩

end OsLabs.Seats

namespace OsLabs

/-- In both programs no reader overtakes a blocked writer in any state of a run exactly
when the run never gets crowded. -/
theorem noOvertaking_iff_not_crowded {tr : List (Wr.State × Wr.Event)} {s : Wr.State}
    {tr' : List (Seats.State × Seats.Event)} {s' : Seats.State} (h : Run Wr.wr.step Wr.init tr s)
    (h' : Run (Seats.step .pthread) Seats.init tr' s') :
    (Always Wr.NoOvertaking tr s ↔ Always (fun s => ¬ Wr.Crowded s) tr s) ∧
      (Always Seats.NoOvertaking tr' s' ↔ Always (fun s => ¬ Seats.Crowded s) tr' s') := by
  refine ⟨?_, ?_⟩
  · have hiff : Always (fun s => Wr.NoOvertaking s ↔ ¬ Wr.Crowded s) tr s := by
      have hledger := h.always (Wr.wr.ledger_init _ _) fun _ _ _ hl he => Wr.wr.ledger_step hl he
      exact Always.imp (fun _ => Wr.noOvertaking_iff) hledger
    exact hiff.congr
  · have hiff : Always (fun s => Seats.NoOvertaking s ↔ ¬ Seats.Crowded s) tr' s' := by
      have hsnap := h'.always Seats.snap_init fun _ _ _ hi he => Seats.snap_step hi he
      exact Always.imp (fun _ => Seats.noOvertaking_iff) hsnap
    exact hiff.congr

/-- A writer is inside, a second one is blocked. -/
def Wr.blockedWriter : List Wr.Event := [.spawn .writer, .spawn .writer, .spawn .reader, .run 0]

/-- A reader is inside, a writer is blocked and a second reader has come. -/
def Seats.blockedWriter : List Seats.Event :=
  [.accept, .accept, .accept, .recvOp 0 (some 'r'), .run 0, .recvOp 1 (some 'w'),
    .recvIdx 1 (some 0), .recvOp 2 (some 'r')]

theorem overtaking_possible :
    (¬ ∀ tr s, Run Wr.wr.step Wr.init tr s → Wr.NoOvertaking s) ∧
    ¬ ∀ tr s, Run (Seats.step .pthread) Seats.init tr s → Seats.NoOvertaking s := by
  refine ⟨?_, ?_⟩
  · intro h
    refine h _ _ (run_of_isSome Wr.init Wr.blockedWriter (by decide)) ⟨?_, rfl⟩ ⟨?_, _, rfl⟩
    · exact List.mem_of_getElem? (i := 1) rfl
    · exact List.mem_of_getElem? (i := 2) rfl
  · intro h
    refine h _ _ (run_of_isSome Seats.init Seats.blockedWriter (by decide)) ⟨?_, rfl⟩
      ⟨?_, _, rfl⟩
    · exact ⟨_, List.mem_of_getElem? (i := 1) rfl, 0, rfl⟩
    · exact ⟨_, List.mem_of_getElem? (i := 2) rfl, rfl⟩

theorem noOvertaking_iff_not_crowded_blockedWriter :
    (Always Wr.NoOvertaking (trace Wr.wr.step Wr.init Wr.blockedWriter)
        ((exec Wr.wr.step Wr.init Wr.blockedWriter).get (by decide)) ↔
      Always (fun s => ¬ Wr.Crowded s) (trace Wr.wr.step Wr.init Wr.blockedWriter)
        ((exec Wr.wr.step Wr.init Wr.blockedWriter).get (by decide))) ∧
    (Always Seats.NoOvertaking (trace (Seats.step .pthread) Seats.init Seats.blockedWriter)
        ((exec (Seats.step .pthread) Seats.init Seats.blockedWriter).get (by decide)) ↔
      Always (fun s => ¬ Seats.Crowded s)
        (trace (Seats.step .pthread) Seats.init Seats.blockedWriter)
        ((exec (Seats.step .pthread) Seats.init Seats.blockedWriter).get (by decide))) :=
  noOvertaking_iff_not_crowded (run_of_isSome Wr.init Wr.blockedWriter (by decide))
    (run_of_isSome Seats.init Seats.blockedWriter (by decide))

end OsLabs
