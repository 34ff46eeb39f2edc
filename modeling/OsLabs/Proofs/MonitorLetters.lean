import OsLabs.Proofs.Letters
import OsLabs.Proofs.Monitor

/-! The monitor's runs are runs of the letters' model. The monitor takes the body of a
reader or of a writer in one step, which there is as many as it has statements. -/

namespace OsLabs.Letters

open Monitor (Role)

variable {s s' : State} {e : Event} {k : ℕ} {t u : Thread}

theorem apart_lettersOf {s : Monitor.State} : Apart (lettersOf s) ↔ Monitor.Exclusive s := by
  rw [Apart, Monitor.lettersOf_readers, Monitor.lettersOf_writers]
  rfl

/-- Steps lead from `s` to `s'` through states whose sections are apart if those of `s`
are. -/
def Follows (s s' : State) : Prop :=
  ∃ tr, Run step s tr s' ∧ ∀ p ∈ tr, Apart s → Apart p.1

theorem Follows.refl (s : State) : Follows s s := ⟨[], .nil, nofun⟩

theorem Follows.step (h : step s e = some s') : Follows s s' :=
  ⟨[(s, e)], Run.nil.snoc h, by simp⟩

theorem Follows.cons {s₁ : State} (h : Letters.step s e = some s₁) (ha : Apart s → Apart s₁)
    (h' : Follows s₁ s') : Follows s s' := by
  obtain ⟨tr, hrun, hapart⟩ := h'
  refine ⟨(s, e) :: tr, hrun.cons h, ?_⟩
  intro p hp hs
  rcases List.mem_cons.1 hp with rfl | hp
  · exact hs
  · exact hapart p hp (ha hs)

theorem Apart.set {ch : ℤ} {printed : List (Role × ℤ)} (ha : Apart s) (hk : s.threads[k]? = some t)
    (hr : reads u = reads t) (hw : writes u = writes t) :
    Apart ⟨ch, printed, s.threads.set k u⟩ := by
  have hreaders := countP_set reads hk u
  have hwriters := countP_set writes hk u
  rw [hr] at hreaders
  rw [hw] at hwriters
  unfold Apart State.readers State.writers at *
  simp only [Nat.add_right_cancel hreaders, Nat.add_right_cancel hwriters]
  exact ha

theorem step_reader {r : Reader} (hk : s.threads[k]? = some (.reader r)) :
    step s (.run k) = some (stepReader s k r) := by
  simp [step, hk]

theorem step_writer {w : Writer} (hk : s.threads[k]? = some (.writer w)) :
    step s (.run k) = some (stepWriter s k w) := by
  simp [step, hk]

theorem follows_read (hk : s.threads[k]? = some (.reader .entered)) :
    Follows s ((s.printf .reader (97 + (s.ch - 1).tmod 26)).goto k (.reader .printed)) := by
  have hk₁ : (stepReader s k .entered).threads[k]? = _ := get_set hk _
  refine .cons (step_reader hk) (fun ha => ha.set hk rfl rfl) ?_
  have hlast := Follows.step (step_reader hk₁)
  simpa only [stepReader, State.goto, State.printf, List.set_set] using hlast

theorem follows_write (hk : s.threads[k]? = some (.writer .entered)) :
    Follows s (({ s with ch := (s.ch + 1).bmod 256 }.printf .writer (97 + s.ch.tmod 26)).goto k
      (.writer .printed)) := by
  have hk₁ : (stepWriter s k .entered).threads[k]? = _ := get_set hk _
  have hk₂ : (stepWriter (stepWriter s k .entered) k
      (.computed (97 + s.ch.tmod 26))).threads[k]? = _ := get_set hk₁ _
  refine .cons (step_writer hk) (fun ha => ha.set hk rfl rfl) ?_
  refine .cons (step_writer hk₁) (fun ha => ha.set hk₁ rfl rfl) ?_
  have hlast := Follows.step (step_writer hk₂)
  simpa only [stepWriter, State.goto, State.printf, List.set_set] using hlast

theorem follows_step {s s' : Monitor.State} {e : Monitor.Event} (h : Monitor.step s e = some s') :
    Follows (lettersOf s) (lettersOf s') := by
  cases Monitor.step_goes h with
  | @creates r _ _ _ hl =>
    rw [hl]
    exact .step (e := .createThread r) rfl
  | stays _ halike =>
    rw [halike.letters]
    exact .refl _
  | readerEnters hk _ _ _ hl =>
    rw [hl]
    exact .step (step_reader hk)
  | reads hk _ _ _ hl =>
    rw [hl]
    exact follows_read hk
  | readerLeaves hk _ _ _ hl =>
    rw [hl]
    exact .step (step_reader hk)
  | writerEnters hk _ _ _ hl =>
    rw [hl]
    exact .step (step_writer hk)
  | writes hk _ _ _ hl =>
    rw [hl]
    exact follows_write hk
  | writerLeaves hk _ _ _ hl =>
    rw [hl]
    exact .step (step_writer hk)

/-- Every run of the monitor is one of these, which prints the same letters, and its
critical sections are apart if the monitor excludes. -/
theorem monitor_follows {tr : List (Monitor.State × Monitor.Event)} {s : Monitor.State}
    (h : Run Monitor.step Monitor.init tr s) : ∃ tr', Run step init tr' (lettersOf s) ∧
      (Always Monitor.Exclusive tr s → Always Apart tr' (lettersOf s)) :=
  h.simulates lettersOf (fun _ => apart_lettersOf.2) fun _ _ _ he => follows_step he

/-- While the monitor excludes, its letters are those for their numbers of writes. -/
theorem monitor_recorded {tr : List (Monitor.State × Monitor.Event)} {s : Monitor.State}
    (h : Run Monitor.step Monitor.init tr s) (hx : Always Monitor.Exclusive tr s) :
    Recorded s.printed := by
  obtain ⟨tr', hrun, hapart⟩ := monitor_follows h
  exact (inv_run hrun (hapart hx)).recorded

end OsLabs.Letters
