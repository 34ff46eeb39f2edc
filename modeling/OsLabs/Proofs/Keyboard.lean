import Mathlib.Algebra.Ring.Parity
import Mathlib.Data.List.Induction
import OsLabs.Spec.Keyboard

/-! With the same modifiers the two drivers print the same keys. They part because the
works of one interrupt both toggle CapsLock: between two interrupts the second driver
never has it on. -/

namespace OsLabs.Keyboard

/-- What both drivers print of a key. -/
def single (key : Option String) : Option String := key.filter (·.length == 1)

def Tasklet.typed (shift caps : Bool) (code : UInt8) : Option String :=
  single (keymap (if isLetter code then shift ^^ caps else shift) code)

def Workq.keymap (shift : Bool) : Vector String 84 := if shift then keymapUpper else keymapLower

def Workq.isLower (key : String) : Bool :=
  key.toList.headD '\x00' ≥ 'a' && key.toList.headD '\x00' ≤ 'z'

theorem single_getElem (l : List String) (n : ℕ) :
    single l[n]? = ((l.map fun key => single (some key))[n]?).join := by
  rw [List.getElem?_map]
  cases l[n]? <;> rfl

theorem join_append_replicate (l : List (Option String)) (k n : ℕ) :
    ((l ++ List.replicate k none)[n]?).join = (l[n]?).join := by
  rcases Nat.lt_or_ge n l.length with h | h
  · rw [List.getElem?_append_left h]
  · rw [List.getElem?_append_right h, List.getElem?_eq_none h, List.getElem?_replicate]
    split <;> rfl

/-- The rows of the two tables have the same single characters. -/
theorem keymap_eq (shift : Bool) (code : UInt8) :
    single (Tasklet.keymap shift code) = single (Workq.keymap shift).toList[code.toNat]? := by
  have h : (if shift then Tasklet.keymapUpper else Tasklet.keymapLower).map
      (fun key => single (some key)) =
      (Workq.keymap shift).toList.map (fun key => single (some key)) ++ List.replicate 12 none := by
    cases shift <;> decide +kernel
  rw [Tasklet.keymap, single_getElem, h, join_append_replicate, ← single_getElem]

theorem isLower_eq (code : UInt8) (h : code.toNat < 84) :
    Workq.isLower Workq.keymapLower[code.toNat] = Tasklet.isLetter code := by
  have hrows : Workq.keymapLower.toList.map Workq.isLower =
      (List.range 84).map fun n => Tasklet.isLetter (.ofNat n) := by
    decide +kernel
  have hn := congrArg (·[code.toNat]?) hrows
  simpa [h] using hn

/-- The key resolved is the entry of the row that the other driver takes. -/
theorem resolveKey_eq (s : Workq.State) (code : UInt8) :
    Workq.resolveKey s code = (Workq.keymap (if Tasklet.isLetter code
      then s.shiftPressed ^^ s.capsLockOn else s.shiftPressed)).toList[code.toNat]? := by
  unfold Workq.resolveKey
  split
  · rename_i h
    rw [← isLower_eq code h]
    simp only [Workq.isLower, Workq.keymap]
    grind
  · rename_i h
    rw [List.getElem?_eq_none]
    simpa using h

theorem typed_eq (s : Workq.State) (code : UInt8) :
    single (Workq.resolveKey s code) = Tasklet.typed s.shiftPressed s.capsLockOn code := by
  rw [resolveKey_eq, ← keymap_eq, Tasklet.typed]

theorem isLetter_lt {code : UInt8} (h : Tasklet.isLetter code) : code.toNat < 51 := by
  simp only [Tasklet.isLetter, Bool.or_eq_true, Bool.and_eq_true, decide_eq_true_eq,
    UInt8.le_iff_toNat_le] at h
  simp at h
  omega

theorem keymap_letter {code : UInt8} (h : Tasklet.isLetter code) :
    ∃ lower upper, single (Tasklet.keymap false code) = some lower ∧
      single (Tasklet.keymap true code) = some upper ∧ lower ≠ upper := by
  have hrows : ∀ n : Fin 51, Tasklet.isLetter (.ofNat n) →
      (single (Tasklet.keymap false (.ofNat n))).isSome ∧
        (single (Tasklet.keymap true (.ofNat n))).isSome ∧
          single (Tasklet.keymap false (.ofNat n)) ≠ single (Tasklet.keymap true (.ofNat n)) := by
    decide +kernel
  obtain ⟨hl, hu, hne⟩ := hrows ⟨code.toNat, isLetter_lt h⟩ (by simpa using h)
  rw [UInt8.ofNat_toNat] at hl hu hne
  obtain ⟨lower, hl⟩ := Option.isSome_iff_exists.1 hl
  obtain ⟨upper, hu⟩ := Option.isSome_iff_exists.1 hu
  refine ⟨lower, upper, hl, hu, ?_⟩
  intro he
  apply hne
  rw [hl, hu, he]

/-- What a scancode is to the drivers: a change of Shift, CapsLock pressed, a key
pressed, or a key released. -/
inductive Kind
  | shift (pressed : Bool)
  | caps
  | make
  | break
  deriving DecidableEq

def kind (scancode : UInt8) : Kind :=
  if codeOf scancode == 42 || codeOf scancode == 54 then .shift (!release scancode)
  else if release scancode then .break
  else if codeOf scancode == 58 then .caps
  else .make

def Kind.shiftPressed : Kind → Bool → Bool
  | .shift pressed, _ => pressed
  | _, b => b

def Kind.capsLockOn : Kind → Bool → Bool
  | .caps, b => !b
  | _, b => b

/-- What a scancode makes a driver print that has these modifiers on. -/
def prints (shift caps : Bool) (scancode : UInt8) : List (String × UInt8) :=
  if kind scancode = .make then
    ((Tasklet.typed shift caps (codeOf scancode)).map (·, codeOf scancode)).toList
  else []

theorem single_some (key : String) :
    single (some key) = if key.length == 1 then some key else none := by
  simp [single, Option.filter]

theorem code_lt (c : UInt8) : codeOf c < 128 := by
  have h : (c.toNat &&& 127) ≤ 127 := Nat.and_le_right
  rw [UInt8.lt_iff_toNat_lt, codeOf, UInt8.toNat_and]
  exact Nat.lt_of_le_of_lt h (by decide)

theorem Tasklet.handler_spec (s : Tasklet.State) (c : UInt8) :
    (keyboardIrqHandler s c).shiftPressed = (kind c).shiftPressed s.shiftPressed ∧
      (keyboardIrqHandler s c).capslockOn = (kind c).capsLockOn s.capslockOn ∧
        keys (keyboardIrqHandler s c) = keys s ++ prints s.shiftPressed s.capslockOn c := by
  unfold keyboardIrqHandler prints kind
  by_cases hshift : (codeOf c == 42 || codeOf c == 54) = true
  · simp [hshift, Kind.shiftPressed, Kind.capsLockOn, keys]
  cases hrel : release c with
  | true => simp [hshift, Kind.shiftPressed, Kind.capsLockOn]
  | false =>
    by_cases hcaps : (codeOf c == 58) = true
    · simp [hshift, hcaps, Kind.shiftPressed, Kind.capsLockOn, keys]
    -- only a key of one character goes to the keys
    cases hkey : keymap (if isLetter (codeOf c) then s.shiftPressed ^^ s.capslockOn
        else s.shiftPressed) (codeOf c) with
    | none => simp [hshift, hcaps, hkey, typed, single, Kind.shiftPressed, Kind.capsLockOn]
    | some key =>
      by_cases hlen : key.length = 1
      · simp [hshift, hcaps, hkey, hlen, code_lt, typed, single_some, keys, Kind.shiftPressed,
          Kind.capsLockOn]
      · simp [hshift, hcaps, hkey, hlen, code_lt, typed, single_some, keys, Kind.shiftPressed,
          Kind.capsLockOn]
        split <;> simp

theorem Workq.processKey_spec (s : Workq.State) (c : UInt8) (label : String) :
    processKey s c label = { s with
      shiftPressed := (kind c).shiftPressed s.shiftPressed
      capsLockOn := (kind c).capsLockOn s.capsLockOn
      log := s.log ++ (prints s.shiftPressed s.capsLockOn c).map fun p => ⟨label, p.1, p.2⟩ } := by
  unfold processKey prints kind
  by_cases hshift : (codeOf c == 42 || codeOf c == 54) = true
  · cases hrel : release c <;> simp [hshift, Kind.shiftPressed, Kind.capsLockOn]
  cases hrel : release c with
  | true => simp [hshift, Kind.shiftPressed, Kind.capsLockOn]
  | false =>
    by_cases hcaps : (codeOf c == 58) = true
    · simp [hshift, hcaps, Kind.shiftPressed, Kind.capsLockOn]
    rw [← typed_eq s]
    cases hkey : resolveKey s (codeOf c) with
    | none => simp [hshift, hcaps, hkey, single, Kind.shiftPressed, Kind.capsLockOn]
    | some key =>
      by_cases hlen : key.length = 1 <;>
        simp [hshift, hcaps, hkey, hlen, single_some, Kind.shiftPressed, Kind.capsLockOn]

theorem prints_modified (shift caps : Bool) (c : UInt8) :
    prints ((kind c).shiftPressed shift) ((kind c).capsLockOn caps) c = prints shift caps c := by
  cases hk : kind c <;> simp [prints, hk, Kind.shiftPressed, Kind.capsLockOn]

/-- Both works see the same modifiers when they print, and CapsLock is toggled twice. -/
theorem Workq.interrupt_spec (s : Workq.State) (c : UInt8) :
    (interrupt s c).shiftPressed = (kind c).shiftPressed s.shiftPressed ∧
      (interrupt s c).capsLockOn = s.capsLockOn ∧
        (interrupt s c).log = s.log ++
          (prints s.shiftPressed s.capsLockOn c).map (fun p => ⟨"nosleep", p.1, p.2⟩) ++
          (prints s.shiftPressed s.capsLockOn c).map (fun p => ⟨"sleep", p.1, p.2⟩) := by
  have hshift : (kind c).shiftPressed ((kind c).shiftPressed s.shiftPressed) =
      (kind c).shiftPressed s.shiftPressed := by
    cases kind c <;> rfl
  have hcaps : (kind c).capsLockOn ((kind c).capsLockOn s.capsLockOn) = s.capsLockOn := by
    cases kind c <;> simp [Kind.capsLockOn]
  simp only [interrupt, myIrqHandler, queueWork, runImmediate, runDelayed, workNosleepFn,
    workSleepFn, processKey_spec, if_true]
  exact ⟨hshift, hcaps, by rw [prints_modified]⟩

theorem Workq.keys_interrupt (s : Workq.State) (c : UInt8) {label : String}
    (hlabel : label ∈ ["nosleep", "sleep"]) :
    keys label (interrupt s c) = keys label s ++ prints s.shiftPressed s.capsLockOn c := by
  obtain ⟨-, -, hlog⟩ := interrupt_spec s c
  simp only [List.mem_cons, List.not_mem_nil, or_false] at hlabel
  rcases hlabel with rfl | rfl <;>
    simp [keys, hlog, List.filter_map, Function.comp_def]

def isLetterMake (scancode : UInt8) : Bool :=
  kind scancode = .make && Tasklet.isLetter (codeOf scancode)

/-- CapsLock only changes which letter is printed, not whether one is. -/
theorem prints_caps (shift caps : Bool) (c : UInt8) :
    (prints shift false c).length = (prints shift caps c).length ∧
      (prints shift false c = prints shift caps c ↔ ¬ (isLetterMake c ∧ caps)) := by
  unfold prints isLetterMake
  by_cases hmake : kind c = .make
  · by_cases hletter : Tasklet.isLetter (codeOf c) = true
    · obtain ⟨lower, upper, hl, hu, hne⟩ := keymap_letter hletter
      cases shift <;> cases caps <;> simp [hmake, hletter, Tasklet.typed, hl, hu, hne, hne.symm]
    · simp [hmake, hletter, Tasklet.typed]
  · simp [hmake]

theorem kind_caps_iff (c : UInt8) : kind c = .caps ↔ c = 58 := by
  have h : ∀ n : Fin 256, kind ⟨⟨n⟩⟩ = .caps ↔ (⟨⟨n⟩⟩ : UInt8) = 58 := by decide +kernel
  exact h c.toBitVec.toFin

structure Alike (cs : List UInt8) (t : Tasklet.State) (w : Workq.State) : Prop where
  shift : w.shiftPressed = t.shiftPressed
  caps : w.capsLockOn = false
  capslock : t.capslockOn = !decide (Even (cs.count 58))
  length : ∀ label ∈ ["nosleep", "sleep"],
    (Workq.keys label w).length = (Tasklet.keys t).length

theorem Alike.interrupt {cs : List UInt8} {t : Tasklet.State} {w : Workq.State}
    (h : Alike cs t w) (c : UInt8) :
    Alike (cs ++ [c]) (Tasklet.keyboardIrqHandler t c) (Workq.interrupt w c) := by
  obtain ⟨htshift, htcaps, htkeys⟩ := Tasklet.handler_spec t c
  obtain ⟨hwshift, hwcaps, -⟩ := Workq.interrupt_spec w c
  refine ⟨?_, ?_, ?_, ?_⟩
  · rw [htshift, hwshift, h.shift]
  · rw [hwcaps, h.caps]
  · rw [htcaps, h.capslock, List.count_append, List.count_singleton]
    by_cases hc : c = 58
    · rw [(kind_caps_iff c).2 hc, if_pos (by simp [hc])]
      simp only [Kind.capsLockOn, Nat.even_add_one, decide_not]
    · have hk := mt (kind_caps_iff c).1 hc
      rw [if_neg (by simpa using hc), Nat.add_zero]
      cases hkind : kind c <;> simp [Kind.capsLockOn, hkind] at hk ⊢
  · intro label hlabel
    rw [htkeys, Workq.keys_interrupt w c hlabel, List.length_append, List.length_append,
      h.length label hlabel, h.shift, h.caps, (prints_caps _ t.capslockOn c).1]

theorem alike (cs : List UInt8) : Alike cs (Tasklet.interrupts cs) (Workq.interrupts cs) := by
  induction cs using List.reverseRecOn with
  | nil => exact ⟨rfl, rfl, rfl, fun _ _ => rfl⟩
  | append_singleton cs c ih =>
    simp only [Tasklet.interrupts, Workq.interrupts, List.foldl_concat] at ih ⊢
    exact ih.interrupt c

/-- The drivers print the same keys up to the first letter typed with CapsLock on. -/
theorem drivers_agree_iff (cs : List UInt8) :
    (∀ label ∈ ["nosleep", "sleep"],
        Workq.keys label (Workq.interrupts cs) = Tasklet.keys (Tasklet.interrupts cs)) ↔
      ∀ before c after, cs = before ++ c :: after → isLetterMake c →
        Even (before.count 58) := by
  induction cs using List.reverseRecOn with
  | nil => simp [Workq.interrupts, Tasklet.interrupts, Workq.keys, Tasklet.keys, Workq.init,
      Tasklet.init]
  | append_singleton cs c ih =>
    rw [forall_split_snoc, ← ih]
    have h := alike cs
    have hkeys : ∀ label ∈ ["nosleep", "sleep"],
        (Workq.keys label (Workq.interrupts (cs ++ [c])) =
            Tasklet.keys (Tasklet.interrupts (cs ++ [c])) ↔
          Workq.keys label (Workq.interrupts cs) = Tasklet.keys (Tasklet.interrupts cs) ∧
            (isLetterMake c → Even (cs.count 58))) := by
      intro label hlabel
      simp only [Tasklet.interrupts, Workq.interrupts, List.foldl_concat] at h ⊢
      rw [Workq.keys_interrupt _ _ hlabel, (Tasklet.handler_spec _ c).2.2, h.shift, h.caps,
        h.capslock]
      rw [List.append_eq_append_iff_of_size_eq_left (h.length label hlabel), (prints_caps _ _ c).2]
      simp
    constructor
    · intro hall
      refine ⟨?_, ((hkeys "sleep" (by simp)).1 (hall "sleep" (by simp))).2⟩
      intro label hlabel
      exact ((hkeys label hlabel).1 (hall label hlabel)).1
    · intro hall label hlabel
      obtain ⟨hprev, hc⟩ := hall
      exact (hkeys label hlabel).2 ⟨hprev label hlabel, hc⟩

/-- CapsLock, then `q`. -/
theorem drivers_agree_fails :
    ¬ ∀ cs : List UInt8, ∀ label ∈ ["nosleep", "sleep"],
      Workq.keys label (Workq.interrupts cs) = Tasklet.keys (Tasklet.interrupts cs) := by
  intro h
  have hkeys := h [58, 16] "sleep" (by simp)
  have hw : Workq.keys "sleep" (Workq.interrupts [58, 16]) = [("q", 16)] := by decide +kernel
  have ht : Tasklet.keys (Tasklet.interrupts [58, 16]) = [("Q", 16)] := by decide +kernel
  rw [hw, ht] at hkeys
  exact absurd hkeys (by decide)

end OsLabs.Keyboard
