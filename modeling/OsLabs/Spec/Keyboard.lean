import Mathlib.Data.List.Basic
import OsLabs.Lib.Held

/-! The two keyboard drivers, `lab-irq/task-01/tasklet.c` and `lab-irq/task-02/wq.c`.
A scancode is the byte read from port `0x60`; what a driver prints is appended to its
log. -/

namespace OsLabs.Keyboard

/-- `scancode & 0x7F`. -/
def codeOf (scancode : UInt8) : UInt8 := scancode &&& 0x7F

/-- `scancode & 0x80`. -/
def release (scancode : UInt8) : Bool := scancode &&& 0x80 != 0

/-- The two keys that `shift_pressed` stands for. -/
def shiftKeys : List UInt8 := [42, 54]

/-- The last scancode of one of the two was a make code. -/
def shiftHeld (cs : List UInt8) : Bool := shiftKeys.any (Held.held codeOf (!release ·) cs)

/-- The last break code of the two, if no make code follows it, comes when the other key
is up. -/
def ShiftReleasedAlone (cs : List UInt8) : Prop :=
  Held.ReleasedAlone codeOf (!release ·) shiftKeys cs

namespace Tasklet

def keymapLower : List String := [
  "", "Esc", "1", "2", "3", "4", "5", "6", "7", "8", "9", "0", "-", "=", "Backspace",
  "Tab", "q", "w", "e", "r", "t", "y", "u", "i", "o", "p", "[", "]", "Enter", "Ctrl",
  "a", "s", "d", "f", "g", "h", "j", "k", "l", ";", "'", "`", "Shift",
  "\\", "z", "x", "c", "v", "b", "n", "m", ",", ".", "/", "Shift",
  "*", "Alt", " ", "CapsLock",
  "F1", "F2", "F3", "F4", "F5", "F6", "F7", "F8", "F9", "F10",
  "NumLock", "ScrollLock", "Home", "Up", "PageUp", "-", "Left", "Center", "Right", "+",
  "End", "Down", "PageDown", "Insert", "Delete", "", "", "", "", "", "", "", "", "", "", "", ""]

def keymapUpper : List String := [
  "", "Esc", "!", "@", "#", "$", "%", "^", "&", "*", "(", ")", "_", "+", "Backspace",
  "Tab", "Q", "W", "E", "R", "T", "Y", "U", "I", "O", "P", "\x7b", "\x7d", "Enter", "Ctrl",
  "A", "S", "D", "F", "G", "H", "J", "K", "L", ":", "\"", "~", "Shift",
  "|", "Z", "X", "C", "V", "B", "N", "M", "<", ">", "?", "Shift",
  "*", "Alt", " ", "CapsLock",
  "F1", "F2", "F3", "F4", "F5", "F6", "F7", "F8", "F9", "F10",
  "NumLock", "ScrollLock", "Home", "Up", "PageUp", "-", "Left", "Center", "Right", "+",
  "End", "Down", "PageDown", "Insert", "Delete", "", "", "", "", "", "", "", "", "", "", "", ""]

/-- `keymap[shift][code]`. The initialisers stop short of the 128 entries a row has,
the others are null pointers. -/
def keymap (shift : Bool) (code : UInt8) : Option String :=
  (if shift then keymapUpper else keymapLower)[code.toNat]?

inductive Printk
  | key (key : String) (code : UInt8)
  | special (key : String)
  deriving DecidableEq

structure State where
  shiftPressed : Bool
  capslockOn : Bool
  log : List Printk
  deriving DecidableEq

def init : State := ⟨false, false, []⟩

def isLetter (code : UInt8) : Bool :=
  (code ≥ 16 && code ≤ 25) || (code ≥ 30 && code ≤ 38) || (code ≥ 44 && code ≤ 50)

def keyboardIrqHandler (s : State) (scancode : UInt8) : State :=
  let code := codeOf scancode
  let release := release scancode
  if code == 42 || code == 54 then
    { s with shiftPressed := !release }
  else if !release && code == 58 then
    { s with capslockOn := s.capslockOn ^^ true }
  else if !release && code < 128 then
    let shift := if isLetter code then s.shiftPressed ^^ s.capslockOn else s.shiftPressed
    match keymap shift code with
    | some key =>
      if key.length == 1 then { s with log := s.log ++ [.key key code] }
      else if key.length > 1 then { s with log := s.log ++ [.special key] }
      else s
    | none => s
  else s

def interrupts (cs : List UInt8) : State := cs.foldl keyboardIrqHandler init

def keys (s : State) : List (String × UInt8) :=
  s.log.filterMap fun
    | .key key code => some (key, code)
    | .special _ => none

end Tasklet

namespace Workq

def keymapLower : Vector String 84 := #v[
  "", "ESC", "1", "2", "3", "4", "5", "6", "7", "8", "9", "0", "-", "=", "Backspace",
  "Tab", "q", "w", "e", "r", "t", "y", "u", "i", "o", "p", "[", "]", "Enter", "Ctrl",
  "a", "s", "d", "f", "g", "h", "j", "k", "l", ";", "'", "`", "Shift", "\\",
  "z", "x", "c", "v", "b", "n", "m", ",", ".", "/", "Shift",
  "*", "Alt", " ", "CapsLock",
  "F1", "F2", "F3", "F4", "F5", "F6", "F7", "F8", "F9", "F10",
  "NumLock", "ScrollLock", "Home", "Up", "PageUp", "-", "Left",
  "", "Right", "+", "End", "Down", "PageDown", "Insert", "Delete"]

def keymapUpper : Vector String 84 := #v[
  "", "ESC", "!", "@", "#", "$", "%", "^", "&", "*", "(", ")", "_", "+", "Backspace",
  "Tab", "Q", "W", "E", "R", "T", "Y", "U", "I", "O", "P", "\x7b", "\x7d", "Enter", "Ctrl",
  "A", "S", "D", "F", "G", "H", "J", "K", "L", ":", "\"", "~", "Shift", "|",
  "Z", "X", "C", "V", "B", "N", "M", "<", ">", "?", "Shift",
  "*", "Alt", " ", "CapsLock",
  "F1", "F2", "F3", "F4", "F5", "F6", "F7", "F8", "F9", "F10",
  "NumLock", "ScrollLock", "Home", "Up", "PageUp", "-", "Left",
  "", "Right", "+", "End", "Down", "PageDown", "Insert", "Delete"]

structure KeyWork where
  scancode : UInt8
  pending : Bool
  deriving DecidableEq

structure Printk where
  label : String
  key : String
  code : UInt8
  deriving DecidableEq

structure State where
  shiftPressed : Bool
  capsLockOn : Bool
  workImmediate : KeyWork
  workDelayed : KeyWork
  log : List Printk
  deriving DecidableEq

/-- The scancodes of the two works are not read before an interrupt has set them. -/
def init : State := ⟨false, false, ⟨0, false⟩, ⟨0, false⟩, []⟩

def resolveKey (s : State) (code : UInt8) : Option String :=
  if h : code.toNat < 84 then
    let first := keymapLower[code.toNat].toList.headD '\x00'
    if first ≥ 'a' && first ≤ 'z' then
      let upper := s.shiftPressed ^^ s.capsLockOn
      some (if upper then keymapUpper[code.toNat] else keymapLower[code.toNat])
    else
      some (if s.shiftPressed then keymapUpper[code.toNat] else keymapLower[code.toNat])
  else none

def processKey (s : State) (code : UInt8) (label : String) : State :=
  let released := release code
  let scancode := codeOf code
  if !released && (scancode == 42 || scancode == 54) then
    { s with shiftPressed := true }
  else if !released && scancode == 58 then
    { s with capsLockOn := !s.capsLockOn }
  else if released && (scancode == 42 || scancode == 54) then
    { s with shiftPressed := false }
  else if !released then
    match resolveKey s scancode with
    | some key =>
      if key.length == 1 then { s with log := s.log ++ [⟨label, key, scancode⟩] } else s
    | none => s
  else s

def workNosleepFn (s : State) : State := processKey s s.workImmediate.scancode "nosleep"

def workSleepFn (s : State) : State := processKey s s.workDelayed.scancode "sleep"

def queueWork (w : KeyWork) : KeyWork := { w with pending := true }

/-- The handler is only registered for the keyboard's line. -/
def myIrqHandler (s : State) (code : UInt8) : State :=
  { s with
    workImmediate := queueWork { s.workImmediate with scancode := code }
    workDelayed := queueWork { s.workDelayed with scancode := code } }

/-- A work that the queue takes up is no longer pending. -/
def runImmediate (s : State) : State :=
  if s.workImmediate.pending then
    workNosleepFn { s with workImmediate := { s.workImmediate with pending := false } }
  else s

def runDelayed (s : State) : State :=
  if s.workDelayed.pending then
    workSleepFn { s with workDelayed := { s.workDelayed with pending := false } }
  else s

/-- One interrupt, whose works are both done before the next. -/
def interrupt (s : State) (code : UInt8) : State :=
  runDelayed (runImmediate (myIrqHandler s code))

def interrupts (cs : List UInt8) : State := cs.foldl interrupt init

def keys (label : String) (s : State) : List (String × UInt8) :=
  (s.log.filter (·.label == label)).map fun p => (p.key, p.code)

end Workq

end OsLabs.Keyboard
