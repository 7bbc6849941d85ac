import TinySsh.Lib.Text
import Mathlib.Algebra.Group.Nat.Defs

/-!
# Keys

The terminal events that crossterm reports and their encoding as the bytes an xterm would send (`keys.rs`).
-/

namespace TinySsh

open Text

/-! ## Key and mouse events -/

/-- The modifier flags of a key event. -/
structure KeyModifiers where
  shift : Bool := false
  control : Bool := false
  alt : Bool := false
  super : Bool := false
  hyper : Bool := false
  metaKey : Bool := false
deriving DecidableEq

def KeyModifiers.isEmpty (m : KeyModifiers) : Bool := m = {}

inductive KeyCode
  | backspace | enter | left | right | up | down | home | «end» | pageUp | pageDown | tab | backTab | delete | insert
  | f (n : Nat)
  | char (c : Char)
  | null | esc | capsLock | scrollLock | numLock | printScreen | pause | menu | keypadBegin | media | modifier
deriving DecidableEq

inductive KeyEventKind
  | press | repeat | release
deriving DecidableEq

structure KeyEvent where
  code : KeyCode
  modifiers : KeyModifiers := {}
  kind : KeyEventKind := .press
deriving DecidableEq

inductive MouseButton
  | left | right | middle
deriving DecidableEq

inductive MouseEventKind
  | down (b : MouseButton) | up (b : MouseButton) | drag (b : MouseButton)
  | moved | scrollDown | scrollUp | scrollLeft | scrollRight
deriving DecidableEq

/-- A mouse event; the coordinates are `u16`. -/
structure MouseEvent where
  kind : MouseEventKind
  column : Nat
  row : Nat
  modifiers : KeyModifiers := {}
deriving DecidableEq

/-- The mode flags of the emulator that the program reads. -/
structure TermMode where
  appCursor : Bool := false
  altScreen : Bool := false
  sgrMouse : Bool := false
  bracketedPaste : Bool := false
deriving DecidableEq

/-! ## Encoding -/

def arrow (letter : UInt8) (appCursor : Bool) : List UInt8 :=
  if appCursor then [0x1b, 0x4f, letter] else [0x1b, 0x5b, letter]

def ctrlByte (c : Char) : Option UInt8 :=
  let lower := c.toLower
  if 'a' ≤ lower ∧ lower ≤ 'z' then some (UInt8.ofNat (lower.toNat - 'a'.toNat + 1))
  else
    match lower with
    | '@' | '2' | ' ' => some 0x00
    | '[' | '3' => some 0x1b
    | '\\' | '4' => some 0x1c
    | ']' | '5' => some 0x1d
    | '^' | '6' => some 0x1e
    | '_' | '7' => some 0x1f
    | '?' | '8' => some 0x7f
    | _ => none

/-- The character itself: its UTF-8 bytes, after `ESC` under Alt. -/
def encodeText (c : Char) (mods : KeyModifiers) : List UInt8 :=
  let bytes := String.utf8EncodeChar c
  if mods.alt then 0x1b :: bytes else bytes

def encodeChar (c : Char) (mods : KeyModifiers) : List UInt8 :=
  if mods.control then
    match ctrlByte c with
    | some b => if mods.alt then [0x1b, b] else [b]
    | none => encodeText c mods
  else encodeText c mods

def fKey (n : Nat) : List UInt8 :=
  match n with
  | 1 => [0x1b, 0x4f, 0x50]
  | 2 => [0x1b, 0x4f, 0x51]
  | 3 => [0x1b, 0x4f, 0x52]
  | 4 => [0x1b, 0x4f, 0x53]
  | 5 => [0x1b, 0x5b, 0x31, 0x35, 0x7e]
  | 6 => [0x1b, 0x5b, 0x31, 0x37, 0x7e]
  | 7 => [0x1b, 0x5b, 0x31, 0x38, 0x7e]
  | 8 => [0x1b, 0x5b, 0x31, 0x39, 0x7e]
  | 9 => [0x1b, 0x5b, 0x32, 0x30, 0x7e]
  | 10 => [0x1b, 0x5b, 0x32, 0x31, 0x7e]
  | 11 => [0x1b, 0x5b, 0x32, 0x33, 0x7e]
  | 12 => [0x1b, 0x5b, 0x32, 0x34, 0x7e]
  | _ => []

/-- The bytes of a key press, empty for a key without a terminal encoding. -/
def encode (key : KeyEvent) (mode : TermMode) : List UInt8 :=
  match key.code with
  | .char c => encodeChar c key.modifiers
  | .enter => [0x0d]
  | .tab => [0x09]
  | .backTab => [0x1b, 0x5b, 0x5a]
  | .backspace => [0x7f]
  | .esc => [0x1b]
  | .left => arrow 0x44 mode.appCursor
  | .right => arrow 0x43 mode.appCursor
  | .up => arrow 0x41 mode.appCursor
  | .down => arrow 0x42 mode.appCursor
  | .home => arrow 0x48 mode.appCursor
  | .end => arrow 0x46 mode.appCursor
  | .insert => [0x1b, 0x5b, 0x32, 0x7e]
  | .delete => [0x1b, 0x5b, 0x33, 0x7e]
  | .pageUp => [0x1b, 0x5b, 0x35, 0x7e]
  | .pageDown => [0x1b, 0x5b, 0x36, 0x7e]
  | .f n => fKey n
  | _ => []

/-- The button code of a mouse event, `none` for the kinds that are not reported. -/
def mouseBase : MouseEventKind → Option Nat
  | .down .left => some 0
  | .down .middle => some 1
  | .down .right => some 2
  | .up _ => some 3
  | .drag .left => some 32
  | .drag .middle => some 33
  | .drag .right => some 34
  | .scrollUp => some 64
  | .scrollDown => some 65
  | .scrollLeft | .scrollRight => none
  | .moved => none

/-- The SGR report of a mouse event, empty when the remote has not asked for it. The coordinates are `u16` sums, which
wrap in a release build. -/
def encodeMouse (event : MouseEvent) (mode : TermMode) : List UInt8 :=
  if !mode.sgrMouse then []
  else
    match mouseBase event.kind with
    | none => []
    | some base =>
      let btn := if event.modifiers.shift then base ||| 4 else base
      let btn := if event.modifiers.alt then btn ||| 8 else btn
      let btn := if event.modifiers.control then btn ||| 16 else btn
      let x := (event.column + 1) % 2 ^ 16
      let y := (event.row + 1) % 2 ^ 16
      let suffix := match event.kind with
        | .up _ => 'm'
        | _ => 'M'
      utf8 (['\x1b', '[', '<'] ++ Nat.toDigits 10 btn ++ [';'] ++ Nat.toDigits 10 x ++ [';'] ++ Nat.toDigits 10 y ++
        [suffix])

/-! ## Keys that send something -/

theorem arrow_ne_nil (letter : UInt8) (b : Bool) : arrow letter b ≠ [] := by cases b <;> simp [arrow]

theorem encodeChar_ne_nil (c : Char) (mods : KeyModifiers) : encodeChar c mods ≠ [] := by
  have htext : encodeText c mods ≠ [] := by
    unfold encodeText
    cases mods.alt <;> simp [String.utf8EncodeChar_ne_nil]
  unfold encodeChar
  cases mods.control
  · exact htext
  · cases ctrlByte c with
    | none => exact htext
    | some b => cases mods.alt <;> simp

/-- A character without Ctrl or Alt is sent as itself. -/
theorem encodeChar_plain {c : Char} {mods : KeyModifiers} (hc : mods.control = false) (ha : mods.alt = false) :
    encodeChar c mods = String.utf8EncodeChar c := by
  simp [encodeChar, encodeText, hc, ha]

/-- A letter under Ctrl is sent as its control byte. -/
theorem encodeChar_ctrl {c : Char} {mods : KeyModifiers} {b : UInt8} (hc : mods.control = true)
    (ha : mods.alt = false) (hb : ctrlByte c = some b) : encodeChar c mods = [b] := by
  simp [encodeChar, hc, ha, hb]

end TinySsh
