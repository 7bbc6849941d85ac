import TinySsh.Keys
import Mathlib.Algebra.Group.Int.Defs

/-!
# The terminal emulator

`Terminal` (`term.rs`) wraps a VT emulator and scans the same bytes for the markers OSC 7 and OSC 133. The emulator
itself is a third-party package and a parameter here (`Vt`); the scanner is modelled byte by byte. It is a fold over the
bytes, so cutting the stream does not change what it reports (`scan_append`).
-/

namespace TinySsh

open Text

/-! ## The emulator -/

/-- A grid cell as the display iterator yields it. -/
structure Cell where
  line : Int
  c : Char
  wideCharSpacer : Bool := false
  leadingWideCharSpacer : Bool := false
deriving DecidableEq

/-- The emulator: the `Term` together with the `Processor` that parses the bytes for it. -/
class Vt (V : Type) where
  new : Nat → Nat → V
  advance : V → List UInt8 → V
  resize : V → Nat → Nat → V
  /-- Column and line of the cursor of the renderable content. -/
  point : V → Nat × Int
  mode : V → TermMode
  scrollDisplay : V → Int → V
  displayIter : V → List Cell

/-- Cutting the stream changes nothing that the emulator shows. -/
def Vt.Chunked (V : Type) [Vt V] : Prop := ∀ (v : V) (a b : List UInt8),
  point (advance v (a ++ b)) = point (advance (advance v a) b) ∧
    mode (advance v (a ++ b)) = mode (advance (advance v a) b) ∧
    displayIter (advance v (a ++ b)) = displayIter (advance (advance v a) b)

/-! ## Markers -/

/-- What the scanner reports. -/
inductive OscEvent
  | promptStart | promptEnd | commandStart | commandEnd
  | cwd (path : Str)
deriving DecidableEq

/-- `(b as char).to_digit(16)` -/
def hexDigit (b : UInt8) : Option Nat :=
  let n := b.toNat
  if 0x30 ≤ n ∧ n ≤ 0x39 then some (n - 0x30)
  else if 0x61 ≤ n ∧ n ≤ 0x66 then some (n - 0x61 + 10)
  else if 0x41 ≤ n ∧ n ≤ 0x46 then some (n - 0x41 + 10)
  else none

/-- The decoding loop of `parse_file_url`: an escape is three bytes, and each byte, escaped or not, becomes the
character of its value. -/
def percentDecode : List UInt8 → Option Str
  | [] => some []
  | b :: rest =>
    if b = 0x25 then
      match rest with
      | h :: l :: rest => do
        let high ← hexDigit h
        let low ← hexDigit l
        let decoded ← percentDecode rest
        some (Char.ofNat (high * 16 + low) :: decoded)
      | _ => none
    else (percentDecode rest).map (Char.ofNat b.toNat :: ·)

def fileScheme : Str := ['f', 'i', 'l', 'e', ':', '/', '/']

/-- The part of a file URL from the first slash after the host, or the whole text. -/
def pathPart (s : Str) : Option Str :=
  match s.dropPrefix? fileScheme with
  | some rest => (rest.findIdx? (· = '/')).map rest.drop
  | none => some s

/-- The path of an OSC 7 report. -/
def parseFileUrl (bytes : List UInt8) : Option Str := do
  let s ← fromUtf8 bytes
  let part ← pathPart s
  let decoded ← percentDecode (utf8 part)
  if decoded = [] then none else some decoded

inductive ScanState
  | plain | esc | inOsc | oscMaybeSt
deriving DecidableEq

structure OscScanner where
  state : ScanState := .plain
  payload : List UInt8 := []
deriving DecidableEq

def oscPayloadCap : Nat := 4096

namespace OscScanner

/-- The event of a complete payload. -/
def dispatch (p : List UInt8) : Option OscEvent :=
  match p.dropPrefix? [0x37, 0x3b] with
  | some rest => (parseFileUrl rest).map OscEvent.cwd
  | none =>
    match p.dropPrefix? [0x31, 0x33, 0x33, 0x3b] with
    | some rest =>
      match rest.head? with
      | some 0x41 => some .promptStart
      | some 0x42 => some .promptEnd
      | some 0x43 => some .commandStart
      | some 0x44 => some .commandEnd
      | _ => none
    | none => none

/-- One byte of the scanning loop: the next state and the event it pushes. -/
def scanByte (s : OscScanner) (b : UInt8) : OscScanner × Option OscEvent :=
  match s.state with
  | .plain => if b = 0x1b then ({ s with state := .esc }, none) else (s, none)
  | .esc => if b = 0x5d then (⟨.inOsc, []⟩, none) else ({ s with state := .plain }, none)
  | .inOsc =>
    if b = 0x07 then (⟨.plain, []⟩, dispatch s.payload)
    else if b = 0x1b then ({ s with state := .oscMaybeSt }, none)
    else if s.payload.length < oscPayloadCap then ({ s with payload := s.payload ++ [b] }, none)
    else (s, none)
  | .oscMaybeSt => (⟨.plain, []⟩, if b = 0x5c then dispatch s.payload else none)

/-- The scanning loop, pushing events onto `out`. -/
def scan (s : OscScanner) (bytes : List UInt8) (out : List OscEvent) : OscScanner × List OscEvent :=
  bytes.foldl (fun p b => ((scanByte p.1 b).1, p.2 ++ (scanByte p.1 b).2.toList)) (s, out)

/-- The scanner after the bytes. -/
def after (s : OscScanner) (bytes : List UInt8) : OscScanner := (scan s bytes []).1

/-- The events of the bytes. -/
def events (s : OscScanner) (bytes : List UInt8) : List OscEvent := (scan s bytes []).2

variable {s : OscScanner} {a b bytes : List UInt8}

theorem scan_out (out : List OscEvent) : scan s bytes out = (s.after bytes, out ++ s.events bytes) := by
  unfold after events
  induction bytes generalizing s out with
  | nil => simp [scan]
  | cons b bytes ih =>
    have hcons : ∀ o, scan s (b :: bytes) o = scan (scanByte s b).1 bytes (o ++ (scanByte s b).2.toList) := fun _ => rfl
    rw [hcons, hcons, ih, ih ([] ++ _)]
    simp

/-- **The scanner does not see where the stream is cut.** -/
theorem scan_append :
    s.after (a ++ b) = (s.after a).after b ∧ s.events (a ++ b) = s.events a ++ (s.after a).events b := by
  have h : scan s (a ++ b) [] = scan (s.after a) b (s.events a) := by
    unfold after events scan
    rw [List.foldl_append]
  rw [scan_out, scan_out] at h
  simpa [Prod.ext_iff] using h

end OscScanner

/-! ## `Terminal` -/

structure Terminal (V : Type) where
  inner : V
  oscScanner : OscScanner := {}
  pendingOsc : List OscEvent := []

/-- The state of the loop that gathers cells into rows: the finished rows, the line of the row under way (`i32::MIN`
before the first cell) and its text. -/
structure RowState where
  lines : List Str := []
  currentLine : Int := -2 ^ 31
  currentText : Str := []

/-- One cell of the loop of `screen_text`. -/
def RowState.push (st : RowState) (cell : Cell) : RowState :=
  let st :=
    if cell.line ≠ st.currentLine then
      { lines := if st.currentLine ≠ -2 ^ 31 then st.lines ++ [trimEnd st.currentText] else st.lines,
        currentLine := cell.line, currentText := [] }
    else st
  if cell.wideCharSpacer || cell.leadingWideCharSpacer then st
  else { st with currentText := st.currentText ++ [cell.c] }

namespace Terminal

variable {V : Type} [Vt V]

def new (cols rows : Nat) : Terminal V := { inner := Vt.new (max cols 1) (max rows 1) }

def feed (t : Terminal V) (bytes : List UInt8) : Terminal V :=
  let (scanner, pending) := t.oscScanner.scan bytes t.pendingOsc
  { inner := Vt.advance t.inner bytes, oscScanner := scanner, pendingOsc := pending }

def resize (t : Terminal V) (cols rows : Nat) : Terminal V :=
  { t with inner := Vt.resize t.inner (max cols 1) (max rows 1) }

/-- The cursor as `(col, line)`, both cast to `u16`. -/
def cursor (t : Terminal V) : Nat × Nat :=
  let p := Vt.point t.inner
  (p.1 % 2 ^ 16, (max p.2 0).toNat % 2 ^ 16)

def mode (t : Terminal V) : TermMode := Vt.mode t.inner

def isAltScreen (t : Terminal V) : Bool := t.mode.altScreen

/-- The queued events, and the terminal without them. -/
def takeOscEvents (t : Terminal V) : List OscEvent × Terminal V := (t.pendingOsc, { t with pendingOsc := [] })

def scrollDisplay (t : Terminal V) (lines : Int) : Terminal V := { t with inner := Vt.scrollDisplay t.inner lines }

def screenText (t : Terminal V) : List Str :=
  let st := (Vt.displayIter t.inner).foldl RowState.push {}
  if st.currentLine ≠ -2 ^ 31 then st.lines ++ [trimEnd st.currentText] else st.lines

theorem feed_eq (t : Terminal V) (bytes : List UInt8) :
    t.feed bytes = { inner := Vt.advance t.inner bytes, oscScanner := t.oscScanner.after bytes,
                     pendingOsc := t.pendingOsc ++ t.oscScanner.events bytes } := by
  simp [feed, OscScanner.scan_out]

end Terminal

/-! ## A small emulator -/

/-- Where the parser of `MiniVt` is. -/
inductive MiniState
  | ground | esc
  | csi (params : List UInt8)
  | osc | oscEsc
deriving DecidableEq

/-- An emulator for ASCII text, carriage returns, newlines, OSC strings and the switch to the alternate screen. -/
structure MiniVt where
  cols : Nat
  rows : Nat
  col : Nat := 0
  row : Nat := 0
  altScreen : Bool := false
  state : MiniState := .ground
deriving DecidableEq

def MiniVt.advanceByte (v : MiniVt) (b : UInt8) : MiniVt :=
  match v.state with
  | .ground =>
    if b = 0x1b then { v with state := .esc }
    else if b = 0x0d then { v with col := 0 }
    else if b = 0x0a then { v with row := min (v.row + 1) (v.rows - 1) }
    else if 0x20 ≤ b ∧ b < 0x7f then { v with col := min (v.col + 1) (v.cols - 1) }
    else v
  | .esc =>
    if b = 0x5b then { v with state := .csi [] }
    else if b = 0x5d then { v with state := .osc }
    else { v with state := .ground }
  | .csi params =>
    -- a final byte ends the sequence; `?1049h` and `?1049l` are the only ones obeyed
    if 0x40 ≤ b ∧ b < 0x7f then
      if params = [0x3f, 0x31, 0x30, 0x34, 0x39] ∧ (b = 0x68 ∨ b = 0x6c) then
        { v with altScreen := b = 0x68, state := .ground }
      else { v with state := .ground }
    else { v with state := .csi (params ++ [b]) }
  | .osc => if b = 0x07 then { v with state := .ground } else if b = 0x1b then { v with state := .oscEsc } else v
  | .oscEsc => { v with state := .ground }

instance : Vt MiniVt where
  new cols rows := { cols, rows }
  advance v bytes := bytes.foldl MiniVt.advanceByte v
  resize v cols rows := { v with cols, rows, col := min v.col (cols - 1), row := min v.row (rows - 1) }
  point v := (v.col, v.row)
  mode v := { altScreen := v.altScreen }
  scrollDisplay v _ := v
  displayIter _ := []

theorem MiniVt.chunked : Vt.Chunked MiniVt := fun _ _ _ => by simp [Vt.advance]

end TinySsh
