import TinySsh.Keys
import TinySsh.Lib.Decimal

/-!
# Mouse reports

An SGR report carries a code, whose bits are the button, motion, the wheel and the modifiers, the coordinates counted
from one, and a last character that tells a release. `decodeSgr` is a reader of it, and what `encodeMouse` writes is
read back (`encodeMouse_report`), except for the button that is released: its code is 3 whichever it is.
-/

namespace TinySsh

open Text

/-! ## Reading a report -/

inductive ReportKind
  | down (b : MouseButton)
  | up (b : Option MouseButton)
  | drag (b : MouseButton)
  | scrollUp | scrollDown
deriving DecidableEq

structure MouseReport where
  kind : ReportKind
  shift : Bool
  alt : Bool
  control : Bool
  column : Nat
  row : Nat
deriving DecidableEq

/-- The button in the low two bits of a code. -/
def buttonOf (code : Nat) : Option MouseButton :=
  match code % 4 with
  | 0 => some .left
  | 1 => some .middle
  | 2 => some .right
  | _ => none

def reportKind (code : Nat) (final : Char) : Option ReportKind :=
  if final = 'm' then some (.up (buttonOf code))
  else if final = 'M' then
    if code.testBit 6 then
      if code % 4 = 0 then some .scrollUp else if code % 4 = 1 then some .scrollDown else none
    else if code.testBit 5 then (buttonOf code).map .drag
    else (buttonOf code).map .down
  else none

/-- The report of `ESC [ < code ; x ; y` and a last character. -/
def decodeSgr (bytes : List UInt8) : Option MouseReport := do
  let s ← fromUtf8 bytes
  let s ← stripPrefix '\x1b' s
  let s ← stripPrefix '[' s
  let s ← stripPrefix '<' s
  let (code, s) ← number s
  let s ← stripPrefix ';' s
  let (x, s) ← number s
  let s ← stripPrefix ';' s
  let (y, s) ← number s
  let kind ← match s with
    | [final] => reportKind code final
    | _ => none
  some { kind, shift := code.testBit 2, alt := code.testBit 3, control := code.testBit 4, column := x - 1,
         row := y - 1 }

/-! ## What is written -/

/-- What a report can say of a kind: nothing of the button that is released. -/
def MouseEventKind.reported : MouseEventKind → Option ReportKind
  | .down b => some (.down b)
  | .up _ => some (.up none)
  | .drag b => some (.drag b)
  | .scrollUp => some .scrollUp
  | .scrollDown => some .scrollDown
  | .moved | .scrollLeft | .scrollRight => none

def MouseEvent.report (event : MouseEvent) : Option MouseReport :=
  event.kind.reported.map fun kind =>
    { kind, shift := event.modifiers.shift, alt := event.modifiers.alt, control := event.modifiers.control,
      column := event.column, row := event.row }

/-- The last character of a report. -/
def finalOf : MouseEventKind → Char
  | .up _ => 'm'
  | _ => 'M'

/-- The code with the bits of the modifiers. -/
def codeOf (base : Nat) (mods : KeyModifiers) : Nat :=
  let btn := if mods.shift then base ||| 4 else base
  let btn := if mods.alt then btn ||| 8 else btn
  if mods.control then btn ||| 16 else btn

variable {event : MouseEvent} {mode : TermMode} {base : Nat}

/-- The coordinates that crossterm delivers. -/
def MouseEvent.Delivered (event : MouseEvent) : Prop := event.column ≤ 65534 ∧ event.row ≤ 65534

theorem encodeMouse_eq (hd : event.Delivered) (hmode : mode.sgrMouse = true)
    (hbase : mouseBase event.kind = some base) :
    encodeMouse event mode = utf8 ('\x1b' :: '[' :: '<' :: (Nat.toDigits 10 (codeOf base event.modifiers) ++
      ';' :: (Nat.toDigits 10 (event.column + 1) ++ ';' :: (Nat.toDigits 10 (event.row + 1) ++
        [finalOf event.kind])))) := by
  obtain ⟨hcol, hrow⟩ := hd
  have hx : (event.column + 1) % 2 ^ 16 = event.column + 1 := Nat.mod_eq_of_lt (by omega)
  have hy : (event.row + 1) % 2 ^ 16 = event.row + 1 := Nat.mod_eq_of_lt (by omega)
  unfold encodeMouse codeOf
  simp only [hmode, hbase, hx, hy, Bool.not_true, Bool.false_eq_true, if_false]
  cases event.kind <;> simp [finalOf]

/-- The modifiers are the bits 2, 3 and 4 of the code. -/
theorem testBit_codeOf (base : Nat) (mods : KeyModifiers) (i : Nat) : (codeOf base mods).testBit i =
    (base.testBit i || mods.shift && i = 2 || mods.alt && i = 3 || mods.control && i = 4) := by
  have h4 : (4 : Nat).testBit i = decide (i = 2) := by
    simpa [eq_comm] using @Nat.testBit_two_pow 2 i
  have h8 : (8 : Nat).testBit i = decide (i = 3) := by
    simpa [eq_comm] using @Nat.testBit_two_pow 3 i
  have h16 : (16 : Nat).testBit i = decide (i = 4) := by
    simpa [eq_comm] using @Nat.testBit_two_pow 4 i
  unfold codeOf
  cases mods.shift <;> cases mods.alt <;> cases mods.control <;> simp [Nat.testBit_or, h4, h8, h16]

theorem codeOf_mod (base : Nat) (mods : KeyModifiers) : codeOf base mods % 4 = base % 4 := by
  have hor : ∀ n m : Nat, m % 4 = 0 → (n ||| m) % 4 = n % 4 := fun n m hm => by
    have h := @Nat.or_mod_two_pow n m 2
    simpa [hm] using h
  unfold codeOf
  cases mods.shift <;> cases mods.alt <;> cases mods.control <;> simp [hor]

/-- **The fields of the code do not overlap**: each is read back from its bits. -/
theorem codeOf_bits {kind : MouseEventKind} (hbase : mouseBase kind = some base) (mods : KeyModifiers) :
    reportKind (codeOf base mods) (finalOf kind) = kind.reported ∧ (codeOf base mods).testBit 2 = mods.shift ∧
      (codeOf base mods).testBit 3 = mods.alt ∧ (codeOf base mods).testBit 4 = mods.control := by
  have hlow : base.testBit 2 = false ∧ base.testBit 3 = false ∧ base.testBit 4 = false := by
    cases kind with
    | down b | up b | drag b => cases b <;> cases hbase <;> decide
    | scrollUp | scrollDown => cases hbase; decide
    | moved | scrollLeft | scrollRight => cases hbase
  refine ⟨?_, by simp [testBit_codeOf, hlow], by simp [testBit_codeOf, hlow], by simp [testBit_codeOf, hlow]⟩
  -- the kind is in the other bits, which the modifiers leave alone
  have hwheel : (codeOf base mods).testBit 6 = base.testBit 6 := by simp [testBit_codeOf]
  have hmotion : (codeOf base mods).testBit 5 = base.testBit 5 := by simp [testBit_codeOf]
  have hkind : reportKind (codeOf base mods) (finalOf kind) = reportKind base (finalOf kind) := by
    simp only [reportKind, buttonOf, hwheel, hmotion, codeOf_mod]
  rw [hkind]
  cases kind with
  | down b | up b | drag b => cases b <;> cases hbase <;> rfl
  | scrollUp | scrollDown => cases hbase; rfl
  | moved | scrollLeft | scrollRight => cases hbase

theorem decodeSgr_utf8 {code x y : Nat} {final : Char} {kind : ReportKind} (hfinal : final.isDigit = false)
    (hkind : reportKind code final = some kind) :
    decodeSgr (utf8 ('\x1b' :: '[' :: '<' :: (Nat.toDigits 10 code ++ ';' :: (Nat.toDigits 10 x ++ ';' ::
      (Nat.toDigits 10 y ++ [final]))))) =
      some { kind, shift := code.testBit 2, alt := code.testBit 3, control := code.testBit 4, column := x - 1,
             row := y - 1 } := by
  have hsemi : (';' : Char).isDigit = false := by decide
  have hread : ∀ n c s, c.isDigit = false → number (Nat.toDigits 10 n ++ c :: s) = some (n, c :: s) := by
    intro n c s hc
    rw [number_append (isDecimal_toDigits n) hc, decimalValue_toDigits]
  unfold decodeSgr
  simp [fromUtf8_eq_some.2 rfl, stripPrefix, hread _ _ _ hsemi, hread _ _ _ hfinal, hkind]

/-- What is sent belongs to a kind that has a code. -/
theorem exists_base (hne : encodeMouse event mode ≠ []) :
    mode.sgrMouse = true ∧ ∃ base kind, mouseBase event.kind = some base ∧ event.kind.reported = some kind := by
  unfold encodeMouse at hne
  cases hmode : mode.sgrMouse with
  | false => simp [hmode] at hne
  | true =>
    refine ⟨rfl, ?_⟩
    cases hkind : event.kind with
    | down b | drag b => cases b <;> exact ⟨_, _, rfl, rfl⟩
    | up b => exact ⟨_, _, rfl, rfl⟩
    | scrollUp | scrollDown => exact ⟨_, _, rfl, rfl⟩
    | moved | scrollLeft | scrollRight => simp [hkind, mouseBase] at hne

theorem decodeSgr_encodeMouse (hd : event.Delivered) (hne : encodeMouse event mode ≠ []) :
    ∃ r, event.report = some r ∧ decodeSgr (encodeMouse event mode) = some r := by
  obtain ⟨hmode, base, kind, hbase, hkind⟩ := exists_base hne
  obtain ⟨hcode, hshift, halt, hcontrol⟩ := codeOf_bits hbase event.modifiers
  have hfinal : (finalOf event.kind).isDigit = false := by cases event.kind <;> rfl
  refine ⟨_, by rw [MouseEvent.report, hkind]; rfl, ?_⟩
  rw [encodeMouse_eq hd hmode hbase, decodeSgr_utf8 hfinal (hcode.trans hkind), hshift, halt, hcontrol]
  rfl

/-- **An event is read back from its report**, except for the button that is released, so events that differ elsewhere
are never sent as the same bytes. -/
theorem encodeMouse_report (hd : event.Delivered) (hne : encodeMouse event mode ≠ []) :
    (∃ r, event.report = some r ∧ decodeSgr (encodeMouse event mode) = some r) ∧
      ∀ (event' : MouseEvent) (mode' : TermMode), event'.Delivered →
        encodeMouse event' mode' = encodeMouse event mode → event'.report = event.report := by
  obtain ⟨r, hr, hdecode⟩ := decodeSgr_encodeMouse hd hne
  refine ⟨⟨r, hr, hdecode⟩, fun event' mode' hd' heq => ?_⟩
  obtain ⟨r', hr', hdecode'⟩ := decodeSgr_encodeMouse hd' (heq ▸ hne)
  rw [hr, hr', ← hdecode, ← hdecode', heq]

/-- A button of the mouse and what is done with it, at the top left corner. -/
def MouseEvent.corner (kind : MouseEventKind) : MouseEvent := { kind, column := 0, row := 0 }

theorem encodeMouse_report_drag :
    (∃ r, (MouseEvent.corner (.drag .middle)).report = some r ∧
      decodeSgr (encodeMouse (.corner (.drag .middle)) { sgrMouse := true }) = some r) ∧
      ∀ (event' : MouseEvent) (mode' : TermMode), event'.Delivered →
        encodeMouse event' mode' = encodeMouse (.corner (.drag .middle)) { sgrMouse := true } →
        event'.report = (MouseEvent.corner (.drag .middle)).report :=
  encodeMouse_report ⟨by decide, by decide⟩ (by decide +kernel)

/-- A release of the left button is sent as one of the right button is. -/
theorem release_same_bytes : ¬ ∀ (event event' : MouseEvent) (mode : TermMode), event.Delivered → event'.Delivered →
    encodeMouse event mode ≠ [] → encodeMouse event mode = encodeMouse event' mode → event.kind = event'.kind := by
  intro h
  have hkind := h (.corner (.up .left)) (.corner (.up .right)) { sgrMouse := true } ⟨by decide, by decide⟩
    ⟨by decide, by decide⟩ (by decide +kernel) rfl
  cases hkind

end TinySsh
