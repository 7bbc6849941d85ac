import TinySsh.Keys.Mouse
import TinySsh.Lib.Cut

/-!
# Keystrokes in a stream

The remote gets the encodings of keys and the reports of the mouse one after another. `keystroke` cuts the first one
off: a control sequence ends with its final byte, `ESC O` takes one more byte, any other `ESC` belongs to the character
after it, and text goes character by character. It finds every encoding in front of anything but three: `ESC` itself,
and the two Alt combinations that start a sequence (`keystroke_iff`). Without these, the stream determines what was
encoded (`keystrokes_unique`).
-/

namespace TinySsh.Keystroke

open Text

/-! ## Reading -/

/-- The length of a character, from its first byte. -/
def charLen (b : UInt8) : Nat := if b < 0xc0 then 1 else if b < 0xe0 then 2 else if b < 0xf0 then 3 else 4

def takeChar : List UInt8 → Option (List UInt8 × List UInt8)
  | [] => none
  | b :: rest => some ((b :: rest).splitAt (charLen b))

/-- The last byte of a control sequence. -/
def isFinal (b : UInt8) : Bool := 0x40 ≤ b && b < 0x7f

/-- The rest of a control sequence. -/
def takeSequence : List UInt8 → Option (List UInt8 × List UInt8)
  | [] => none
  | b :: rest => if isFinal b then some ([b], rest) else (takeSequence rest).map fun p => (b :: p.1, p.2)

/-- The first keystroke. -/
def keystroke : List UInt8 → Option (List UInt8 × List UInt8)
  | [] => none
  | b :: rest =>
    if b = 0x1b then
      match rest with
      | [] => some ([b], [])
      | c :: tail =>
        if c = 0x5b then (takeSequence tail).map fun p => (b :: c :: p.1, p.2)
        else if c = 0x4f then some (b :: c :: tail.take 1, tail.drop 1)
        else (takeChar rest).map fun p => (b :: p.1, p.2)
    else takeChar (b :: rest)

/-! ## What is written -/

/-- The shapes of an encoding. -/
inductive Word : List UInt8 → Prop
  | text (c : Char) : Word (String.utf8EncodeChar c)
  | alt (c : Char) : Word (0x1b :: String.utf8EncodeChar c)
  | sequence {params : List UInt8} {final : UInt8} (hp : ∀ b ∈ params, isFinal b = false) (hf : isFinal final = true) :
      Word (0x1b :: 0x5b :: (params ++ [final]))
  | single (b : UInt8) : Word [0x1b, 0x4f, b]

/-- The words that also start longer ones. -/
def Ambiguous (w : List UInt8) : Prop := w = [0x1b] ∨ w = [0x1b, 0x5b] ∨ w = [0x1b, 0x4f]

instance : DecidablePred Ambiguous := fun w => inferInstanceAs (Decidable (w = _ ∨ w = _ ∨ w = _))

theorem charLen_utf8 {c : Char} {b : UInt8} {bytes : List UInt8} (h : String.utf8EncodeChar c = b :: bytes) :
    charLen b = (b :: bytes).length := by
  have hval := c.val.toNat_lt
  revert h
  fun_cases String.utf8EncodeChar c <;> intro h <;> obtain ⟨rfl, rfl⟩ := List.cons.inj h <;>
    simp only [charLen, UInt8.lt_iff_toNat_lt, UInt8.toNat_ofNat', UInt8.reduceToNat, List.length_cons,
      List.length_nil] <;>
    split_ifs <;> omega

/-- A character is cut off by its first byte. -/
theorem takeChar_utf8 (c : Char) (rest : List UInt8) :
    takeChar (String.utf8EncodeChar c ++ rest) = some (String.utf8EncodeChar c, rest) := by
  obtain ⟨b, bytes, hb⟩ := List.exists_cons_of_ne_nil (String.utf8EncodeChar_ne_nil (c := c))
  have hsplit : takeChar (b :: bytes ++ rest) = some ((b :: bytes ++ rest).splitAt (charLen b)) := rfl
  rw [hb, hsplit, charLen_utf8 hb, List.splitAt_eq, List.take_left, List.drop_left]

theorem takeSequence_append {params : List UInt8} {final : UInt8} (hp : ∀ b ∈ params, isFinal b = false)
    (hf : isFinal final = true) (rest : List UInt8) :
    takeSequence (params ++ [final] ++ rest) = some (params ++ [final], rest) := by
  induction params with
  | nil => exact if_pos hf
  | cons b params ih =>
    obtain ⟨hb, hrest⟩ := List.forall_mem_cons.1 hp
    rw [List.cons_append, List.cons_append, takeSequence, hb, ih hrest]
    rfl

/-- An ASCII byte in front is the whole character. -/
theorem utf8_of_ascii {c : Char} {b : UInt8} {bytes : List UInt8} (h : String.utf8EncodeChar c = b :: bytes)
    (hb : b.toNat < 0x80) : String.utf8EncodeChar c = [b] := by
  by_cases hc : IsAscii c
  · have hone := utf8EncodeChar_ascii hc
    rw [h] at hone ⊢
    rw [(List.cons.inj hone).2]
  · exact absurd (utf8EncodeChar_nonascii hc (h ▸ List.mem_cons_self)) (by omega)

/-- **A word that starts no other is found in front of anything.** -/
theorem found_of_word {w : List UInt8} (h : Word w) (ha : ¬Ambiguous w) : Cut.Found keystroke w := by
  intro rest
  cases h with
  | text c =>
    have htake := takeChar_utf8 c rest
    obtain ⟨b, bytes, hb⟩ := List.exists_cons_of_ne_nil (String.utf8EncodeChar_ne_nil (c := c))
    have hesc : b ≠ 0x1b := by
      rintro rfl
      exact ha (.inl (utf8_of_ascii hb (by decide)))
    rw [hb, List.cons_append] at htake ⊢
    simp only [keystroke, hesc, if_false, htake]
  | alt c =>
    have htake := takeChar_utf8 c rest
    obtain ⟨b, bytes, hb⟩ := List.exists_cons_of_ne_nil (String.utf8EncodeChar_ne_nil (c := c))
    have hopen : b ≠ 0x5b := by
      rintro rfl
      exact ha (.inr (.inl (congrArg (0x1b :: ·) (utf8_of_ascii hb (by decide)))))
    have hshift : b ≠ 0x4f := by
      rintro rfl
      exact ha (.inr (.inr (congrArg (0x1b :: ·) (utf8_of_ascii hb (by decide)))))
    rw [hb] at htake ⊢
    rw [List.cons_append] at htake ⊢
    rw [List.cons_append]
    simp only [keystroke, if_true, hopen, hshift, if_false, htake, Option.map_some]
  | sequence hp hf =>
    simp only [List.cons_append, keystroke, if_true, takeSequence_append hp hf rest, Option.map_some]
  | single b => rfl

/-- The words that start longer ones are not. -/
theorem not_found_of_ambiguous {w : List UInt8} (ha : Ambiguous w) : ¬Cut.Found keystroke w := by
  intro h
  have hrest := h [0x41]
  rcases ha with rfl | rfl | rfl <;> cases hrest

/-! ## What is encoded -/

theorem utf8_byte {b : UInt8} (hb : b.toNat < 0x80) : String.utf8EncodeChar (Char.ofNat b.toNat) = [b] := by
  have hvalid : b.toNat.isValidChar := .inl (by omega)
  have hnat : (Char.ofNat b.toNat).toNat = b.toNat := by
    rw [Char.toNat, Char.ofNat, dif_pos hvalid]
    rfl
  have hascii : IsAscii (Char.ofNat b.toNat) := by
    rw [IsAscii, hnat]
    exact hb
  rw [utf8EncodeChar_ascii hascii, hnat, UInt8.ofNat_toNat]

theorem ctrlByte_lt {c : Char} {b : UInt8} (h : ctrlByte c = some b) : b.toNat < 0x80 := by
  unfold ctrlByte at h
  dsimp only at h
  split at h
  · rename_i hletter
    obtain rfl := Option.some.inj h
    have hz : c.toLower.toNat ≤ 'z'.toNat := hletter.2
    have hnum : 'z'.toNat = 122 ∧ 'a'.toNat = 97 := ⟨rfl, rfl⟩
    rw [UInt8.toNat_ofNat']
    omega
  · split at h <;> cases h <;> decide

theorem word_text (c : Char) (mods : KeyModifiers) : Word (encodeText c mods) := by
  unfold encodeText
  cases mods.alt with
  | false => exact .text c
  | true => exact .alt c

theorem word_char (c : Char) (mods : KeyModifiers) : Word (encodeChar c mods) := by
  unfold encodeChar
  cases mods.control with
  | false => exact word_text c mods
  | true =>
    cases hb : ctrlByte c with
    | none => exact word_text c mods
    | some b =>
      have hbyte := utf8_byte (ctrlByte_lt hb)
      cases mods.alt with
      | false =>
        have hword := Word.text (Char.ofNat b.toNat)
        rwa [hbyte] at hword
      | true =>
        have hword := Word.alt (Char.ofNat b.toNat)
        rwa [hbyte] at hword

theorem word_params (params : List UInt8) (final : UInt8) (hp : params.all (fun b => !isFinal b) = true)
    (hf : isFinal final = true) : Word (0x1b :: 0x5b :: (params ++ [final])) :=
  .sequence (fun b hb => by simpa using List.all_eq_true.1 hp b hb) hf

theorem word_arrow {letter : UInt8} (hl : isFinal letter = true) (appCursor : Bool) :
    Word (arrow letter appCursor) := by
  cases appCursor with
  | false => exact word_params [] letter rfl hl
  | true => exact .single letter

theorem word_fKey {n : Nat} (hne : fKey n ≠ []) : Word (fKey n) := by
  unfold fKey at hne ⊢
  split at hne
  iterate 4 exact .single _
  iterate 8 exact word_params [_, _] _ rfl rfl
  exact absurd rfl hne

/-- **A key is sent as one word**, or as nothing. -/
theorem word_encode {key : KeyEvent} {mode : TermMode} (hne : encode key mode ≠ []) : Word (encode key mode) := by
  unfold encode at hne ⊢
  cases hcode : key.code <;> rw [hcode] at hne <;> dsimp only at hne ⊢
  case char c => exact word_char c key.modifiers
  case enter => exact .text '\r'
  case tab => exact .text '\t'
  case backspace => exact .text '\x7f'
  case esc => exact .text '\x1b'
  case backTab => exact word_params [] _ rfl rfl
  case insert | delete | pageUp | pageDown => exact word_params [_] _ rfl rfl
  case left | right | up | down | home | «end» => exact word_arrow (by decide) mode.appCursor
  case f n => exact word_fKey hne
  all_goals exact absurd rfl hne

/-- Digits and the marks between them end no sequence. -/
theorem isFinal_utf8 {s : Str} (hs : ∀ c ∈ s, c.toNat < 0x40) : ∀ b ∈ utf8 s, isFinal b = false := by
  intro b hb
  obtain ⟨c, hc, hbc⟩ := List.mem_flatMap.1 hb
  have hlt := hs c hc
  have hascii : IsAscii c := by
    unfold IsAscii
    omega
  rw [utf8EncodeChar_ascii hascii, List.mem_singleton] at hbc
  have hsmall : ¬0x40 ≤ b := by
    simp only [hbc, UInt8.le_iff_toNat_le, UInt8.toNat_ofNat', UInt8.reduceToNat]
    omega
  simp [isFinal, hsmall]

theorem toDigits_lt {n : Nat} {c : Char} (hc : c ∈ Nat.toDigits 10 n) : c.toNat < 0x40 := by
  have hd := Char.isDigit_iff_toNat.1 (Nat.isDigit_of_mem_toDigits (by decide) (by decide) hc)
  have hnum : '9'.toNat = 57 := rfl
  omega

/-- **A report of the mouse is one word**, or it is not sent. -/
theorem word_mouse {event : MouseEvent} {mode : TermMode} (hne : encodeMouse event mode ≠ []) :
    Word (encodeMouse event mode) := by
  obtain ⟨hmode, base, -, hbase, -⟩ := exists_base hne
  obtain ⟨params, hp, heq⟩ : ∃ params : Str, (∀ c ∈ params, c.toNat < 0x40) ∧
      encodeMouse event mode = utf8 (['\x1b', '['] ++ params ++ [finalOf event.kind]) := by
    refine ⟨'<' :: (Nat.toDigits 10 (codeOf base event.modifiers) ++ ';' ::
      (Nat.toDigits 10 ((event.column + 1) % 2 ^ 16) ++ ';' :: Nat.toDigits 10 ((event.row + 1) % 2 ^ 16))), ?_, ?_⟩
    · simp only [List.mem_cons, List.mem_append]
      rintro c (rfl | hc | rfl | hc | rfl | hc)
      · decide
      · exact toDigits_lt hc
      · decide
      · exact toDigits_lt hc
      · decide
      · exact toDigits_lt hc
    · unfold encodeMouse codeOf
      simp only [hmode, hbase, Bool.not_true, Bool.false_eq_true, if_false]
      cases event.kind <;> simp [finalOf]
  have hfinal : ∃ final, utf8 [finalOf event.kind] = [final] ∧ isFinal final = true := by
    cases event.kind with
    | up => exact ⟨0x6d, rfl, rfl⟩
    | _ => exact ⟨0x4d, rfl, rfl⟩
  obtain ⟨final, hbyte, hf⟩ := hfinal
  have hopen : utf8 ['\x1b', '['] = [0x1b, 0x5b] := rfl
  rw [heq, utf8_append, utf8_append, hbyte, hopen]
  exact @Word.sequence (utf8 params) final (isFinal_utf8 hp) hf

/-! ## Streams -/

/-- A key or a mouse event. -/
inductive Stroke
  | key (key : KeyEvent)
  | mouse (event : MouseEvent)

def Stroke.bytes : Stroke → TermMode → List UInt8
  | .key k, mode => encode k mode
  | .mouse event, mode => encodeMouse event mode

theorem word_bytes {e : Stroke} {mode : TermMode} (hne : e.bytes mode ≠ []) : Word (e.bytes mode) := by
  cases e with
  | key k => exact @word_encode k mode hne
  | mouse event => exact @word_mouse event mode hne

/-- **The remote finds a keystroke in front of anything exactly when it is not `ESC`, Alt with `[` or Alt with `O`.** -/
theorem keystroke_iff (e : Stroke) (mode : TermMode) (hne : e.bytes mode ≠ []) :
    Cut.Found keystroke (e.bytes mode) ↔ ¬Ambiguous (e.bytes mode) :=
  ⟨fun h ha => not_found_of_ambiguous ha h, found_of_word (word_bytes hne)⟩

theorem keystroke_up : Cut.Found keystroke (Stroke.bytes (.key { code := .up }) {}) :=
  (keystroke_iff (.key { code := .up }) {} (by decide)).2 (by decide)

/-- What is sent for events one after another, each with the mode at its time. -/
def strokeBytes (l : List (Stroke × TermMode)) : List UInt8 := l.flatMap fun e => e.1.bytes e.2

/-- The keystrokes of it. -/
def strokes (l : List (Stroke × TermMode)) : List (List UInt8) := (l.map fun e => e.1.bytes e.2).filter (· ≠ [])

theorem strokeBytes_eq (l : List (Stroke × TermMode)) : strokeBytes l = (strokes l).flatten := by
  rw [strokes, List.flatten_filter_ne_nil]
  rfl

theorem found_of_strokes {l : List (Stroke × TermMode)} (h : ∀ w ∈ strokes l, ¬Ambiguous w) :
    ∀ w ∈ strokes l, w ≠ [] ∧ Cut.Found keystroke w := by
  intro w hw
  obtain ⟨hmem, hne⟩ := List.mem_filter.1 hw
  have hne := of_decide_eq_true hne
  obtain ⟨e, -, rfl⟩ := List.mem_map.1 hmem
  exact ⟨hne, found_of_word (word_bytes hne) (h _ hw)⟩

/-- **What the remote gets determines the keystrokes**: without the ambiguous ones, different keystrokes never make the
same stream. -/
theorem keystrokes_unique (l l' : List (Stroke × TermMode)) (h : ∀ w ∈ strokes l, ¬Ambiguous w)
    (h' : ∀ w ∈ strokes l', ¬Ambiguous w) : strokeBytes l = strokeBytes l' ↔ strokes l = strokes l' := by
  rw [strokeBytes_eq, strokeBytes_eq]
  exact ⟨Cut.flatten_injective (found_of_strokes h) (found_of_strokes h'), congrArg List.flatten⟩

/-- Tab and Ctrl with `i` are one keystroke. -/
theorem keystrokes_unique_tab :
    strokes [(.key { code := .tab }, {}), (.key { code := .up }, {})] =
      strokes [(.key { code := .char 'i', modifiers := { control := true } }, {}), (.key { code := .up }, {})] :=
  (keystrokes_unique _ _ (by decide) (by decide)).1 rfl

end TinySsh.Keystroke
