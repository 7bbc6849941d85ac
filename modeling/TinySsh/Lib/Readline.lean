import TinySsh.Lib.Text
import TinySsh.Lib.Zipper
import Mathlib.Data.List.Infix

/-!
# A readline editor

A line editor that is driven by bytes, with the default emacs bindings of the keys that edit one line. Control bytes and
escape sequences are looked up in `keymap`; any other byte starts the UTF-8 encoding of a character, which inserts
itself. What counts as white space to `unix-word-rubout` is a parameter `ws`.

The sequences of bytes that stand for a command are a prefix code (`Word`): fed one after another, each runs its command
and nothing else (`receive_word`).
-/

namespace Readline

open Text

/-! ## Commands -/

inductive Command
  | selfInsert (c : Char)
  | backwardChar | forwardChar | beginningOfLine | endOfLine
  | backwardDeleteChar | deleteChar
  | killLine | unixLineDiscard | unixWordRubout
  | acceptLine
deriving DecidableEq

variable (ws : Char → Bool)

/-- The line after a command that edits it. -/
def Command.edit : Command → Zipper Char → Zipper Char
  | .selfInsert c => fun z => z.insert c
  | .backwardChar => Zipper.left
  | .forwardChar => Zipper.right
  | .beginningOfLine => Zipper.home
  | .endOfLine => Zipper.toEnd
  | .backwardDeleteChar => Zipper.deleteBefore
  | .deleteChar => Zipper.deleteUnder
  | .killLine => Zipper.killAfter
  | .unixLineDiscard => Zipper.killBefore
  | .unixWordRubout => Zipper.killWord ws
  | .acceptLine => Zipper.clear

/-! ## Key sequences -/

/-- The bindings; the keys that move the cursor send a second sequence in application mode. -/
def keymap : List (List UInt8 × Command) :=
  [([0x01], .beginningOfLine),
   ([0x05], .endOfLine),
   ([0x0b], .killLine),
   ([0x0d], .acceptLine),
   ([0x15], .unixLineDiscard),
   ([0x17], .unixWordRubout),
   ([0x7f], .backwardDeleteChar),
   ([0x1b, 0x5b, 0x33, 0x7e], .deleteChar),
   ([0x1b, 0x5b, 0x43], .forwardChar), ([0x1b, 0x4f, 0x43], .forwardChar),
   ([0x1b, 0x5b, 0x44], .backwardChar), ([0x1b, 0x4f, 0x44], .backwardChar),
   ([0x1b, 0x5b, 0x46], .endOfLine), ([0x1b, 0x4f, 0x46], .endOfLine),
   ([0x1b, 0x5b, 0x48], .beginningOfLine), ([0x1b, 0x4f, 0x48], .beginningOfLine)]

/-- What the bytes read so far stand for. -/
inductive Reading
  | run (cmd : Command)
  | wait
  | drop
deriving DecidableEq

/-- A byte that the keymap is asked about. -/
def isControlByte (b : UInt8) : Bool := b < 0x20 || b = 0x7f

/-- A control byte or an escape sequence. -/
def readKey (p : List UInt8) : Reading :=
  match keymap.lookup p with
  | some cmd => .run cmd
  | none => if keymap.any fun e => p.isPrefixOf e.1 then .wait else .drop

/-- A character. -/
def readChar (p : List UInt8) : Reading :=
  match p.toByteArray.utf8DecodeChar? 0 with
  | some c => .run (.selfInsert c)
  | none => if p.length < 4 then .wait else .drop

def reading (p : List UInt8) : Reading := if p.head?.any isControlByte then readKey p else readChar p

end Readline

/-! ## The editor -/

/-- The line under edit, the bytes of an incomplete sequence, and the lines that were accepted. -/
structure Readline where
  line : Zipper Char := ⟨[], []⟩
  pending : List UInt8 := []
  accepted : List Text.Str := []

namespace Readline

open Text

variable (ws : Char → Bool)

def exec (r : Readline) (cmd : Command) : Readline :=
  { r with
    line := cmd.edit ws r.line
    accepted := if cmd = .acceptLine then r.accepted ++ [r.line.text] else r.accepted }

def receiveByte (r : Readline) (b : UInt8) : Readline :=
  let p := r.pending ++ [b]
  match reading p with
  | .run cmd => { r with pending := [] }.exec ws cmd
  | .wait => { r with pending := p }
  | .drop => { r with pending := [] }

def receive (r : Readline) (bytes : List UInt8) : Readline := bytes.foldl (receiveByte ws) r

/-! ## Words -/

/-- The bytes `w` stand for a command, and no part of them does before their end. -/
structure Word (w : List UInt8) (cmd : Command) : Prop where
  ne : w ≠ []
  run : reading w = .run cmd
  wait : ∀ p, p <+: w → p ≠ [] → p ≠ w → reading p = .wait

variable {ws} {r : Readline} {w : List UInt8} {cmd : Command}

theorem pending_nil (hr : r.pending = []) : { r with pending := [] } = r := by rw [← hr]

/-- The first bytes of a word are kept. -/
theorem receive_wait {p : List UInt8} (h : ∀ q, q <+: p → q ≠ [] → reading q = .wait) (hr : r.pending = []) :
    r.receive ws p = { r with pending := p } := by
  induction p using List.reverseRecOn with
  | nil => exact (pending_nil hr).symm
  | append_singleton p b ih =>
    have hp : r.receive ws p = { r with pending := p } :=
      ih fun q hq => h q (hq.trans (List.prefix_append _ _))
    have hb : reading (p ++ [b]) = .wait := h _ (List.prefix_refl _) (by simp)
    have hsplit : r.receive ws (p ++ [b]) = (r.receive ws p).receiveByte ws b := by simp [receive]
    rw [hsplit, hp]
    simp [receiveByte, hb]

/-- **A word runs its command.** -/
theorem receive_word (h : Word w cmd) (hr : r.pending = []) : r.receive ws w = r.exec ws cmd := by
  obtain ⟨p, b, rfl⟩ : ∃ p b, w = p ++ [b] := by simpa using w.eq_nil_or_concat.resolve_left h.ne
  have hp : r.receive ws p = { r with pending := p } := by
    refine receive_wait (fun q hq hne => h.wait q (hq.trans (List.prefix_append _ _)) hne fun he => ?_) hr
    have := hq.length_le
    rw [he, List.length_append, List.length_singleton] at this
    omega
  have hsplit : r.receive ws (p ++ [b]) = (r.receive ws p).receiveByte ws b := by simp [receive]
  rw [hsplit, hp, receiveByte]
  simp only [h.run, pending_nil hr]

/-- **Every sequence of the keymap is a word.** -/
theorem word_of_keymap (h : (w, cmd) ∈ keymap) : Word w cmd := by
  have hall : ∀ e ∈ keymap, e.1 ≠ [] ∧ reading e.1 = .run e.2 ∧
      ∀ p ∈ e.1.inits, p ≠ [] → p ≠ e.1 → reading p = .wait := by decide +kernel
  obtain ⟨hne, hrun, hwait⟩ := hall _ h
  exact ⟨hne, hrun, fun p hp => hwait p ((List.mem_inits _ _).2 hp)⟩

/-- The encoding of a character that is no control character starts with no control byte. -/
theorem isControlByte_head {c : Char} (hc : isControl c = false) {b : UInt8}
    (hb : (String.utf8EncodeChar c).head? = some b) : isControlByte b = false := by
  have hval : ∀ n, n < 256 → 0x20 ≤ n → n ≠ 0x7f → isControlByte (UInt8.ofNat n) = false := by decide +kernel
  simp only [isControl, Bool.or_eq_false_iff, Bool.and_eq_false_iff, decide_eq_false_iff_not] at hc
  have hn : c.toNat = c.val.toNat := rfl
  revert hb
  fun_cases String.utf8EncodeChar c
  all_goals
    rintro ⟨⟩
    exact hval _ (by omega) (by omega) (by omega)

/-- **The encoding of a character that is no control character is a word.** -/
theorem word_utf8 {c : Char} (hc : isControl c = false) : Word (String.utf8EncodeChar c) (.selfInsert c) := by
  have hdecode : (String.utf8EncodeChar c).toByteArray.utf8DecodeChar? 0 = some c := by
    simpa using ByteArray.utf8DecodeChar?_utf8EncodeChar_append (b := ByteArray.empty) (c := c)
  have hread : ∀ p, p <+: String.utf8EncodeChar c → p ≠ [] → reading p = readChar p := by
    rintro p ⟨rest, hrest⟩ hne
    obtain ⟨b, p, rfl⟩ := List.exists_cons_of_ne_nil hne
    have hb : isControlByte b = false := isControlByte_head hc (by rw [← hrest]; rfl)
    simp [reading, hb]
  refine ⟨String.utf8EncodeChar_ne_nil, ?_, ?_⟩
  · rw [hread _ (List.prefix_refl _) String.utf8EncodeChar_ne_nil, readChar, hdecode]
  · rintro p hp hne hpw
    obtain ⟨rest, hrest⟩ := hp
    have hlt : p.length < c.utf8Size := by
      rw [← String.length_utf8EncodeChar c, ← hrest, List.length_append]
      have : rest ≠ [] := fun h => hpw (by rw [← hrest, h, List.append_nil])
      have := List.length_pos_of_ne_nil this
      omega
    have hnone : p.toByteArray.utf8DecodeChar? 0 = none := by
      cases hd : p.toByteArray.utf8DecodeChar? 0 with
      | none => rfl
      | some d =>
        -- more bytes do not change what is decoded, but there is no room for the character yet
        have hsame := ByteArray.utf8DecodeChar?_append_eq_some hd rest.toByteArray
        rw [← List.toByteArray_append, hrest, hdecode] at hsame
        cases hsame
        have := ByteArray.le_size_of_utf8DecodeChar?_eq_some hd
        simp at this
        omega
    have := c.utf8Size_le_four
    rw [hread p ⟨rest, hrest⟩ hne, readChar, hnone]
    simp only
    rw [if_pos (by omega)]

end Readline
