import TinySsh.Ui
import TinySsh.Lib.Cut

/-!
# Bracketed paste

A remote that has asked for it gets a paste between two markers, and reads it up to the first end marker. The program
sends the pasted text as it is: a text with an end marker in it is over for the remote before its end, and the rest of
it is taken for typed input (`paste_read_iff`).
-/

namespace TinySsh

open Text

/-- How the remote reads a bracketed paste: the text, and what follows its end. -/
def readPaste (bytes : List UInt8) : Option (List UInt8 × List UInt8) :=
  (bytes.dropPrefix? pasteStart).bind (Cut.cutAt pasteEnd)

/-- A paste in its markers. -/
theorem readPaste_iff (text rest : List UInt8) :
    readPaste (pasteStart ++ text ++ pasteEnd ++ rest) = some (text, rest) ↔ ¬pasteEnd <:+: text := by
  have hread : readPaste (pasteStart ++ text ++ pasteEnd ++ rest) =
      Cut.cutAt pasteEnd (text ++ (pasteEnd ++ rest)) := by
    have hdrop : (pasteStart ++ (text ++ (pasteEnd ++ rest))).dropPrefix? pasteStart =
        some (text ++ (pasteEnd ++ rest)) :=
      List.dropPrefix?_eq_some_iff.2 ⟨pasteStart, rfl, beq_self_eq_true pasteStart⟩
    rw [List.append_assoc, List.append_assoc, readPaste, hdrop]
    rfl
  rw [hread]
  exact Cut.cutAt_append_iff (by decide)

variable {V : Type} [Vt V]

/-- **A paste reaches the remote as one exactly when no end marker was pasted**: otherwise what is read as the paste, or
what follows it, is something else. -/
theorem paste_read_iff (app : App V) (history : History) (env : Env) (text : Str)
    (hmode : app.terminal.mode.bracketedPaste = true) :
    ∃ bytes, handleTerminalEvent app history env (.paste text) = some (app, history, some (.bytes bytes, .report)) ∧
      ∀ rest, readPaste (bytes ++ rest) = some (utf8 text, rest) ↔ ¬pasteEnd <:+: utf8 text := by
  refine ⟨pasteStart ++ utf8 text ++ pasteEnd, ?_, fun rest => readPaste_iff (utf8 text) rest⟩
  simp only [handleTerminalEvent, hmode, if_true]

/-- An emulator of which only the mode counts. -/
structure ModeVt where
  mode : TermMode := { bracketedPaste := true }

instance : Vt ModeVt where
  new _ _ := {}
  advance v _ := v
  resize v _ _ := v
  point _ := (0, 0)
  mode v := v.mode
  scrollDisplay v _ := v
  displayIter _ := []

theorem paste_read_ls : ∃ bytes,
    handleTerminalEvent (App.new ['h'] ['u'] 80 24 : App ModeVt) {} (.stable 0) (.paste ['l', 's']) =
      some (App.new ['h'] ['u'] 80 24, {}, some (.bytes bytes, .report)) ∧
    ∀ rest, readPaste (bytes ++ rest) = some ([0x6c, 0x73], rest) := by
  obtain ⟨bytes, hh, hread⟩ := paste_read_iff (App.new ['h'] ['u'] 80 24 : App ModeVt) {} (.stable 0) ['l', 's'] rfl
  exact ⟨bytes, hh, fun rest => (hread rest).2 (by decide)⟩

end TinySsh
