import TinySsh.App.Editor
import TinySsh.Lib.Words

/-!
# Ctrl-W

`kill_word_backward` takes off the last word before the cursor and the white space behind it, and nothing of what is
after the cursor (`killWordBackward_word`).
-/

namespace TinySsh.App

open Text Zipper

variable {V : Type} {app : App V}

/-- `kill_word_backward`, again and again. -/
def killWords : Nat → App V → Option (App V)
  | 0, app => some app
  | n + 1, app => app.killWordBackward.bind (killWords n)

/-- One step shortens the line in front of the cursor. -/
theorem killWordBackward_zip (h : app.Wf) : ∃ app', app.killWordBackward = some app' ∧
    app'.zip = ⟨dropWord isWhitespace app.zip.before, app.zip.after⟩ ∧ app'.Wf :=
  ⟨_, killWordBackward_eq h, @zip_edit V app (app.zip.killWord isWhitespace),
    wf_edit app (app.zip.killWord isWhitespace)⟩

/-- The line in front of the cursor is cut down word by word. -/
theorem killWords_eq {n : Nat} (h : app.Wf) : ∃ app', app.killWords n = some app' ∧
    app'.zip = ⟨(dropWord isWhitespace)^[n] app.zip.before, app.zip.after⟩ ∧ app'.Wf := by
  induction n generalizing app with
  | zero => exact ⟨app, rfl, rfl, h⟩
  | succ n ih =>
    obtain ⟨app₁, hkill, hzip₁, hwf₁⟩ := killWordBackward_zip h
    obtain ⟨app', hrun, hzip, hwf⟩ := ih hwf₁
    refine ⟨app', by rw [killWords, hkill]; exact hrun, ?_, hwf⟩
    rw [hzip, hzip₁, Function.iterate_succ_apply]

/-- Ctrl-W splits the line at its last word before the cursor. -/
theorem killWordBackward_lastWord (h : app.Wf) : ∃ pre word gap,
    LastWord isWhitespace (app.shadowInput.take app.shadowCursor) pre word gap ∧
    app.killWordBackward = some { app with
      shadowInput := pre ++ app.shadowInput.drop app.shadowCursor
      shadowCursor := pre.length
      lastActionWasSuggestion := app.lastActionWasSuggestion && (word = [] && gap = []) } := by
  obtain ⟨word, gap, hlast⟩ := lastWord_dropWord isWhitespace (app.shadowInput.take app.shadowCursor)
  refine ⟨_, word, gap, hlast, ?_⟩
  rw [killWordBackward_eq h]
  -- nothing is killed where nothing is in front of the cursor
  have hsame : app.zip.killWord isWhitespace = app.zip ↔ word = [] ∧ gap = [] := by
    rw [killWord_eq_self]
    constructor
    · intro hnil
      have htext := hlast.text
      rw [show app.shadowInput.take app.shadowCursor = [] from hnil] at htext
      simpa using htext.symm
    · rintro ⟨rfl, rfl⟩
      have htext := hlast.text
      rw [hlast.pre_nil rfl] at htext
      exact htext
  have hflag : decide (app.zip.killWord isWhitespace = app.zip) = (decide (word = []) && decide (gap = [])) := by
    rw [← Bool.decide_and]
    exact decide_eq_decide.2 hsame
  rw [hflag]
  rfl

/-- One word is removed: of the line before the cursor, the part in front of its last word is left, which is empty or
ends in white space. Where there is nothing to remove, all is as it was. -/
structure WordKilled (app app' : App V) (pre word gap post : Str) : Prop where
  line : app.shadowInput = pre ++ word ++ gap ++ post
  cursor : (pre ++ word ++ gap).length = app.shadowCursor
  gap_ws : ∀ c ∈ gap, isWhitespace c = true
  word_ws : ∀ c ∈ word, isWhitespace c = false
  pre_ws : ∀ c ∈ pre.getLast?, isWhitespace c = true
  pre_nil : word = [] → pre = []
  after : app' = { app with
    shadowInput := pre ++ post
    shadowCursor := pre.length
    lastActionWasSuggestion := app.lastActionWasSuggestion && (word = [] && gap = []) }
  idle : word = [] → gap = [] → app' = app

/-- After some steps, the line begins with a part of what was before the cursor, and goes on with all that was after it.
Nothing is left of the part when there were more steps than words. -/
structure WordsKilled (app app' : App V) (n : Nat) (pre : Str) : Prop where
  line : app'.shadowInput = pre ++ app.shadowInput.drop app.shadowCursor
  cursor : app'.shadowCursor = pre.length
  initial : pre <+: app.shadowInput.take app.shadowCursor
  emptied : (words isWhitespace (app.shadowInput.take app.shadowCursor)).length < n → pre = []

/-- **Ctrl-W removes one word**, and empties the line before the cursor in one step more than there are words. -/
theorem killWordBackward_word (h : app.Wf) :
    (∃ app' pre word gap post, app.killWordBackward = some app' ∧ WordKilled app app' pre word gap post) ∧
      ∀ n, ∃ app' pre, app.killWords n = some app' ∧ WordsKilled app app' n pre := by
  constructor
  · obtain ⟨pre, word, gap, hlast, hkill⟩ := killWordBackward_lastWord h
    have hlen : (pre ++ word ++ gap).length = app.shadowCursor := by
      rw [← hlast.text, List.length_take]
      exact Nat.min_eq_left h
    refine ⟨_, pre, word, gap, app.shadowInput.drop app.shadowCursor, hkill, ?_, hlen, hlast.gap_ws, hlast.word_ws,
      hlast.pre_ws, hlast.pre_nil, rfl, ?_⟩
    · rw [← hlast.text, List.take_append_drop]
    · rintro rfl rfl
      obtain rfl := hlast.pre_nil rfl
      have hzero : app.shadowCursor = 0 := by simpa using hlen.symm
      have hdrop : app.shadowInput.drop app.shadowCursor = app.shadowInput := by rw [hzero]; rfl
      simp only [List.nil_append, hdrop, decide_true, Bool.and_true]
      exact congrArg (fun n => { app with shadowCursor := n }) hzero.symm
  · intro n
    obtain ⟨app', hrun, hzip, hwf⟩ := killWords_eq (n := n) h
    have htext := congrArg Zipper.text hzip
    have hcursor := congrArg Zipper.cursor hzip
    rw [zip_text] at htext
    rw [zip_cursor hwf] at hcursor
    exact ⟨app', _, hrun, htext, hcursor, dropWord_iterate_prefix n _, dropWord_iterate⟩

/-- The line `cd  x` with the cursor before the `x`. -/
def cdLine : App MiniVt :=
  { App.new ['h'] ['u'] 80 24 with shadowInput := ['c', 'd', ' ', ' ', 'x'], shadowCursor := 4 }

theorem killWordBackward_word_cd :
    (∃ app' pre word gap post, cdLine.killWordBackward = some app' ∧ WordKilled cdLine app' pre word gap post) ∧
      ∀ n, ∃ app' pre, cdLine.killWords n = some app' ∧ WordsKilled cdLine app' n pre :=
  killWordBackward_word (by unfold Wf; decide)

end TinySsh.App
