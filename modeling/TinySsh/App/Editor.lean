import TinySsh.App
import TinySsh.Lib.Zipper

/-!
# The shadow buffer is a line with a cursor

While the shadow cursor is within the line (`Wf`), no function that edits the shadow buffer panics, and each is an
operation of `Zipper` (`insertChar_eq`, `killWordBackward_eq`, `applyBackspace_eq`, `applyCtrl_eq`). `shadowStep` is
`apply_to_shadow` in these terms (`applyToShadow_eq`), and `KeyStep` lists all that `on_key` can do (`onKey_step`).
-/

namespace TinySsh.App

open Text

variable {V : Type} {app : App V} {history : History} {env : Env} {key : KeyEvent}

/-! ## The zipper of the shadow buffer -/

/-- The shadow cursor is within the shadow line. -/
def Wf (app : App V) : Prop := app.shadowCursor ≤ app.shadowInput.length

/-- The shadow line and its cursor. -/
def zip (app : App V) : Zipper Char := Zipper.ofCursor app.shadowInput app.shadowCursor

/-- Replace the shadow line and its cursor. -/
def edit (app : App V) (z : Zipper Char) : App V := { app with shadowInput := z.text, shadowCursor := z.cursor }

@[simp] theorem zip_text : app.zip.text = app.shadowInput := Zipper.text_ofCursor _ _

theorem zip_cursor (h : app.Wf) : app.zip.cursor = app.shadowCursor := Zipper.cursor_ofCursor h

@[simp] theorem zip_edit (z : Zipper Char) : (app.edit z).zip = z := Zipper.ofCursor_text z

theorem edit_zip (h : app.Wf) : app.edit app.zip = app := by
  simp [edit, zip_cursor h]

theorem wf_edit (app : App V) (z : Zipper Char) : (app.edit z).Wf := Zipper.cursor_le z

theorem zip_before_length (h : app.Wf) : app.zip.before.length = app.shadowCursor := zip_cursor h

/-- The cursor is at the end exactly when nothing is after it. -/
theorem cursor_eq_length (h : app.Wf) : app.shadowCursor = app.shadowInput.length ↔ app.zip.after = [] := by
  simp only [Wf] at h
  simp [zip, Zipper.ofCursor, List.drop_eq_nil_iff]
  omega

/-! ## Suggestions -/

/-- The suffix that the history completes the shadow line with. -/
def completion (app : App V) (history : History) (env : Env) : Option Str :=
  if app.shadowInput = [] then none
  else
    match SuggestEngine.suggest history env { host := app.host, cwd := app.cwd, typed := app.shadowInput } with
    | .ok (some s) =>
      if app.shadowInput.isPrefixOf s.command && byteLen s.command > byteLen app.shadowInput then
        some (s.command.drop app.shadowInput.length)
      else none
    | _ => none

/-- The application with its suggestion recomputed. -/
def refreshed (app : App V) (history : History) (env : Env) : App V :=
  { app with suggestion := app.completion history env }

/-- Recomputing the suggestion never slices inside a character. -/
theorem refreshSuggestion_eq : app.refreshSuggestion history env = some (app.refreshed history env) := by
  unfold refreshSuggestion refreshed completion
  by_cases hnil : app.shadowInput = []
  · simp [hnil]
  rw [if_neg hnil, if_neg hnil]
  cases SuggestEngine.suggest history env { host := app.host, cwd := app.cwd, typed := app.shadowInput } with
  | error e => rfl
  | ok o =>
    cases o with
    | none => rfl
    | some s =>
      by_cases h : (app.shadowInput.isPrefixOf s.command && byteLen s.command > byteLen app.shadowInput) = true
      · -- the suggestion starts with the shadow line, whose length is then a boundary
        obtain ⟨rest, hrest⟩ := List.isPrefixOf_iff_prefix.1 (Bool.and_eq_true_iff.1 h).1
        have hslice : sliceFrom s.command (byteLen app.shadowInput) = some rest := hrest ▸ sliceFrom_append _ _
        have hdrop : s.command.drop app.shadowInput.length = rest := by simp [← hrest]
        simp only [h, if_true, hslice, hdrop, Option.bind_eq_bind, Option.bind_some]
      · simp only [h, Bool.false_eq_true, if_false]

/-- **A completion is the rest of a command of this host.** -/
theorem completion_some {rest : Str} (h : app.completion history env = some rest) :
    app.shadowInput ≠ [] ∧ rest ≠ [] ∧ ∃ r ∈ history.rows, r.host = app.host ∧ r.command = app.shadowInput ++ rest := by
  unfold completion at h
  split at h
  · cases h
  rename_i hne
  split at h
  · rename_i s hs
    split at h
    · rename_i hp
      simp only [Bool.and_eq_true, List.isPrefixOf_iff_prefix, decide_eq_true_eq] at hp
      obtain ⟨⟨rest', hrest⟩, hlen⟩ := hp
      obtain ⟨r, hr, hh, hc⟩ := SuggestEngine.suggest_mem hs
      have hrest' : rest = rest' := by simpa [← hrest] using h.symm
      subst hrest'
      refine ⟨hne, ?_, r, hr, hh, hc.trans hrest.symm⟩
      rintro rfl
      simp [← hrest] at hlen
    · cases h
  · cases h

theorem completion_nil (h : history.rows = []) : app.completion history env = none := by
  cases hc : app.completion history env with
  | none => rfl
  | some rest =>
    obtain ⟨-, -, r, hr, -⟩ := completion_some hc
    simp [h] at hr

/-! ## Edits -/

theorem insertChar_eq (h : app.Wf) (c : Char) :
    app.insertChar c = some { app.edit (app.zip.insert c) with lastActionWasSuggestion := false } := by
  have hlen := zip_before_length h
  simp only [insertChar, charToByte, insertByte_charToByte, edit, Zipper.text, Zipper.cursor, Zipper.insert,
    List.length_append, hlen]
  simp [zip, Zipper.ofCursor]

/-- A loop of `kill_word_backward` ends where the characters before it no longer satisfy `p`. -/
theorem skipBack_eq (p : Char → Bool) {chars : Str} {i : Nat} (h : i ≤ chars.length) :
    skipBack p chars i = some ((chars.take i).rdropWhile p).length := by
  induction i with
  | zero => simp [skipBack]
  | succ i ih =>
    have hi : i < chars.length := h
    rw [List.take_succ_eq_append_getElem hi, List.rdropWhile_concat, skipBack, List.getElem?_eq_getElem hi]
    simp only
    split
    · exact ih (Nat.le_of_lt hi)
    · simp
      omega

/-- The text up to the length of an initial part is that part. -/
theorem take_length_of_prefix {l m : Str} (h : l <+: m) : m.take l.length = l := (List.prefix_iff_eq_take.1 h).symm

theorem killWordBackward_eq (h : app.Wf) : app.killWordBackward =
    some { app.edit (app.zip.killWord isWhitespace) with
      lastActionWasSuggestion := app.lastActionWasSuggestion && app.zip.killWord isWhitespace = app.zip } := by
  set z := app.zip with hz
  have hb : z.before = app.shadowInput.take app.shadowCursor := rfl
  have ha : z.after = app.shadowInput.drop app.shadowCursor := rfl
  have hcur : z.before.length = app.shadowCursor := zip_before_length h
  -- the same application when nothing is killed
  have hsame : z.killWord isWhitespace = z → app = { app.edit (z.killWord isWhitespace) with
      lastActionWasSuggestion := app.lastActionWasSuggestion && z.killWord isWhitespace = z } := by
    intro hk
    have hid : app.edit z = app := edit_zip h
    simp [hk, hid]
  unfold killWordBackward
  split
  · rename_i h0
    have hnil : z.before = [] := List.length_eq_zero_iff.1 (hcur.trans h0)
    exact congrArg some (hsame (by ext1 <;> simp [Zipper.killWord, Zipper.dropWord, hnil]))
  · -- where the two loops stop
    have hw : z.before.rdropWhile isWhitespace <+: app.shadowInput :=
      (List.rdropWhile_prefix _ _).trans (List.take_prefix _ _)
    have hd : Zipper.dropWord isWhitespace z.before <+: app.shadowInput :=
      (Zipper.prefix_dropWord _ _).trans (List.take_prefix _ _)
    have h1 : skipBack isWhitespace app.shadowInput app.shadowCursor =
        some (z.before.rdropWhile isWhitespace).length := skipBack_eq _ h
    have h2 : skipBack (fun c => !isWhitespace c) app.shadowInput (z.before.rdropWhile isWhitespace).length =
        some (Zipper.dropWord isWhitespace z.before).length := by
      rw [skipBack_eq _ hw.length_le, take_length_of_prefix hw]
      rfl
    simp only [h1, h2, Option.bind_eq_bind, Option.bind_some]
    split
    · rename_i hi
      -- a part of full length is the whole
      have hall : Zipper.dropWord isWhitespace z.before = z.before :=
        (Zipper.prefix_dropWord _ _).eq_of_length (hi.trans hcur.symm)
      exact congrArg some (hsame (by ext1 <;> simp [Zipper.killWord, hall]))
    · rename_i hi
      have hne : z.killWord isWhitespace ≠ z := fun hk => hi (by
        have := congrArg (fun z : Zipper Char => z.before.length) hk
        exact this.trans hcur)
      rw [if_pos ⟨hd.length_le, h⟩]
      simp only [hne, decide_false, Bool.and_false, take_length_of_prefix hd, ← ha]
      rfl

theorem applyBackspace_eq (h : app.Wf) : app.applyBackspace =
    some { app.edit app.zip.deleteBefore with
      lastActionWasSuggestion := app.lastActionWasSuggestion && app.zip.before = [] } := by
  have hcur := zip_before_length h
  unfold applyBackspace
  split
  · rename_i hpos
    have hlt : app.shadowCursor - 1 < app.shadowInput.length := by unfold Wf at h; omega
    have hne : app.zip.before ≠ [] := fun h0 => by rw [h0] at hcur; simp at hcur; omega
    have hsucc : app.shadowCursor - 1 + 1 = app.shadowCursor := by omega
    have hlast : app.zip.before.dropLast = app.shadowInput.take (app.shadowCursor - 1) := by
      simp only [zip, Zipper.ofCursor, List.dropLast_eq_take, List.take_take, List.length_take]
      congr 1
      omega
    simp only [charToByte, removeByte_charToByte hlt, hsucc, Option.bind_eq_bind, Option.bind_some, hne, decide_false,
      Bool.and_false, edit, Zipper.text, Zipper.cursor, Zipper.deleteBefore, hlast, List.length_take,
      Nat.min_eq_left hlt.le]
    rfl
  · rename_i hpos
    have hnil : app.zip.before = [] := List.length_eq_zero_iff.1 (by omega)
    have hz : app.zip.deleteBefore = app.zip := by ext1 <;> simp [Zipper.deleteBefore, hnil]
    simp [hz, edit_zip h, hnil]

theorem left_eq (h : app.Wf) :
    (if app.shadowCursor > 0 then { app with shadowCursor := app.shadowCursor - 1 } else app) =
      app.edit app.zip.left := by
  have hcur := zip_before_length h
  have htext : app.zip.left.text = app.shadowInput := by simp
  have hcursor : app.zip.left.cursor = app.shadowCursor - 1 := by simp [Zipper.left, Zipper.cursor, hcur]
  unfold edit
  rw [htext, hcursor]
  split
  · rfl
  · rename_i h0
    have : app.shadowCursor - 1 = app.shadowCursor := by omega
    rw [this]

theorem right_eq (h : app.Wf) :
    (if app.shadowCursor < app.shadowInput.length then { app with shadowCursor := app.shadowCursor + 1 } else app) =
      app.edit app.zip.right := by
  have hcur := zip_before_length h
  have htext : app.zip.right.text = app.shadowInput := by simp
  unfold edit
  rw [htext]
  split
  · rename_i hlt
    have ha : app.zip.after = app.shadowInput[app.shadowCursor] :: app.shadowInput.drop (app.shadowCursor + 1) :=
      List.drop_eq_getElem_cons hlt
    have hcursor : app.zip.right.cursor = app.shadowCursor + 1 := by simp [Zipper.right, Zipper.cursor, hcur, ha, hlt]
    rw [hcursor]
  · rename_i hge
    have ha : app.zip.after = [] := List.drop_eq_nil_iff.2 (Nat.le_of_not_lt hge)
    have hcursor : app.zip.right.cursor = app.shadowCursor := by simp [Zipper.right, Zipper.cursor, hcur, ha]
    rw [hcursor]

/-! ## `apply_to_shadow` and `on_key` without panics -/

/-- The operations of the line editor that keys stand for. -/
inductive Edit
  | insert (c : Char)
  | deleteBefore | left | right | home | toEnd | clear | killAfter | killWord | keep
deriving DecidableEq

def Edit.apply : Edit → Zipper Char → Zipper Char
  | .insert c => fun z => z.insert c
  | .deleteBefore => Zipper.deleteBefore
  | .left => Zipper.left
  | .right => Zipper.right
  | .home => Zipper.home
  | .toEnd => Zipper.toEnd
  | .clear => Zipper.clear
  | .killAfter => Zipper.killAfter
  | .killWord => Zipper.killWord isWhitespace
  | .keep => id

/-- What a control character does to the shadow buffer. -/
inductive Ctrl
  | home | toEnd | killLine | killAfter | killWord | abort | other
deriving DecidableEq

def ctrlOf (c : Char) : Ctrl :=
  match c.toLower with
  | 'a' => .home
  | 'e' => .toEnd
  | 'u' => .killLine
  | 'k' => .killAfter
  | 'w' => .killWord
  | 'c' | 'd' => .abort
  | _ => .other

def Ctrl.edit : Ctrl → Edit
  | .home => .home
  | .toEnd => .toEnd
  | .killLine | .abort => .clear
  | .killAfter => .killAfter
  | .killWord => .killWord
  | .other => .keep

/-- The operation of a key that is sent to the remote. -/
def keyEdit (key : KeyEvent) : Edit :=
  match key.code with
  | .char c => if key.modifiers.control then (ctrlOf c).edit else .insert c
  | .backspace => .deleteBefore
  | .enter => .clear
  | .up | .down | .pageUp | .pageDown => .clear
  | .left => .left
  | .right => .right
  | .home => .home
  | .end => .toEnd
  | _ => .keep

/-- What happens to the cached suggestion. -/
inductive Cached
  | keep | drop | refresh
deriving DecidableEq

def keyCached (key : KeyEvent) : Cached :=
  match key.code with
  | .char _ | .backspace => .refresh
  | .enter | .tab | .backTab | .up | .down | .pageUp | .pageDown => .drop
  | _ => .keep

/-- The tag of the next record: whether the last change of the line was an accepted suggestion. -/
def keyTag (app : App V) (key : KeyEvent) : Bool :=
  match key.code with
  | .char c =>
    if key.modifiers.control then
      match ctrlOf c with
      | .killLine | .killAfter | .abort => false
      | .killWord => app.lastActionWasSuggestion && app.zip.killWord isWhitespace = app.zip
      | _ => app.lastActionWasSuggestion
    else false
  | .backspace => app.lastActionWasSuggestion && app.zip.before = []
  | .enter | .up | .down | .pageUp | .pageDown => false
  | _ => app.lastActionWasSuggestion

/-- Whether the next newline of the remote is taken for the one before a prompt. -/
def keyEnter (app : App V) (key : KeyEvent) : Bool :=
  match key.code with
  | .char c =>
    if key.modifiers.control then
      match ctrlOf c with
      | .abort => false
      | _ => app.lastInputWasEnter
    else app.lastInputWasEnter
  | .enter => true
  | .up | .down | .pageUp | .pageDown => false
  | _ => app.lastInputWasEnter

/-- The application after a key that was sent to the remote. -/
def shadowStep (app : App V) (key : KeyEvent) (history : History) (env : Env) : App V :=
  let app' := { app.edit ((keyEdit key).apply app.zip) with
    lastActionWasSuggestion := app.keyTag key, lastInputWasEnter := app.keyEnter key }
  match keyCached key with
  | .keep => app'
  | .drop => { app' with suggestion := none }
  | .refresh => app'.refreshed history env

/-- The history after a key that was sent to the remote. -/
def historyStep (app : App V) (key : KeyEvent) (history : History) (env : Env) : History :=
  if key.code = .enter then app.recordEnter history env else history

theorem wf_shadowStep (key : KeyEvent) (history : History) (env : Env) : (app.shadowStep key history env).Wf := by
  have := wf_edit app ((keyEdit key).apply app.zip)
  unfold shadowStep
  cases keyCached key <;> exact this

theorem terminal_shadowStep (key : KeyEvent) (history : History) (env : Env) :
    (app.shadowStep key history env).terminal = app.terminal := by
  unfold shadowStep
  cases keyCached key <;> rfl

/-- `applyCtrl`, by what the character does. -/
theorem applyCtrl_ctrlOf (c : Char) : app.applyCtrl c =
    match ctrlOf c with
    | .home => some { app with shadowCursor := 0 }
    | .toEnd => some { app with shadowCursor := app.shadowInput.length }
    | .killLine => some { app with shadowInput := [], shadowCursor := 0, lastActionWasSuggestion := false }
    | .killAfter => (truncateByte app.shadowInput (app.charToByte app.shadowCursor)).bind fun shadowInput =>
      some { app with shadowInput, lastActionWasSuggestion := false }
    | .killWord => app.killWordBackward
    | .abort => some { app with
      shadowInput := [], shadowCursor := 0, suggestion := none, lastActionWasSuggestion := false
      lastInputWasEnter := false }
    | .other => some app := by
  unfold applyCtrl ctrlOf
  generalize c.toLower = d
  split
  case h_8 => simp [*]
  all_goals rfl

/-- Control characters: the suggestion that `apply_to_shadow` drops on the way is recomputed. -/
theorem applyCtrl_eq (h : app.Wf) {key : KeyEvent} {c : Char} (hk : key.code = .char c)
    (hctrl : key.modifiers.control = true) (history : History) (env : Env) : ∃ app', app.applyCtrl c = some app' ∧
      app'.refreshed history env = app.shadowStep key history env := by
  have hid : app.edit app.zip = app := edit_zip h
  rw [applyCtrl_ctrlOf]
  cases hc : ctrlOf c <;>
    simp only [shadowStep, keyEdit, keyCached, keyTag, keyEnter, hk, hctrl, hc, if_true, Ctrl.edit, Edit.apply, id, hid]
  case home => exact ⟨_, rfl, by simp [edit, refreshed, completion]⟩
  case toEnd => exact ⟨_, rfl, by simp [edit, refreshed, completion]⟩
  case killLine => exact ⟨_, rfl, rfl⟩
  case killAfter =>
    simp only [charToByte, truncateByte_charToByte, Option.bind_some, edit, Zipper.text_killAfter,
      Zipper.cursor_killAfter, zip_cursor h]
    exact ⟨_, rfl, rfl⟩
  case killWord => exact ⟨_, killWordBackward_eq h, rfl⟩
  case abort => exact ⟨_, rfl, rfl⟩
  case other => exact ⟨_, rfl, rfl⟩

/-- **`apply_to_shadow` does not panic and is `shadowStep`.** -/
theorem applyToShadow_eq (h : app.Wf) (key : KeyEvent) (history : History) (env : Env) :
    app.applyToShadow key history env = some (app.shadowStep key history env, app.historyStep key history env) := by
  have hid : app.edit app.zip = app := edit_zip h
  unfold applyToShadow
  cases hk : key.code with
  | char c =>
    cases hctrl : key.modifiers.control with
    | true =>
      obtain ⟨app', happ, hstep⟩ := applyCtrl_eq h hk hctrl history env
      simp [happ, refreshSuggestion_eq, hstep, historyStep, hk]
    | false =>
      simp [insertChar_eq h, refreshSuggestion_eq, shadowStep, historyStep, keyEdit, keyCached, keyTag, keyEnter, hk,
        hctrl, Edit.apply]
      rfl
  | backspace =>
    simp [applyBackspace_eq h, refreshSuggestion_eq, shadowStep, historyStep, keyEdit, keyCached, keyTag, keyEnter, hk,
      Edit.apply]
    rfl
  | left => simp [shadowStep, historyStep, keyEdit, keyCached, keyTag, keyEnter, hk, Edit.apply, left_eq h, edit]
  | right => simp [shadowStep, historyStep, keyEdit, keyCached, keyTag, keyEnter, hk, Edit.apply, right_eq h, edit]
  | home => simp [shadowStep, historyStep, keyEdit, keyCached, keyTag, keyEnter, hk, Edit.apply, edit]
  | «end» => simp [shadowStep, historyStep, keyEdit, keyCached, keyTag, keyEnter, hk, Edit.apply, edit]
  | enter | up | down | pageUp | pageDown =>
    simp [shadowStep, historyStep, keyEdit, keyCached, keyTag, keyEnter, hk, Edit.apply, edit]
  | _ => simp [shadowStep, historyStep, keyEdit, keyCached, keyTag, keyEnter, hk, Edit.apply, hid]

/-! ## `on_key` -/

/-- The keys that `on_key` captures for the program itself. -/
def captured (key : KeyEvent) : Bool :=
  let mods := key.modifiers
  mods.control && key.code = .char 'q' ||
    (mods.control && mods.shift) && (key.code = .char 'm' || key.code = .char 'M') ||
    (mods.control && mods.shift) && (key.code = .char 'c' || key.code = .char 'C')

theorem code_of_accepts (h : app.accepts key = true) : key.code = .right ∧ key.modifiers = {} := by
  simp only [accepts, KeyModifiers.isEmpty, Bool.and_eq_true, decide_eq_true_eq] at h
  exact h.1.1

/-- The application after the suggestion `rest` is accepted. -/
def acceptStep (app : App V) (rest : Str) (history : History) (env : Env) : App V :=
  { app.edit (app.zip.append rest) with lastActionWasSuggestion := true }.refreshed history env

theorem accept_eq {rest : Str} (hs : app.suggestion = some rest) :
    app.accept history env = some (app.acceptStep rest history env, history, .send (utf8 rest)) := by
  simp only [accept, hs, refreshSuggestion_eq, acceptStep, edit, Zipper.text_append, Zipper.cursor_append, zip_text,
    Option.bind_eq_bind, Option.bind_some]
  rfl

variable [Vt V]

/-- What `on_key` can do with a key. -/
inductive KeyStep (app : App V) (key : KeyEvent) (history : History) (env : Env) : App V × History × Action → Prop
  /-- The program handles the key itself and sends nothing. -/
  | captured {action : Action} {capture changed : Bool} {clip : Option Str} (hc : captured key = true)
      (ha : ∀ bytes, action ≠ .send bytes) :
      KeyStep app key history env ({ app with
        mouseCapture := capture, mouseCaptureChanged := changed, pendingClipboard := clip }, history, action)
  /-- The suggestion is accepted. -/
  | accepted {rest : Str} (hc : App.captured key = false) (ha : app.accepts key = true)
      (hs : app.suggestion = some rest) :
      KeyStep app key history env (app.acceptStep rest history env, history, .send (utf8 rest))
  /-- The key has no encoding. -/
  | silent (hc : App.captured key = false) (ha : app.accepts key = false) (he : encode key app.terminal.mode = []) :
      KeyStep app key history env (app, history, .none)
  /-- The key is sent to the remote. -/
  | sent (hc : App.captured key = false) (ha : app.accepts key = false) (he : encode key app.terminal.mode ≠ []) :
      KeyStep app key history env (app.shadowStep key history env, app.historyStep key history env,
        .send (encode key app.terminal.mode))

/-- **`on_key` does not panic and does one of these.** -/
theorem onKey_step (h : app.Wf) (key : KeyEvent) (history : History) (env : Env) :
    ∃ r, app.onKey key history env = some r ∧ KeyStep app key history env r := by
  unfold onKey
  dsimp only
  by_cases hq : (key.modifiers.control && key.code = .char 'q') = true
  · exact ⟨_, if_pos hq, .captured (by simp [captured, hq]) (fun _ h => nomatch h)⟩
  rw [if_neg hq]
  by_cases hm : ((key.modifiers.control && key.modifiers.shift) &&
      (key.code = .char 'm' || key.code = .char 'M')) = true
  · exact ⟨_, if_pos hm, .captured (by simp [captured, hm]) (fun _ h => nomatch h)⟩
  rw [if_neg hm]
  by_cases hy : ((key.modifiers.control && key.modifiers.shift) &&
      (key.code = .char 'c' || key.code = .char 'C')) = true
  · exact ⟨_, if_pos hy, .captured (by simp [captured, hy]) (fun _ h => nomatch h)⟩
  rw [if_neg hy]
  have hc : captured key = false := by simp only [captured, hq, hm, hy, Bool.or_self]
  cases ha : app.accepts key with
  | true =>
    obtain ⟨rest, hs⟩ : ∃ rest, app.suggestion = some rest := by
      simp only [accepts, Bool.and_eq_true] at ha
      exact Option.isSome_iff_exists.1 ha.1.2
    exact ⟨_, by rw [if_pos rfl, accept_eq hs], .accepted hc ha hs⟩
  | false =>
    simp only [Bool.false_eq_true, if_false]
    by_cases he : encode key app.terminal.mode = []
    · exact ⟨_, if_pos he, .silent hc ha he⟩
    · exact ⟨_, by rw [if_neg he, applyToShadow_eq h]; rfl, .sent hc ha he⟩

/-- A key with an encoding that is neither captured nor accepts the suggestion is sent. -/
theorem onKey_sent (h : app.Wf) (hc : captured key = false) (ha : app.accepts key = false)
    (he : encode key app.terminal.mode ≠ []) (history : History) (env : Env) : app.onKey key history env =
      some (app.shadowStep key history env, app.historyStep key history env,
        .send (encode key app.terminal.mode)) := by
  obtain ⟨r, hr, hstep⟩ := onKey_step h key history env
  rw [hr]
  cases hstep with
  | captured hc' => rw [hc] at hc'; cases hc'
  | accepted _ ha' => rw [ha] at ha'; cases ha'
  | silent _ _ he' => exact absurd he' he
  | sent => rfl

/-- What a key did, from its result. -/
theorem keyStep_of_onKey (h : app.Wf) {r : App V × History × Action} (hr : app.onKey key history env = some r) :
    KeyStep app key history env r := by
  obtain ⟨r', hr', hstep⟩ := onKey_step h key history env
  rw [hr] at hr'
  cases hr'
  exact hstep

end TinySsh.App
