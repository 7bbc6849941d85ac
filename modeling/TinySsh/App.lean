import TinySsh.Term
import TinySsh.History
import TinySsh.Session.Driver

/-!
# The application state

`App` (`app.rs`): the emulator driven by the remote, the shadow buffer that mirrors the remote command line, and the
cached suggestion. The shadow buffer is a UTF-8 string with a cursor in characters that is edited at byte offsets, so
every function that edits it may panic; a panic is `none`.
-/

namespace TinySsh

open Text

/-- What `on_key` wants the driver to do. -/
inductive Action
  | send (bytes : List UInt8)
  | quit | toggleMouseCapture | copyToClipboard | none
deriving DecidableEq

structure App (V : Type) where
  host : Str
  user : Str
  state : SessionState := .connecting
  terminal : Terminal V
  closed : Bool := false
  lastError : Option String := none
  /-- Best-effort mirror of the remote command line. -/
  shadowInput : Str := []
  /-- Cursor within `shadowInput`, in characters. -/
  shadowCursor : Nat := 0
  /-- Cached suggestion, the part beyond `shadowInput`. -/
  suggestion : Option Str := none
  promptPos : Option (Nat × Nat) := none
  cwd : Option Str := none
  lastActionWasSuggestion : Bool := false
  lastInputWasEnter : Bool := false
  mouseCapture : Bool := true
  mouseCaptureChanged : Bool := false
  pendingClipboard : Option Str := none

namespace App

variable {V : Type} [Vt V]

def new (host user : Str) (cols rows : Nat) : App V := { host, user, terminal := Terminal.new cols rows }

def onResize (app : App V) (cols rows : Nat) : App V := { app with terminal := app.terminal.resize cols rows }

/-! ## Session events -/

def onOscEvent (app : App V) : OscEvent → App V
  | .promptStart => app
  | .promptEnd =>
    { app with promptPos := some app.terminal.cursor, shadowInput := [], shadowCursor := 0, suggestion := none }
  | .commandStart => { app with promptPos := none }
  | .commandEnd => app
  | .cwd p => { app with cwd := some p }

/-- After Enter and a newline, the cursor is taken for a prompt when it is not in the first column. -/
def handlePromptHeuristic (app : App V) (bytes : List UInt8) : App V :=
  if !app.lastInputWasEnter then app
  else if !bytes.contains 0x0a then app
  else
    let app := if app.terminal.cursor.1 > 0 then { app with promptPos := some app.terminal.cursor } else app
    { app with lastInputWasEnter := false }

/-- The branch of `on_session_event` for output of either kind. -/
def onOutput (app : App V) (bytes : List UInt8) : App V :=
  let app := { app with terminal := app.terminal.feed bytes }
  let (events, terminal) := app.terminal.takeOscEvents
  let app := { app with terminal }
  let app := events.foldl onOscEvent app
  app.handlePromptHeuristic bytes

def onSessionEvent (app : App V) : SessionEvent → App V
  | .stateChanged s => { app with state := s }
  | .output bytes | .stderr bytes => app.onOutput bytes
  | .exitStatus _ => app
  | .error msg => { app with lastError := some msg }
  | .closed => { app with closed := true }

/-! ## Suggestions -/

/-- Recompute the suggestion for the current shadow line. It is not gated on the cursor or the prompt. -/
def refreshSuggestion (app : App V) (history : History) (env : Env) : Option (App V) :=
  if app.shadowInput = [] then some { app with suggestion := none }
  else
    match SuggestEngine.suggest history env { host := app.host, cwd := app.cwd, typed := app.shadowInput } with
    | .ok (some s) =>
      if app.shadowInput.isPrefixOf s.command && byteLen s.command > byteLen app.shadowInput then do
        let rest ← sliceFrom s.command (byteLen app.shadowInput)
        some { app with suggestion := some rest }
      else some { app with suggestion := none }
    | _ => some { app with suggestion := none }

/-- The five-condition gate: is it safe to display the suggestion now? -/
def canShowSuggestion (app : App V) : Bool :=
  app.suggestion.isSome &&
    match app.promptPos with
    | none => false
    | some (promptCol, promptRow) =>
      let (curCol, curRow) := app.terminal.cursor
      if app.terminal.isAltScreen || curRow != promptRow || curCol < promptCol then false
      else app.shadowInput.length = curCol - promptCol

/-! ## The shadow buffer -/

def charToByte (app : App V) (pos : Nat) : Nat := Text.charToByte app.shadowInput pos

def insertChar (app : App V) (c : Char) : Option (App V) := do
  let byteIdx := app.charToByte app.shadowCursor
  let shadowInput ← insertByte app.shadowInput byteIdx c
  some { app with shadowInput, shadowCursor := app.shadowCursor + 1, lastActionWasSuggestion := false }

/-- A loop of `kill_word_backward`: step back while the character before `i` satisfies `p`. -/
def skipBack (p : Char → Bool) (chars : Str) : Nat → Option Nat
  | 0 => some 0
  | i + 1 =>
    match chars[i]? with
    | none => none
    | some c => if p c then skipBack p chars i else some (i + 1)

/-- Delete from the cursor back to the start of the previous word. -/
def killWordBackward (app : App V) : Option (App V) :=
  if app.shadowCursor = 0 then some app
  else do
    let chars := app.shadowInput
    let i ← skipBack isWhitespace chars app.shadowCursor
    let i ← skipBack (fun c => !isWhitespace c) chars i
    if i = app.shadowCursor then some app
    -- the slices `chars[..i]` and `chars[shadow_cursor..]`
    else if i ≤ chars.length ∧ app.shadowCursor ≤ chars.length then
      some { app with
        shadowInput := chars.take i ++ chars.drop app.shadowCursor
        shadowCursor := i
        lastActionWasSuggestion := false }
    else none

/-- The entry that Enter records. -/
def enterEntry (app : App V) : HistoryEntry :=
  { host := app.host, user := app.user, cwd := app.cwd, command := app.shadowInput, timestamp := 0, exitCode := none,
    durationMs := none, source := if app.lastActionWasSuggestion then .suggestHistory else .user }

/-- The history after Enter. -/
def recordEnter (app : App V) (history : History) (env : Env) : History :=
  if app.shadowInput ≠ [] then
    match history.record env app.enterEntry with
    | .ok (_, history') => history'
    | .error _ => history
  else history

/-- The shadow buffer after a control character. -/
def applyCtrl (app : App V) (c : Char) : Option (App V) :=
  match c.toLower with
  | 'a' => some { app with shadowCursor := 0 }
  | 'e' => some { app with shadowCursor := app.shadowInput.length }
  | 'u' => some { app with shadowInput := [], shadowCursor := 0, lastActionWasSuggestion := false }
  | 'k' => do
    let bi := app.charToByte app.shadowCursor
    let shadowInput ← truncateByte app.shadowInput bi
    some { app with shadowInput, lastActionWasSuggestion := false }
  | 'w' => app.killWordBackward
  | 'c' | 'd' =>
    some { app with
      shadowInput := [], shadowCursor := 0, suggestion := none, lastActionWasSuggestion := false
      lastInputWasEnter := false }
  | _ => some app

def applyBackspace (app : App V) : Option (App V) :=
  if app.shadowCursor > 0 then do
    let app := { app with shadowCursor := app.shadowCursor - 1 }
    let bi := app.charToByte app.shadowCursor
    let shadowInput ← removeByte app.shadowInput bi
    some { app with shadowInput, lastActionWasSuggestion := false }
  else some app

/-- Update the shadow buffer in lockstep with what is sent to the remote. -/
def applyToShadow (app : App V) (key : KeyEvent) (history : History) (env : Env) : Option (App V × History) :=
  match key.code with
  | .char c => do
    let app ← if key.modifiers.control then app.applyCtrl c else app.insertChar c
    let app ← app.refreshSuggestion history env
    some (app, history)
  | .backspace => do
    let app ← app.applyBackspace
    let app ← app.refreshSuggestion history env
    some (app, history)
  | .enter =>
    some ({ app with
      shadowInput := [], shadowCursor := 0, suggestion := none, lastActionWasSuggestion := false
      lastInputWasEnter := true }, app.recordEnter history env)
  | .tab | .backTab => some ({ app with suggestion := none }, history)
  | .up | .down | .pageUp | .pageDown =>
    some ({ app with
      shadowInput := [], shadowCursor := 0, suggestion := none, lastActionWasSuggestion := false
      lastInputWasEnter := false }, history)
  | .left => some (if app.shadowCursor > 0 then { app with shadowCursor := app.shadowCursor - 1 } else app, history)
  | .right =>
    some (if app.shadowCursor < app.shadowInput.length then { app with shadowCursor := app.shadowCursor + 1 } else app,
      history)
  | .home => some ({ app with shadowCursor := 0 }, history)
  | .end => some ({ app with shadowCursor := app.shadowInput.length }, history)
  | _ => some (app, history)

/-! ## Keys -/

/-- The condition of the branch of `on_key` that accepts the suggestion. -/
def accepts (app : App V) (key : KeyEvent) : Bool :=
  key.code = .right && key.modifiers.isEmpty && app.suggestion.isSome && app.shadowCursor = app.shadowInput.length

/-- The branch of `on_key` that accepts the suggestion. -/
def accept (app : App V) (history : History) (env : Env) : Option (App V × History × Action) := do
  let rest ← app.suggestion
  let app := { app with suggestion := none, shadowInput := app.shadowInput ++ rest }
  let app := { app with shadowCursor := app.shadowInput.length, lastActionWasSuggestion := true }
  let app ← app.refreshSuggestion history env
  some (app, history, .send (utf8 rest))

/-- `lines.join("\n")` -/
def joinLines (lines : List Str) : Str := List.intercalate ['\n'] lines

def onKey (app : App V) (key : KeyEvent) (history : History) (env : Env) : Option (App V × History × Action) :=
  let mods := key.modifiers
  if mods.control && key.code = .char 'q' then some (app, history, .quit)
  else if (mods.control && mods.shift) && (key.code = .char 'm' || key.code = .char 'M') then
    some ({ app with mouseCapture := !app.mouseCapture, mouseCaptureChanged := true }, history, .toggleMouseCapture)
  else if (mods.control && mods.shift) && (key.code = .char 'c' || key.code = .char 'C') then
    let lines := app.terminal.screenText
    some ({ app with pendingClipboard := some (joinLines lines) }, history, .copyToClipboard)
  else if app.accepts key then app.accept history env
  else
    let bytes := encode key app.terminal.mode
    if bytes = [] then some (app, history, .none)
    else do
      let (app, history) ← app.applyToShadow key history env
      some (app, history, .send bytes)

/-! ## Runs -/

/-- What the user and the session do to the application. -/
inductive Input
  | key (key : KeyEvent) (env : Env)
  | event (ev : SessionEvent)

def step (s : App V × History) : Input → Option (App V × History)
  | .key key env => (s.1.onKey key s.2 env).map fun r => (r.1, r.2.1)
  | .event ev => some (s.1.onSessionEvent ev, s.2)

/-- A key press without modifiers, where nothing fails. -/
def pressed (code : KeyCode) : Input := .key { code } (.stable 0)

/-- A run of the application from its start over a history. -/
abbrev runNew (host user : Str) (cols rows : Nat) (history : History) (l : List Input) : Option (App V × History) :=
  Lts.run step (App.new host user cols rows, history) l

end App

end TinySsh
