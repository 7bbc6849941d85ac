import TinySsh.App.Events
import TinySsh.Session.Pipe

/-!
# The user interface task

`drive` and `handle_terminal_event` (`main.rs`) next to the session driver. The loop polls terminal events first and
reads a session event only when none is ready; a terminal event that sends something waits for room in the input
channel within its arm of the `select!`. After `drive` returns, the handle is dropped.

The session part of a run of the system is a run of the pipe (`run_pipe`).
-/

namespace TinySsh

open Text

/-! ## Terminal events -/

inductive TermEvent
  | key (key : KeyEvent)
  | mouse (mouse : MouseEvent)
  | paste (text : Str)
  | resize (cols rows : Nat)
  | focusGained | focusLost
deriving DecidableEq

/-- Grid and PTY dimensions of a window: the last row is the status row. -/
def vtDims (totalCols totalRows : Nat) : Nat × Nat := (max totalCols 1, max (totalRows - 1) 1)

/-- What follows a send to the driver in `handle_terminal_event`. -/
inductive After
  | report
  | quit
  | resized (cols rows : Nat)
deriving DecidableEq

def pasteStart : List UInt8 := [0x1b, 0x5b, 0x32, 0x30, 0x30, 0x7e]

def pasteEnd : List UInt8 := [0x1b, 0x5b, 0x32, 0x30, 0x31, 0x7e]

section Handler

variable {V : Type} [Vt V]

/-- `handle_terminal_event` up to the send it awaits, if any. -/
def handleTerminalEvent (app : App V) (history : History) (env : Env) :
    TermEvent → Option (App V × History × Option (SessionInput × After))
  | .key key =>
    if key.kind = .release then some (app, history, none)
    else do
      let (app, history, action) ← app.onKey key history env
      match action with
      | .send bytes => some (app, history, some (.bytes bytes, .report))
      | .quit => some (app, history, some (.disconnect, .quit))
      | .toggleMouseCapture | .copyToClipboard | .none => some (app, history, none)
  | .mouse mouse =>
    if (mouse.kind = .scrollUp ∨ mouse.kind = .scrollDown) ∧ app.terminal.isAltScreen = false then
      let delta := if mouse.kind = .scrollUp then -3 else 3
      some ({ app with terminal := app.terminal.scrollDisplay delta }, history, none)
    else
      let bytes := encodeMouse mouse app.terminal.mode
      some (app, history, if bytes = [] then none else some (.bytes bytes, .report))
  | .paste text =>
    let bytes := if app.terminal.mode.bracketedPaste then pasteStart ++ utf8 text ++ pasteEnd else utf8 text
    some (app, history, some (.bytes bytes, .report))
  | .resize cols rows =>
    let (vtCols, vtRows) := vtDims cols rows
    some (app, history, some (.resize vtCols vtRows, .resized vtCols vtRows))
  | .focusGained | .focusLost => some (app, history, none)

/-- The rest of `handle_terminal_event` after the send, `ok` or not: the application, and whether `drive` returns. -/
def After.run (app : App V) (ok : Bool) : After → App V × Bool
  | .report => (if ok then app else { app with lastError := some "session driver has terminated" }, false)
  | .quit => (app, true)
  | .resized cols rows => (app.onResize cols rows, false)

/-- The top of the loop of `drive`: mouse capture is switched and the clipboard text is sent. -/
def loopTop (app : App V) : App V := { app with mouseCaptureChanged := false, pendingClipboard := none }

end Handler

/-! ## The system -/

/-- The control points of the task that runs `run_tui`. -/
inductive UiPc
  /-- The `select!` of `drive`. -/
  | select
  /-- A send to the driver. -/
  | sending (cmd : SessionInput) (after : After)
  /-- `Closed` was received; the final state is shown. -/
  | closing
  /-- `drive` has returned. -/
  | returned
  | dropped
deriving DecidableEq

structure System (V : Type) where
  app : App V
  history : History
  /-- The terminal events that are ready. -/
  term : List TermEvent := []
  ui : UiPc := .select
  pipe : Pipe := {}

inductive SysAct
  /-- A terminal event becomes ready. -/
  | typed (ev : TermEvent)
  /-- The task handles a terminal event up to the send. -/
  | handle (ev : TermEvent) (env : Env)
  /-- The send completes. -/
  | sent (cmd : SessionInput)
  /-- The send fails, since the driver has terminated. -/
  | detached (cmd : SessionInput)
  | receive (ev : SessionEvent)
  /-- The event channel is closed and empty. -/
  | streamEnd
  /-- The terminal's event stream ends, or drawing fails. -/
  | leave
  | finalize
  | drop
  | drv (io : Io)
  | arrive (msg : ChannelMsg)
  | hangup

namespace System

variable {V : Type} [Vt V]

def new (host user : Str) (cols rows : Nat) (history : History) : System V :=
  { app := App.new host user cols rows, history }

/-- The task after a handler: back at the `select!`, or returned. -/
def resume (s : System V) (r : App V × Bool) : System V :=
  if r.2 then { s with app := r.1, ui := .returned } else { s with app := loopTop r.1, ui := .select }

/-- The send of the task completes (`ok`) or fails. -/
def complete (s : System V) (cmd : SessionInput) (ok : Bool) : Option (System V) :=
  match s.ui with
  | .sending cmd' after => if cmd = cmd' then some (s.resume (after.run s.app ok)) else none
  | _ => none

/-- A step of the session. -/
def session (s : System V) (a : Act) : Option (System V) := (s.pipe.step a).map fun pipe => { s with pipe }

def step (s : System V) : SysAct → Option (System V)
  | .typed ev => some { s with term := s.term ++ [ev] }
  | .handle ev env =>
    match s.ui, s.term with
    | .select, e :: term =>
      if e = ev then do
        let (app, history, send) ← handleTerminalEvent s.app s.history env ev
        match send with
        | none => some { s with app := loopTop app, history, term }
        | some (cmd, after) => some { s with app, history, term, ui := .sending cmd after }
      else none
    | _, _ => none
  | .sent cmd => do
    let s ← s.session (.push cmd)
    s.complete cmd true
  | .detached cmd => if s.pipe.pc = .done then s.complete cmd false else none
  | .receive ev =>
    -- the poll is biased: no terminal event is ready
    if s.ui = .select ∧ s.term = [] then do
      let s ← s.session (.pop ev)
      let app := s.app.onSessionEvent ev
      some (if ev = .closed then { s with app, ui := .closing } else { s with app := loopTop app })
    else none
  | .streamEnd =>
    if s.ui = .select ∧ s.term = [] ∧ s.pipe.events = [] ∧ s.pipe.pc = .done then some { s with ui := .returned }
    else none
  | .leave => if s.ui = .select then some { s with ui := .returned } else none
  | .finalize => if s.ui = .closing then some { s with ui := .returned } else none
  | .drop => if s.ui = .returned then (s.session .drop).map fun s => { s with ui := .dropped } else none
  | .drv io => s.session (.drv io)
  | .arrive msg => s.session (.arrive msg)
  | .hangup => s.session .hangup

end System

/-! ## The session in the system -/

/-- The step of the pipe that a step of the system contains. -/
def SysAct.act : SysAct → Option Act
  | .sent cmd => some (.push cmd)
  | .receive ev => some (.pop ev)
  | .drop => some .drop
  | .drv io => some (.drv io)
  | .arrive msg => some (.arrive msg)
  | .hangup => some .hangup
  | _ => none

/-- The steps of the pipe along a run. -/
def acts (l : List SysAct) : List Act := l.filterMap SysAct.act

namespace System

variable {V : Type} {s s' : System V} {a : SysAct} {l : List SysAct}

theorem session_some {act : Act} (h : s.session act = some s') :
    ∃ pipe, s.pipe.step act = some pipe ∧ s' = { s with pipe } := by
  obtain ⟨pipe, hp, rfl⟩ := Option.map_eq_some_iff.1 h
  exact ⟨pipe, hp, rfl⟩

theorem pipe_resume (r : App V × Bool) : (s.resume r).pipe = s.pipe := by
  unfold resume
  split <;> rfl

variable [Vt V]

/-- What a step can do. -/
inductive Stepped (s : System V) : SysAct → System V → Prop
  | typed {ev : TermEvent} : Stepped s (.typed ev) { s with term := s.term ++ [ev] }
  | handled {ev : TermEvent} {env : Env} {term : List TermEvent} {app : App V} {history : History}
      (hui : s.ui = .select) (ht : s.term = ev :: term)
      (hh : handleTerminalEvent s.app s.history env ev = some (app, history, none)) :
      Stepped s (.handle ev env) { s with app := loopTop app, history, term }
  | sends {ev : TermEvent} {env : Env} {term : List TermEvent} {app : App V} {history : History} {cmd : SessionInput}
      {after : After} (hui : s.ui = .select) (ht : s.term = ev :: term)
      (hh : handleTerminalEvent s.app s.history env ev = some (app, history, some (cmd, after))) :
      Stepped s (.handle ev env) { s with app, history, term, ui := .sending cmd after }
  | sent {cmd : SessionInput} {after : After} {pipe : Pipe} (hui : s.ui = .sending cmd after)
      (hp : s.pipe.step (.push cmd) = some pipe) :
      Stepped s (.sent cmd) (resume { s with pipe } (after.run s.app true))
  | detached {cmd : SessionInput} {after : After} (hui : s.ui = .sending cmd after) (hpc : s.pipe.pc = .done) :
      Stepped s (.detached cmd) (s.resume (after.run s.app false))
  | receive {ev : SessionEvent} {pipe : Pipe} (hui : s.ui = .select) (ht : s.term = [])
      (hp : s.pipe.step (.pop ev) = some pipe) (hev : ev ≠ .closed) :
      Stepped s (.receive ev) { s with pipe, app := loopTop (s.app.onSessionEvent ev) }
  | closed {pipe : Pipe} (hui : s.ui = .select) (ht : s.term = []) (hp : s.pipe.step (.pop .closed) = some pipe) :
      Stepped s (.receive .closed) { s with pipe, app := s.app.onSessionEvent .closed, ui := .closing }
  | streamEnd (hui : s.ui = .select) (ht : s.term = []) (he : s.pipe.events = []) (hpc : s.pipe.pc = .done) :
      Stepped s .streamEnd { s with ui := .returned }
  | leave (hui : s.ui = .select) : Stepped s .leave { s with ui := .returned }
  | finalize (hui : s.ui = .closing) : Stepped s .finalize { s with ui := .returned }
  | drop {pipe : Pipe} (hui : s.ui = .returned) (hp : s.pipe.step .drop = some pipe) :
      Stepped s .drop { s with pipe, ui := .dropped }
  | drv {io : Io} {pipe : Pipe} (hp : s.pipe.step (.drv io) = some pipe) : Stepped s (.drv io) { s with pipe }
  | arrive {msg : ChannelMsg} {pipe : Pipe} (hp : s.pipe.step (.arrive msg) = some pipe) :
      Stepped s (.arrive msg) { s with pipe }
  | hangup {pipe : Pipe} (hp : s.pipe.step .hangup = some pipe) : Stepped s .hangup { s with pipe }

theorem complete_some {cmd : SessionInput} {ok : Bool} (h : s.complete cmd ok = some s') :
    ∃ after, s.ui = .sending cmd after ∧ s' = s.resume (after.run s.app ok) := by
  unfold complete at h
  split at h
  · rename_i cmd' after hui
    simp only [Option.ite_none_right_eq_some, Option.some.injEq] at h
    obtain ⟨rfl, rfl⟩ := h
    exact ⟨after, hui, rfl⟩
  · cases h

theorem stepped_of_step (hs : s.step a = some s') : Stepped s a s' := by
  cases a with
  | typed ev => cases hs; exact .typed
  | handle ev env =>
    simp only [step] at hs
    split at hs
    · rename_i e term hui ht
      simp only [Option.ite_none_right_eq_some] at hs
      obtain ⟨rfl, hs⟩ := hs
      obtain ⟨⟨app, history, send⟩, hh, hs⟩ := Option.bind_eq_some_iff.1 hs
      rcases send with _ | ⟨cmd, after⟩ <;> cases hs
      · exact .handled hui ht hh
      · exact .sends hui ht hh
    · cases hs
  | sent cmd =>
    obtain ⟨t, ht, hs⟩ := Option.bind_eq_some_iff.1 hs
    obtain ⟨pipe, hp, rfl⟩ := session_some ht
    obtain ⟨after, hui, rfl⟩ := complete_some hs
    exact .sent hui hp
  | detached cmd =>
    simp only [step, Option.ite_none_right_eq_some] at hs
    obtain ⟨after, hui, rfl⟩ := complete_some hs.2
    exact .detached hui hs.1
  | receive ev =>
    simp only [step, Option.ite_none_right_eq_some] at hs
    obtain ⟨⟨hui, ht⟩, hs⟩ := hs
    obtain ⟨t, hsess, hs⟩ := Option.bind_eq_some_iff.1 hs
    obtain ⟨pipe, hp, rfl⟩ := session_some hsess
    by_cases hev : ev = .closed
    · subst hev
      cases hs
      exact .closed hui ht hp
    · simp only [if_neg hev, Option.some.injEq] at hs
      subst hs
      exact .receive hui ht hp hev
  | streamEnd =>
    simp only [step, Option.ite_none_right_eq_some, Option.some.injEq] at hs
    obtain ⟨⟨hui, ht, he, hpc⟩, rfl⟩ := hs
    exact .streamEnd hui ht he hpc
  | leave =>
    simp only [step, Option.ite_none_right_eq_some, Option.some.injEq] at hs
    obtain ⟨hui, rfl⟩ := hs
    exact .leave hui
  | finalize =>
    simp only [step, Option.ite_none_right_eq_some, Option.some.injEq] at hs
    obtain ⟨hui, rfl⟩ := hs
    exact .finalize hui
  | drop =>
    simp only [step, Option.ite_none_right_eq_some] at hs
    obtain ⟨hui, hs⟩ := hs
    obtain ⟨t, ht, rfl⟩ := Option.map_eq_some_iff.1 hs
    obtain ⟨pipe, hp, rfl⟩ := session_some ht
    exact .drop hui hp
  | drv io =>
    obtain ⟨pipe, hp, rfl⟩ := session_some hs
    exact .drv hp
  | arrive msg =>
    obtain ⟨pipe, hp, rfl⟩ := session_some hs
    exact .arrive hp
  | hangup =>
    obtain ⟨pipe, hp, rfl⟩ := session_some hs
    exact .hangup hp

theorem pipe_of_step (hs : s.step a = some s') : Lts.run Pipe.step s.pipe a.act.toList = some s'.pipe := by
  cases stepped_of_step hs with
  | sent hui hp => simp [SysAct.act, hp, pipe_resume]
  | detached => simp [SysAct.act, pipe_resume]
  | receive _ _ hp | closed _ _ hp | drop _ hp | drv hp | arrive hp | hangup hp => simp [SysAct.act, hp]
  | _ => rfl

/-- **The session part of a run is a run of the pipe.** -/
theorem run_pipe (h : Lts.run step s l = some s') : Lts.run Pipe.step s.pipe (acts l) = some s'.pipe :=
  Lts.run_project System.pipe SysAct.act pipe_of_step h

/-- The opening of a shell. -/
def opening : List SysAct :=
  [.drv (.send (.stateChanged .connecting) true), .drv (.connect (.ok ())),
   .drv (.send (.stateChanged .authenticated) true), .drv (.openShell (.ok ())),
   .drv (.send (.stateChanged .shellOpen) true)]

end System

end TinySsh
