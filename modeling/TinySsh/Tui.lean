import TinySsh.Ui
import TinySsh.Screen

/-!
# The user interface on the local terminal

`run_tui` with `setup_terminal`, `drive` and `teardown_terminal` (`main.rs`) as seen from the local terminal: the modes
that the program switches, what it paints, and what it copies to the clipboard. Between two waits of `drive`, the top of
its loop writes to the terminal (`topOps`); each of these writes may fail, and then `drive` returns.

Without the local terminal, a run is one of `System` (`run_system`).
-/

namespace TinySsh

open Text

/-! ## The local terminal -/

structure Tty where
  /-- The window. -/
  area : Rect
  raw : Bool := false
  altScreen : Bool := false
  mouseCapture : Bool := false
  bracketedPaste : Bool := false
  cursorShown : Bool := true
  /-- What was painted last, unless a write failed. -/
  frame : Option Frame := none
  /-- The texts sent with OSC 52. -/
  copied : List Str := []

/-- The first commands of an `execute!` take effect: the one of `setup_terminal`. -/
def Tty.enter (tty : Tty) (done : Nat) : Tty :=
  { tty with
    altScreen := tty.altScreen || decide (0 < done)
    mouseCapture := tty.mouseCapture || decide (1 < done)
    bracketedPaste := tty.bracketedPaste || decide (2 < done) }

/-- The first commands of an `execute!` take effect: the one of `teardown_terminal`. -/
def Tty.leave (tty : Tty) (done : Nat) : Tty :=
  { tty with
    altScreen := tty.altScreen && !decide (0 < done)
    mouseCapture := tty.mouseCapture && !decide (1 < done)
    bracketedPaste := tty.bracketedPaste && !decide (2 < done) }

/-- A write of `drive` to the terminal. -/
inductive TtyOp
  | mouseCapture (on : Bool)
  | osc52 (text : Str)
  | draw
deriving DecidableEq

/-- Where `run_tui` is. -/
inductive TuiPc
  /-- The calls of `setup_terminal`. -/
  | enableRaw | enter | init
  /-- `drive`, or its end. -/
  | drive
  /-- The calls of `teardown_terminal` after the first one. -/
  | leave | showCursor
  /-- `run_tui` has returned, but for the drop of the handle. -/
  | left
deriving DecidableEq

structure Tui (V : Type) where
  sys : System V
  tty : Tty
  pc : TuiPc := .enableRaw
  /-- The writes of the loop of `drive` before its next wait. -/
  todo : List TtyOp := []

inductive TuiAct
  | sys (a : SysAct)
  /-- The window gets another size, which is also a terminal event. -/
  | window (area : Rect)
  /-- The event stream yields an error. -/
  | eventError
  | enableRaw (ok : Bool)
  /-- `execute!` of three commands, of which so many take effect. -/
  | enter (done : Nat)
  /-- `Terminal::new` -/
  | init (ok : Bool)
  /-- The next write of the loop. -/
  | write (ok : Bool)
  /-- The drawing of `finalize_after_close`. -/
  | finalDraw (ok : Bool)
  | disableRaw (ok : Bool)
  | leave (done : Nat)
  | showCursor (ok : Bool)

section Model

variable {V : Type} [Vt V]

/-- The top of the loop of `drive`, with its flag for drawing. -/
def topOps (redraw : Bool) (app : App V) : List TtyOp :=
  (if app.mouseCaptureChanged then [.mouseCapture app.mouseCapture] else []) ++
    (app.pendingClipboard.map TtyOp.osc52).toList ++ (if redraw || app.mouseCaptureChanged then [.draw] else [])

/-- A write takes effect; `split` is the layout of the window. -/
def Tty.perform (split : Rect → Rect × Rect) (app : App V) (tty : Tty) : TtyOp → Tty
  | .mouseCapture on => { tty with mouseCapture := on }
  | .osc52 text => { tty with copied := tty.copied ++ [text] }
  | .draw =>
    let frame := app.render split tty.area
    { tty with frame := some frame, cursorShown := frame.cursor.isSome }

namespace Tui

/-- `main` up to `run_tui`, in a window of the area. -/
def new (host user : Str) (area : Rect) (history : History) : Tui V :=
  let (vtCols, vtRows) := vtDims area.width area.height
  { sys := System.new host user vtCols vtRows history, tty := { area } }

/-- The task takes the step of the system where `run_tui` is. -/
def allows (t : Tui V) : SysAct → Bool
  | .typed (.resize _ _) => false
  | .typed _ | .drv _ | .arrive _ | .hangup => true
  | .drop => t.pc = .left
  | _ => t.pc = .drive && t.todo = []

/-- What the loop writes after a send of `handle_terminal_event`. -/
def topAfterSend (t : Tui V) (ok : Bool) : List TtyOp :=
  match t.sys.ui with
  | .sending _ after => if (after.run t.sys.app ok).2 then [] else topOps true (after.run t.sys.app ok).1
  | _ => []

/-- What the loop writes before its next wait, after a step of the system. -/
def todoAfter (t : Tui V) : SysAct → List TtyOp
  | .handle ev env =>
    match handleTerminalEvent t.sys.app t.sys.history env ev with
    | some (app, _, none) => topOps true app
    | _ => []
  | .sent _ => t.topAfterSend true
  | .detached _ => t.topAfterSend false
  | .receive ev => if ev = .closed then [.draw] else topOps true (t.sys.app.onSessionEvent ev)
  | _ => t.todo

/-- `drive` or `setup_terminal` returns an error. -/
def abandon (t : Tui V) (pc : TuiPc) : Option (Tui V) :=
  (t.sys.step .leave).map fun sys => { t with sys, pc, todo := [] }

variable (split : Rect → Rect × Rect)

def step (t : Tui V) : TuiAct → Option (Tui V)
  | .sys a => if t.allows a then (t.sys.step a).map fun sys => { t with sys, todo := t.todoAfter a } else none
  | .window area => (t.sys.step (.typed (.resize area.width area.height))).map fun sys =>
    { t with sys, tty := { t.tty with area } }
  | .eventError =>
    if t.pc = .drive ∧ t.sys.ui = .select ∧ t.todo = [] then some { t with todo := topOps false t.sys.app } else none
  | .enableRaw ok =>
    if t.pc = .enableRaw then
      if ok then some { t with tty := { t.tty with raw := true }, pc := .enter } else t.abandon .left
    else none
  | .enter done =>
    if t.pc = .enter then
      let t := { t with tty := t.tty.enter done }
      if done ≥ 3 then some { t with pc := .init } else t.abandon .left
    else none
  | .init ok =>
    if t.pc = .init then if ok then some { t with pc := .drive, todo := topOps true t.sys.app } else t.abandon .left
    else none
  | .write ok =>
    match t.todo with
    | op :: todo =>
      if t.pc = .drive ∧ t.sys.ui = .select then
        if ok then some { t with tty := t.tty.perform split t.sys.app op, todo }
        else ({ t with tty := { t.tty with frame := none } } : Tui V).abandon .drive
      else none
    | [] => none
  | .finalDraw ok =>
    match t.todo with
    | op :: todo =>
      if t.pc = .drive ∧ t.sys.ui = .closing then
        if ok then some { t with tty := t.tty.perform split t.sys.app op, todo }
        else (t.sys.step .finalize).map fun sys => { t with sys, todo := [], tty := { t.tty with frame := none } }
      else none
    | [] => none
  | .disableRaw ok =>
    if t.pc = .drive ∧ t.sys.ui = .returned then
      some { t with tty := { t.tty with raw := t.tty.raw && !ok }, pc := .leave }
    else none
  | .leave done => if t.pc = .leave then some { t with tty := t.tty.leave done, pc := .showCursor } else none
  | .showCursor ok =>
    if t.pc = .showCursor then some { t with tty := { t.tty with cursorShown := t.tty.cursorShown || ok }, pc := .left }
    else none

end Tui

end Model

/-! ## Without the local terminal -/

/-- The step of the system that a step contains. -/
def TuiAct.act : TuiAct → Option SysAct
  | .sys a => some a
  | .window area => some (.typed (.resize area.width area.height))
  | .enableRaw false | .init false | .write false => some .leave
  | .enter done => if done ≥ 3 then none else some .leave
  | .finalDraw false => some .finalize
  | _ => none

/-- The steps of the system along a run. -/
def sysActs (l : List TuiAct) : List SysAct := l.filterMap TuiAct.act

namespace Tui

variable {V : Type} [Vt V] {split : Rect → Rect × Rect} {t t' : Tui V} {a : TuiAct} {l : List TuiAct}

/-- What a step can do. -/
inductive Stepped (split : Rect → Rect × Rect) (t : Tui V) : TuiAct → Tui V → Prop
  | sys {a : SysAct} {sys : System V} (ha : t.allows a = true) (hs : System.Stepped t.sys a sys) :
      Stepped split t (.sys a) { t with sys, todo := t.todoAfter a }
  | window {area : Rect} : Stepped split t (.window area)
      { t with
        sys := { t.sys with term := t.sys.term ++ [.resize area.width area.height] }
        tty := { t.tty with area } }
  | eventError (hpc : t.pc = .drive) (hui : t.sys.ui = .select) (htodo : t.todo = []) :
      Stepped split t .eventError { t with todo := topOps false t.sys.app }
  | enableRaw (hpc : t.pc = .enableRaw) :
      Stepped split t (.enableRaw true) { t with tty := { t.tty with raw := true }, pc := .enter }
  | enter {done : Nat} (hpc : t.pc = .enter) (hdone : done ≥ 3) :
      Stepped split t (.enter done) { t with tty := t.tty.enter done, pc := .init }
  | init (hpc : t.pc = .init) : Stepped split t (.init true) { t with pc := .drive, todo := topOps true t.sys.app }
  | setupFailed {a : TuiAct} {tty : Tty} (hui : t.sys.ui = .select)
      (ha : t.pc = .enableRaw ∧ a = .enableRaw false ∧ tty = t.tty ∨
        (∃ done < 3, t.pc = .enter ∧ a = .enter done ∧ tty = t.tty.enter done) ∨
        t.pc = .init ∧ a = .init false ∧ tty = t.tty) :
      Stepped split t a { t with sys := { t.sys with ui := .returned }, pc := .left, todo := [], tty }
  | write {op : TtyOp} {todo : List TtyOp} (hpc : t.pc = .drive) (hui : t.sys.ui = .select)
      (htodo : t.todo = op :: todo) :
      Stepped split t (.write true) { t with tty := t.tty.perform split t.sys.app op, todo }
  | finalDraw {op : TtyOp} {todo : List TtyOp} (hpc : t.pc = .drive) (hui : t.sys.ui = .closing)
      (htodo : t.todo = op :: todo) :
      Stepped split t (.finalDraw true) { t with tty := t.tty.perform split t.sys.app op, todo }
  | writeFailed {a : TuiAct} (hpc : t.pc = .drive)
      (ha : t.sys.ui = .select ∧ a = .write false ∨ t.sys.ui = .closing ∧ a = .finalDraw false) :
      Stepped split t a
        { t with sys := { t.sys with ui := .returned }, todo := [], tty := { t.tty with frame := none } }
  | disableRaw {ok : Bool} (hpc : t.pc = .drive) (hui : t.sys.ui = .returned) :
      Stepped split t (.disableRaw ok) { t with tty := { t.tty with raw := t.tty.raw && !ok }, pc := .leave }
  | leave {done : Nat} (hpc : t.pc = .leave) :
      Stepped split t (.leave done) { t with tty := t.tty.leave done, pc := .showCursor }
  | showCursor {ok : Bool} (hpc : t.pc = .showCursor) :
      Stepped split t (.showCursor ok)
        { t with tty := { t.tty with cursorShown := t.tty.cursorShown || ok }, pc := .left }

/-- `drive` or `setup_terminal` has returned an error. -/
theorem abandon_some {pc : TuiPc} (h : t.abandon pc = some t') :
    t.sys.ui = .select ∧ t' = { t with sys := { t.sys with ui := .returned }, pc, todo := [] } := by
  obtain ⟨sys, hs, rfl⟩ := Option.map_eq_some_iff.1 h
  cases System.stepped_of_step hs with
  | leave hui => exact ⟨hui, rfl⟩

theorem stepped_of_step (h : t.step split a = some t') : Stepped split t a t' := by
  cases a with
  | sys a =>
    simp only [step, Option.ite_none_right_eq_some] at h
    obtain ⟨ha, h⟩ := h
    obtain ⟨sys, hs, rfl⟩ := Option.map_eq_some_iff.1 h
    exact .sys ha (System.stepped_of_step hs)
  | window area =>
    simp only [step, System.step, Option.map_some, Option.some.injEq] at h
    subst h
    exact .window
  | eventError =>
    simp only [step, Option.ite_none_right_eq_some, Option.some.injEq] at h
    obtain ⟨⟨hpc, hui, htodo⟩, rfl⟩ := h
    exact .eventError hpc hui htodo
  | enableRaw ok =>
    simp only [step, Option.ite_none_right_eq_some] at h
    obtain ⟨hpc, h⟩ := h
    cases ok with
    | true =>
      cases h
      exact .enableRaw hpc
    | false =>
      obtain ⟨hui, rfl⟩ := abandon_some h
      exact .setupFailed hui (.inl ⟨hpc, rfl, rfl⟩)
  | enter done =>
    simp only [step, Option.ite_none_right_eq_some] at h
    obtain ⟨hpc, h⟩ := h
    by_cases hdone : done ≥ 3
    · rw [if_pos hdone] at h
      cases h
      exact .enter hpc hdone
    · rw [if_neg hdone] at h
      obtain ⟨hui, rfl⟩ := abandon_some h
      exact .setupFailed hui (.inr (.inl ⟨done, Nat.lt_of_not_le hdone, hpc, rfl, rfl⟩))
  | init ok =>
    simp only [step, Option.ite_none_right_eq_some] at h
    obtain ⟨hpc, h⟩ := h
    cases ok with
    | true =>
      cases h
      exact .init hpc
    | false =>
      obtain ⟨hui, rfl⟩ := abandon_some h
      exact .setupFailed hui (.inr (.inr ⟨hpc, rfl, rfl⟩))
  | write ok =>
    simp only [step] at h
    split at h
    · rename_i op todo htodo
      simp only [Option.ite_none_right_eq_some] at h
      obtain ⟨⟨hpc, hui⟩, h⟩ := h
      cases ok with
      | true =>
        cases h
        exact .write hpc hui htodo
      | false =>
        obtain ⟨-, rfl⟩ := abandon_some h
        have hst : Stepped split t (.write false) _ :=
          .writeFailed hpc (.inl ⟨hui, rfl⟩)
        rw [hpc] at hst
        exact hst
    · cases h
  | finalDraw ok =>
    simp only [step] at h
    split at h
    · rename_i op todo htodo
      simp only [Option.ite_none_right_eq_some] at h
      obtain ⟨⟨hpc, hui⟩, h⟩ := h
      cases ok with
      | true =>
        cases h
        exact .finalDraw hpc hui htodo
      | false =>
        obtain ⟨sys, hs, rfl⟩ := Option.map_eq_some_iff.1 h
        cases System.stepped_of_step hs
        exact .writeFailed hpc (.inr ⟨hui, rfl⟩)
    · cases h
  | disableRaw ok =>
    simp only [step, Option.ite_none_right_eq_some, Option.some.injEq] at h
    obtain ⟨⟨hpc, hui⟩, rfl⟩ := h
    exact .disableRaw hpc hui
  | leave done =>
    simp only [step, Option.ite_none_right_eq_some, Option.some.injEq] at h
    obtain ⟨hpc, rfl⟩ := h
    exact .leave hpc
  | showCursor ok =>
    simp only [step, Option.ite_none_right_eq_some, Option.some.injEq] at h
    obtain ⟨hpc, rfl⟩ := h
    exact .showCursor hpc

/-- The system takes the step of the system that a step contains. -/
theorem sys_of_step (h : t.step split a = some t') : Lts.run System.step t.sys a.act.toList = some t'.sys := by
  have habandon : ∀ {t : Tui V} {pc : TuiPc}, t.abandon pc = some t' →
      Lts.run System.step t.sys [.leave] = some t'.sys := fun h => by
    obtain ⟨sys, hs, rfl⟩ := Option.map_eq_some_iff.1 h
    simp [hs]
  cases a with
  | sys a =>
    simp only [step, Option.ite_none_right_eq_some] at h
    obtain ⟨sys, hs, rfl⟩ := Option.map_eq_some_iff.1 h.2
    simp [TuiAct.act, hs]
  | window area =>
    simp only [step] at h
    obtain ⟨sys, hs, rfl⟩ := Option.map_eq_some_iff.1 h
    simp [TuiAct.act, hs]
  | enableRaw ok | init ok =>
    simp only [step, Option.ite_none_right_eq_some] at h
    cases ok with
    | true =>
      cases h.2
      rfl
    | false => exact habandon h.2
  | enter done =>
    simp only [step, Option.ite_none_right_eq_some] at h
    by_cases hdone : done ≥ 3
    · rw [if_pos hdone] at h
      cases h.2
      simp [TuiAct.act, hdone]
    · rw [if_neg hdone] at h
      have hrun := habandon h.2
      rwa [TuiAct.act, if_neg hdone]
  | write ok =>
    simp only [step] at h
    split at h
    · simp only [Option.ite_none_right_eq_some] at h
      cases ok with
      | true =>
        cases h.2
        rfl
      | false =>
        have hrun := habandon (show Tui.abandon _ _ = some t' from h.2)
        exact hrun
    · cases h
  | finalDraw ok =>
    simp only [step] at h
    split at h
    · simp only [Option.ite_none_right_eq_some] at h
      cases ok with
      | true =>
        cases h.2
        rfl
      | false =>
        obtain ⟨sys, hs, rfl⟩ := Option.map_eq_some_iff.1 h.2
        simp [TuiAct.act, hs]
    · cases h
  | eventError | disableRaw | leave | showCursor =>
    simp only [step, Option.ite_none_right_eq_some, Option.some.injEq] at h
    obtain ⟨-, rfl⟩ := h
    rfl

/-- **Without the local terminal, a run is a run of the system.** -/
theorem run_system (h : Lts.run (step split) t l = some t') : Lts.run System.step t.sys (sysActs l) = some t'.sys :=
  Lts.run_project Tui.sys TuiAct.act sys_of_step h

end Tui

end TinySsh
