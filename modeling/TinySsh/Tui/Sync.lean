import TinySsh.Tui
import TinySsh.Ui.Reach

/-!
# The local terminal follows the application

Whenever `drive` waits, the local terminal shows the application, reports the mouse as the application says, and has
been sent every copied screen once (`run_synced`). Until then the writes that are left would bring it there
(`settled`): they are decided by the two flags that `on_key` leaves for the top of the loop.
-/

namespace TinySsh

open Text

/-! ## Keys that the program handles itself -/

/-- Ctrl+Shift+M -/
def KeyEvent.togglesCapture (key : KeyEvent) : Bool :=
  (key.modifiers.control && key.modifiers.shift) && (key.code = .char 'm' || key.code = .char 'M')

/-- Ctrl+Shift+C -/
def KeyEvent.copiesScreen (key : KeyEvent) : Bool :=
  (key.modifiers.control && key.modifiers.shift) && (key.code = .char 'c' || key.code = .char 'C')

def TermEvent.togglesCapture : TermEvent → Bool
  | .key k => k.kind ≠ .release && k.togglesCapture
  | _ => false

def TermEvent.copiesScreen : TermEvent → Bool
  | .key k => k.kind ≠ .release && k.copiesScreen
  | _ => false

variable {V : Type} [Vt V] {app app' : App V} {history history' : History} {env : Env} {ev : TermEvent}

/-- The application is the same to the top of the loop of `drive`. -/
structure App.SameTop (app app' : App V) : Prop where
  capture : app'.mouseCapture = app.mouseCapture
  changed : app'.mouseCaptureChanged = app.mouseCaptureChanged
  clipboard : app'.pendingClipboard = app.pendingClipboard

/-- What a terminal event leaves for the top of the loop. -/
inductive LeavesTop (app : App V) : TermEvent → App V → Option (SessionInput × After) → Prop
  | toggled {ev : TermEvent} (ht : ev.togglesCapture = true) (hc : ev.copiesScreen = false) :
      LeavesTop app ev { app with mouseCapture := !app.mouseCapture, mouseCaptureChanged := true } none
  | copied {ev : TermEvent} (hc : ev.copiesScreen = true) :
      LeavesTop app ev { app with pendingClipboard := some (App.joinLines app.terminal.screenText) } none
  | nothing {ev : TermEvent} {app' : App V} {send : Option (SessionInput × After)} (ht : ev.togglesCapture = false)
      (hc : ev.copiesScreen = false) (happ : app.SameTop app') : LeavesTop app ev app' send

namespace App

omit [Vt V] in
theorem SameTop.refl : app.SameTop app := ⟨rfl, rfl, rfl⟩

theorem onKey_toggle {key : KeyEvent} (h : key.togglesCapture = true) (history : History) (env : Env) :
    app.onKey key history env =
      some ({ app with mouseCapture := !app.mouseCapture, mouseCaptureChanged := true }, history,
        .toggleMouseCapture) := by
  simp only [KeyEvent.togglesCapture, Bool.and_eq_true, Bool.or_eq_true, decide_eq_true_eq] at h
  obtain ⟨⟨hctrl, hshift⟩, hk | hk⟩ := h <;> simp [onKey, hctrl, hshift, hk]

/-- A key that is none of the two leaves nothing for the top of the loop. -/
theorem sameTop_onKey (h : app.Wf) {key : KeyEvent} {r : App V × History × Action} (hm : key.togglesCapture = false)
    (hc : key.copiesScreen = false) (hr : app.onKey key history env = some r) : app.SameTop r.1 := by
  by_cases hq : (key.modifiers.control && key.code = .char 'q') = true
  · rw [onKey, if_pos hq] at hr
    cases hr
    exact .refl
  rw [KeyEvent.togglesCapture] at hm
  rw [KeyEvent.copiesScreen] at hc
  cases keyStep_of_onKey h hr with
  | captured hcap => simp [captured, hq, hm, hc] at hcap
  | accepted => exact ⟨rfl, rfl, rfl⟩
  | silent => exact .refl
  | sent =>
    unfold shadowStep
    cases keyCached key <;> exact ⟨rfl, rfl, rfl⟩

theorem sameTop_onSessionEvent (app : App V) (ev : SessionEvent) : app.SameTop (app.onSessionEvent ev) := by
  cases ev with
  | output bytes | stderr bytes =>
    simp only [onSessionEvent]
    rw [onOutput_eq]
    exact ⟨rfl, rfl, rfl⟩
  | _ => exact ⟨rfl, rfl, rfl⟩

theorem sameTop_after (app : App V) (after : After) (ok : Bool) : app.SameTop (after.run app ok).1 := by
  cases after with
  | report => cases ok <;> exact ⟨rfl, rfl, rfl⟩
  | quit => exact .refl
  | resized => exact ⟨rfl, rfl, rfl⟩

end App

theorem leavesTop_of_handle {send : Option (SessionInput × After)} (h : app.Wf)
    (hh : handleTerminalEvent app history env ev = some (app', history', send)) : LeavesTop app ev app' send := by
  cases handled_of_handle hh with
  | released hk => exact .nothing (by simp [TermEvent.togglesCapture, hk]) (by simp [TermEvent.copiesScreen, hk]) .refl
  | @key key r hk hr =>
    by_cases hc : key.copiesScreen = true
    · have hkey := hc
      simp only [KeyEvent.copiesScreen, Bool.and_eq_true, Bool.or_eq_true, decide_eq_true_eq] at hkey
      rw [App.onKey_copy hkey.1.1 hkey.1.2 hkey.2] at hr
      cases hr
      exact .copied (by simp [TermEvent.copiesScreen, hk, hc])
    have hc : key.copiesScreen = false := by simpa using hc
    have hevc : TermEvent.copiesScreen (.key key) = false := by simp [TermEvent.copiesScreen, hc]
    by_cases hm : key.togglesCapture = true
    · rw [App.onKey_toggle hm] at hr
      cases hr
      exact .toggled (by simp [TermEvent.togglesCapture, hk, hm]) hevc
    have hm : key.togglesCapture = false := by simpa using hm
    exact .nothing (by simp [TermEvent.togglesCapture, hm]) hevc (App.sameTop_onKey h hm hc hr)
  | focus hev => rcases hev with rfl | rfl <;> exact .nothing rfl rfl .refl
  | _ => exact .nothing rfl rfl ⟨rfl, rfl, rfl⟩

/-! ## The writes of the loop -/

variable {split : Rect → Rect × Rect} {tty : Tty}

/-- The terminal shows the application. -/
structure Tty.Shows (split : Rect → Rect × Rect) (tty : Tty) (app : App V) : Prop where
  frame : tty.frame = some (app.render split tty.area)
  cursor : tty.cursorShown = (app.render split tty.area).cursor.isSome

theorem Tty.shows_draw (tty : Tty) (app : App V) : (tty.perform split app .draw).Shows split app := ⟨rfl, rfl⟩

/-- The top of the loop, done, where `app` is the application before its flags are cleared. -/
theorem foldl_topOps (split : Rect → Rect × Rect) (redraw : Bool) (app app' : App V) (tty : Tty) :
    (((topOps redraw app).foldl (Tty.perform split app') tty).mouseCapture =
      if app.mouseCaptureChanged then app.mouseCapture else tty.mouseCapture) ∧
    ((topOps redraw app).foldl (Tty.perform split app') tty).copied = tty.copied ++ app.pendingClipboard.toList ∧
    (redraw = true → ((topOps redraw app).foldl (Tty.perform split app') tty).Shows split app') := by
  refine ⟨?_, ?_, fun h => ?_⟩
  · unfold topOps
    cases app.mouseCaptureChanged <;> cases app.pendingClipboard <;> cases redraw <;> rfl
  · unfold topOps
    cases app.mouseCaptureChanged <;> cases app.pendingClipboard <;> cases redraw <;> simp [Tty.perform]
  · subst h
    rw [topOps, List.foldl_append]
    exact Tty.shows_draw _ _

theorem copied_prefix (app : App V) (todo : List TtyOp) (tty : Tty) :
    tty.copied <+: (todo.foldl (Tty.perform split app) tty).copied := by
  induction todo generalizing tty with
  | nil => exact List.prefix_rfl
  | cons op todo ih =>
    refine List.IsPrefix.trans ?_ (ih (tty.perform split app op))
    cases op with
    | osc52 text => exact List.prefix_append _ _
    | _ => exact List.prefix_rfl

namespace Tui

variable {t t' : Tui V} {a : TuiAct} {l : List TuiAct} {copies : List Str}

/-- The terminal once the writes before the next wait are done. -/
def settled (split : Rect → Rect × Rect) (t : Tui V) : Tty := t.todo.foldl (Tty.perform split t.sys.app) t.tty

/-- `drive`, or `finalize_after_close` at its end, waits. -/
def Waits (t : Tui V) : Prop := t.pc = .drive ∧ t.todo = [] ∧ (t.sys.ui = .select ∨ t.sys.ui = .closing)

/-- The screens copied so far. -/
def copying (t : Tui V) (copies : List Str) : TuiAct → List Str
  | .sys (.handle ev _) => if ev.copiesScreen then copies ++ [App.joinLines t.sys.app.terminal.screenText] else copies
  | _ => copies

/-- The flags for the top of the loop are down. -/
structure Quiet (app : App V) : Prop where
  changed : app.mouseCaptureChanged = false
  clipboard : app.pendingClipboard = none

/-- While `drive` runs, what is left to write brings the terminal up to date, but for a window that it has not heard of
and an event that it is handling. -/
structure Synced (split : Rect → Rect × Rect) (t : Tui V) (copies : List Str) : Prop where
  quiet : Quiet t.sys.app
  capture : (t.settled split).mouseCapture = t.sys.app.mouseCapture
  copied : (t.settled split).copied = copies
  shows : (∃ cmd after, t.sys.ui = .sending cmd after) ∨ (∃ cols rows, .resize cols rows ∈ t.sys.term) ∨
    (t.settled split).Shows split t.sys.app

/-- The invariant. -/
def Follows (split : Rect → Rect × Rect) (t : Tui V) (copies : List Str) : Prop :=
  match t.pc with
  | .enableRaw | .enter | .init => Quiet t.sys.app ∧ t.sys.app.mouseCapture = true ∧ t.tty.copied = copies ∧
      (t.pc = .init → t.tty.mouseCapture = true)
  | .drive => t.sys.ui ≠ .returned → t.Synced split copies
  | _ => True

omit [Vt V] in
theorem quiet_loopTop (app : App V) : Quiet (loopTop app) := ⟨rfl, rfl⟩

omit [Vt V] in
theorem Quiet.same (h : Quiet app) (hs : app.SameTop app') : Quiet app' :=
  ⟨hs.changed.trans h.changed, hs.clipboard.trans h.clipboard⟩

omit [Vt V] in
/-- Without flags there is nothing to do but to draw. -/
theorem Quiet.topOps_eq (h : Quiet app) (redraw : Bool) : topOps redraw app = if redraw then [.draw] else [] := by
  cases redraw <;> simp [topOps, h.changed, h.clipboard]

/-- The top of the loop, from an application that has raised its flags. -/
theorem synced_top {copies' : List Str} (happ : t'.sys.app = loopTop app) (htodo : t'.todo = topOps true app)
    (hcap : app.mouseCaptureChanged = false → t'.tty.mouseCapture = app.mouseCapture)
    (hcopied : t'.tty.copied ++ app.pendingClipboard.toList = copies') : Synced split t' copies' := by
  have hfold := foldl_topOps split true app (loopTop app) t'.tty
  rw [← htodo, ← happ] at hfold
  refine ⟨happ ▸ quiet_loopTop app, hfold.1.trans ?_, hfold.2.1.trans hcopied, .inr (.inr (hfold.2.2 rfl))⟩
  rw [happ]
  cases hch : app.mouseCaptureChanged with
  | true => rfl
  | false => exact hcap hch

/-- A step that leaves the application and the loop where they are. -/
theorem Synced.same (h : t.Synced split copies) (happ : t'.sys.app = t.sys.app) (hui : t'.sys.ui = t.sys.ui)
    (hterm : ∀ ev ∈ t.sys.term, ev ∈ t'.sys.term) (htty : t'.settled split = t.settled split) :
    t'.Synced split copies := by
  refine ⟨happ ▸ h.quiet, ?_, htty ▸ h.copied, ?_⟩
  · rw [htty, happ]
    exact h.capture
  · rw [hui, htty, happ]
    exact h.shows.imp_right (Or.imp_left fun ⟨cols, rows, hev⟩ => ⟨cols, rows, hterm _ hev⟩)

/-- Where nothing is left to do, what is settled is there. -/
theorem settled_of_todo (split : Rect → Rect × Rect) (h : t.todo = []) : t.settled split = t.tty := by
  rw [settled, h]
  rfl

omit [Vt V] in
theorem loopTop_of_quiet (h : Quiet app) : loopTop app = app := by
  rw [loopTop, ← h.changed, ← h.clipboard]

/-- The window's size decides neither what is reported nor what is copied. -/
theorem foldl_area (split : Rect → Rect × Rect) (app : App V) (todo : List TtyOp) {tty tty' : Tty}
    (hc : tty'.mouseCapture = tty.mouseCapture) (hcopied : tty'.copied = tty.copied) :
    (todo.foldl (Tty.perform split app) tty').mouseCapture = (todo.foldl (Tty.perform split app) tty).mouseCapture ∧
    (todo.foldl (Tty.perform split app) tty').copied = (todo.foldl (Tty.perform split app) tty).copied := by
  induction todo generalizing tty tty' with
  | nil => exact ⟨hc, hcopied⟩
  | cons op todo ih =>
    cases op with
    | mouseCapture on => exact ih rfl hcopied
    | osc52 text => exact ih hc (congrArg (· ++ [text]) hcopied)
    | draw => exact ih hc hcopied

/-- A step of another party. -/
theorem Follows.same (h : t.Follows split copies) (hpc : t'.pc = t.pc) (happ : t'.sys.app = t.sys.app)
    (hui : t'.sys.ui = t.sys.ui) (hterm : ∀ ev ∈ t.sys.term, ev ∈ t'.sys.term) (htodo : t'.todo = t.todo)
    (htty : t'.tty = t.tty) : t'.Follows split copies := by
  unfold Follows at h ⊢
  rw [hpc]
  have hset : t'.settled split = t.settled split := by rw [settled, settled, htodo, htty, happ]
  split at h
  · rwa [happ, htty]
  · rwa [happ, htty]
  · rwa [happ, htty]
  · exact fun hret => (h (hui ▸ hret)).same happ hui hterm hset
  · trivial

theorem follows_drive (hpc : t.pc = .drive) (h : t.sys.ui ≠ .returned → t.Synced split copies) :
    t.Follows split copies := by
  rw [Follows, hpc]
  exact h

theorem follows_returned (hpc : t.pc = .drive) (hui : t.sys.ui = .returned) : t.Follows split copies :=
  follows_drive hpc fun h => absurd hui h

/-- The task comes back from a handler. -/
theorem follows_resume (pipe : Pipe) {after : After} {ok : Bool} (h : t.Synced split copies) (htodo : t.todo = [])
    (hpc : t'.pc = .drive)
    (hsys : t'.sys = System.resume { t.sys with pipe } (after.run t.sys.app ok)) (htty : t'.tty = t.tty)
    (htop : t'.todo = if (after.run t.sys.app ok).2 then [] else topOps true (after.run t.sys.app ok).1) :
    t'.Follows split copies := by
  have hsame := App.sameTop_after t.sys.app after ok
  have hset := settled_of_todo split htodo
  refine follows_drive hpc fun hui => ?_
  unfold System.resume at hsys
  split at hsys
  · rw [hsys] at hui
    exact absurd rfl hui
  · rename_i hret
    rw [if_neg hret] at htop
    refine synced_top (by rw [hsys]) htop (fun _ => ?_) ?_
    · rw [htty, hsame.capture, ← h.capture, hset]
    · rw [htty, hsame.clipboard, h.quiet.clipboard, ← h.copied, hset]
      exact List.append_nil _

/-- The task handles a terminal event. -/
theorem follows_handled {ev : TermEvent} {env : Env} {app : App V} {send : Option (SessionInput × After)}
    (h : t.Synced split copies) (htodo : t.todo = []) (hl : LeavesTop t.sys.app ev app send) (hpc : t'.pc = .drive)
    (htty : t'.tty = t.tty)
    (hnext : send = none ∧ t'.sys.app = loopTop app ∧ t'.todo = topOps true app ∨
      t'.sys.app = app ∧ t'.todo = [] ∧ ∃ cmd after, send = some (cmd, after) ∧ t'.sys.ui = .sending cmd after) :
    t'.Follows split (copying t copies (.sys (.handle ev env))) := by
  have hset := settled_of_todo split htodo
  have hcopied : t'.tty.copied = copies := by rw [htty, ← h.copied, hset]
  have hcapture : t'.tty.mouseCapture = t.sys.app.mouseCapture := by rw [htty, ← h.capture, hset]
  refine follows_drive hpc fun _ => ?_
  rcases hnext with ⟨rfl, happ, htop⟩ | ⟨happ, hnil, cmd, after, rfl, hui⟩
  · cases hl with
    | toggled ht hc =>
      rw [copying, hc]
      refine synced_top happ htop (fun hch => nomatch hch) ?_
      rw [h.quiet.clipboard, hcopied]
      exact List.append_nil _
    | copied hc =>
      rw [copying, hc]
      exact synced_top happ htop (fun _ => hcapture) (congrArg (· ++ _) hcopied)
    | nothing ht hc hsame =>
      rw [copying, hc]
      refine synced_top happ htop (fun _ => hcapture.trans hsame.capture.symm) ?_
      rw [hsame.clipboard, h.quiet.clipboard, hcopied]
      exact List.append_nil _
  · have hset' := settled_of_todo split hnil
    cases hl with
    | nothing ht hc hsame =>
      rw [copying, hc]
      refine ⟨happ ▸ h.quiet.same hsame, ?_, hset' ▸ hcopied, .inl ⟨cmd, after, hui⟩⟩
      rw [hset', hcapture, happ, hsame.capture]

/-- **A step keeps the terminal in step with the application.** -/
theorem follows_step (hwf : t.sys.app.Wf) (h : t.Follows split copies) (hs : t.step split a = some t') :
    t'.Follows split (copying t copies a) := by
  have hdrive : t.pc = .drive → t.sys.ui ≠ .returned → t.Synced split copies := fun hpc => by
    rw [Follows, hpc] at h
    exact h
  cases stepped_of_step hs with
  | @sys a sys ha hst =>
    cases hst with
    | typed => exact h.same rfl rfl rfl (fun ev hev => List.mem_append_left _ hev) rfl rfl
    | drv | arrive | hangup => exact h.same rfl rfl rfl (fun _ => id) rfl rfl
    | handled hui hterm hh =>
      obtain ⟨hpc, htodo⟩ : t.pc = .drive ∧ t.todo = [] := by simpa [allows] using ha
      exact follows_handled (hdrive hpc (by simp [hui])) htodo (leavesTop_of_handle hwf hh) hpc rfl
        (.inl ⟨rfl, rfl, by simp only [todoAfter, hh]⟩)
    | @sends ev env term app history cmd after hui hterm hh =>
      obtain ⟨hpc, htodo⟩ : t.pc = .drive ∧ t.todo = [] := by simpa [allows] using ha
      exact follows_handled (hdrive hpc (by simp [hui])) htodo (leavesTop_of_handle hwf hh) hpc rfl
        (.inr ⟨rfl, by simp only [todoAfter, hh], cmd, after, rfl, rfl⟩)
    | sent hui hp =>
      obtain ⟨hpc, htodo⟩ : t.pc = .drive ∧ t.todo = [] := by simpa [allows] using ha
      exact follows_resume _ (hdrive hpc (by simp [hui])) htodo hpc rfl rfl
        (by simp only [todoAfter, topAfterSend, hui])
    | detached hui hdone =>
      obtain ⟨hpc, htodo⟩ : t.pc = .drive ∧ t.todo = [] := by simpa [allows] using ha
      exact follows_resume t.sys.pipe (hdrive hpc (by simp [hui])) htodo hpc rfl rfl
        (by simp only [todoAfter, topAfterSend, hui])
    | @receive ev pipe hui hterm hp hev =>
      obtain ⟨hpc, htodo⟩ : t.pc = .drive ∧ t.todo = [] := by simpa [allows] using ha
      have hsync := hdrive hpc (by simp [hui])
      have hset := settled_of_todo split htodo
      have hsame := App.sameTop_onSessionEvent t.sys.app ev
      refine follows_drive hpc fun _ => synced_top rfl (if_neg hev) (fun _ => ?_) ?_
      · rw [hsame.capture, ← hsync.capture, hset]
      · rw [hsame.clipboard, hsync.quiet.clipboard, ← hsync.copied, hset]
        exact List.append_nil _
    | @closed pipe hui hterm hp =>
      obtain ⟨hpc, htodo⟩ : t.pc = .drive ∧ t.todo = [] := by simpa [allows] using ha
      have hsync := hdrive hpc (by simp [hui])
      have hset := settled_of_todo split htodo
      have hsame := App.sameTop_onSessionEvent t.sys.app .closed
      have hcap : t.tty.mouseCapture = t.sys.app.mouseCapture := by rw [← hsync.capture, hset]
      have hcopied : t.tty.copied = copies := by rw [← hsync.copied, hset]
      exact follows_drive hpc fun _ =>
        ⟨hsync.quiet.same hsame, hcap.trans hsame.capture.symm, hcopied, .inr (.inr (Tty.shows_draw _ _))⟩
    | streamEnd hui | leave hui | finalize hui =>
      obtain ⟨hpc, -⟩ : t.pc = .drive ∧ t.todo = [] := by simpa [allows] using ha
      exact follows_returned hpc rfl
    | drop hui =>
      have hpc : t.pc = .left := by simpa [allows] using ha
      simp only [Follows, hpc]
  | @window area =>
    unfold Follows at h ⊢
    dsimp only
    split at h
    · exact h
    · exact h
    · exact h
    · intro hret
      obtain ⟨hquiet, hcap, hcopied, -⟩ := h hret
      obtain ⟨hcap', hcopied'⟩ := foldl_area split t.sys.app t.todo
        (show ({ t.tty with area } : Tty).mouseCapture = t.tty.mouseCapture from rfl) rfl
      exact ⟨hquiet, hcap'.trans hcap, hcopied'.trans hcopied,
        .inr (.inl ⟨area.width, area.height, List.mem_append_right _ List.mem_cons_self⟩)⟩
    · trivial
  | eventError hpc hui htodo =>
    have hsync := hdrive hpc (by simp [hui])
    refine h.same rfl rfl rfl (fun _ => id) ?_ rfl
    rw [hsync.quiet.topOps_eq, htodo]
    rfl
  | enableRaw hpc =>
    rw [Follows, hpc] at h
    exact ⟨h.1, h.2.1, h.2.2.1, fun hinit => nomatch hinit⟩
  | @enter done hpc hdone =>
    rw [Follows, hpc] at h
    refine ⟨h.1, h.2.1, h.2.2.1, fun _ => ?_⟩
    have hmouse : decide (1 < done) = true := decide_eq_true (Nat.lt_of_lt_of_le (by decide) hdone)
    simp only [Tty.enter, hmouse, Bool.or_true]
  | init hpc =>
    rw [Follows, hpc] at h
    obtain ⟨hquiet, hcap, hcopied, hmouse⟩ := h
    refine follows_drive rfl fun _ => synced_top (loopTop_of_quiet hquiet).symm rfl (fun _ => ?_) ?_
    · exact (hmouse rfl).trans hcap.symm
    · rw [hquiet.clipboard, hcopied]
      exact List.append_nil _
  | setupFailed => trivial
  | write hpc hui htodo | finalDraw hpc hui htodo =>
    have hsync := hdrive hpc (by simp [hui])
    refine follows_drive hpc fun _ => hsync.same rfl rfl (fun _ => id) ?_
    rw [settled, settled, htodo]
    rfl
  | writeFailed hpc ha =>
    rcases ha with ⟨-, rfl⟩ | ⟨-, rfl⟩ <;> exact follows_returned hpc rfl
  | disableRaw | leave | showCursor => trivial

/-- Nothing is sent to the clipboard that was not copied. -/
theorem copied_step (h : t.tty.copied <+: copies) (hf : t'.Follows split (copying t copies a))
    (hs : t.step split a = some t') : t'.tty.copied <+: copying t copies a := by
  have hmono : copies <+: copying t copies a := by
    unfold copying
    split
    · split
      · exact List.prefix_append _ _
      · exact List.prefix_rfl
    · exact List.prefix_rfl
  cases stepped_of_step hs with
  | write hpc hui htodo | finalDraw hpc hui htodo =>
    rw [Follows] at hf
    dsimp only at hf
    rw [hpc] at hf
    have hsync := hf (by simp [hui])
    exact hsync.copied ▸ copied_prefix _ _ _
  | setupFailed hui ha =>
    rcases ha with ⟨-, -, rfl⟩ | ⟨done, -, -, -, rfl⟩ | ⟨-, -, rfl⟩ <;> exact h.trans hmono
  | _ => exact h.trans hmono

variable {host user : Str} {area : Rect} {history₀ : History}

/-- The invariant of the application holds on the local terminal too. -/
theorem reached_step (h : Reached host user history₀ t.sys.app t.sys.history) (hs : t.step split a = some t') :
    Reached host user history₀ t'.sys.app t'.sys.history :=
  Lts.run_inv (I := fun s : System V => Reached host user history₀ s.app s.history) System.reached_step h
    (sys_of_step hs)

/-- The invariant of a run, next to the screens copied so far. -/
structure Following (split : Rect → Rect × Rect) (host user : Str) (history₀ : History) (s : Tui V × List Str) :
    Prop where
  reached : Reached host user history₀ s.1.sys.app s.1.sys.history
  follows : s.1.Follows split s.2
  copied : s.1.tty.copied <+: s.2

theorem following_new (host user : Str) (area : Rect) (history₀ : History) :
    Following split host user history₀ ((Tui.new host user area history₀ : Tui V), []) :=
  ⟨Reached.new host user history₀ _ _, ⟨⟨rfl, rfl⟩, rfl, rfl, fun h => nomatch h⟩, List.prefix_rfl⟩

theorem following_step {s s' : Tui V × List Str} (h : Following split host user history₀ s)
    (hs : Lts.withGhost (step split) copying s a = some s') : Following split host user history₀ s' := by
  obtain ⟨t', ht', rfl⟩ := Option.map_eq_some_iff.1 hs
  have hfollows := follows_step h.reached.ok.wf h.follows ht'
  exact ⟨reached_step h.reached ht', hfollows, copied_step h.copied hfollows ht'⟩

theorem run_following (h : Lts.run (step split) (Tui.new host user area history₀) l = some t) :
    ∃ copies, Lts.run (Lts.withGhost (step split) copying) (Tui.new host user area history₀, []) l = some (t, copies) ∧
      Following split host user history₀ (t, copies) := by
  have hghost : (Lts.run (Lts.withGhost (step split) copying) (Tui.new host user area history₀, []) l).map Prod.fst =
      some t := Lts.run_withGhost.trans h
  obtain ⟨⟨t, copies⟩, hr, rfl⟩ := Option.map_eq_some_iff.1 hghost
  exact ⟨copies, hr, Lts.run_inv following_step (following_new host user area history₀) hr⟩

/-- Where `drive` waits, nothing is left to write. -/
theorem Following.synced {s : Tui V × List Str} (h : Following split host user history₀ s) (hw : s.1.Waits) :
    s.1.tty.copied = s.2 ∧ s.1.tty.mouseCapture = s.1.sys.app.mouseCapture ∧
      ((∀ cols rows, .resize cols rows ∉ s.1.sys.term) → s.1.tty.Shows split s.1.sys.app) := by
  obtain ⟨hpc, htodo, hui⟩ := hw
  have hret : s.1.sys.ui ≠ .returned := by rcases hui with hui | hui <;> rw [hui] <;> simp
  have hfollows := h.follows
  rw [Follows, hpc] at hfollows
  have hsync := hfollows hret
  have hset : s.1.settled split = s.1.tty := settled_of_todo split htodo
  refine ⟨hset ▸ hsync.copied, hset ▸ hsync.capture, fun hno => ?_⟩
  rcases hsync.shows with ⟨cmd, after, hsend⟩ | ⟨cols, rows, hev⟩ | hshows
  · rw [hsend] at hui
    rcases hui with hui | hui <;> cases hui
  · exact absurd hev (hno cols rows)
  · exact hset ▸ hshows

/-- **The local terminal follows the application, along every run**: it is sent copied screens only, in order and each
once; whenever `drive` waits, all of them, mouse reporting is as the application says, and the screen shows the
application unless the window has a size that `drive` has still to hear of. -/
theorem run_synced (h : Lts.run (step split) (Tui.new host user area history₀) l = some t) :
    ∃ copies, Lts.run (Lts.withGhost (step split) copying) (Tui.new host user area history₀, []) l = some (t, copies) ∧
      t.tty.copied <+: copies ∧
      (t.Waits → t.tty.copied = copies ∧ t.tty.mouseCapture = t.sys.app.mouseCapture ∧
        ((∀ cols rows, .resize cols rows ∉ t.sys.term) → t.tty.Shows split t.sys.app)) := by
  obtain ⟨copies, hr, hI⟩ := run_following h
  exact ⟨copies, hr, hI.copied, hI.synced⟩

/-- A narrower window. -/
def narrowWindow : Rect := { App.smallWindow with width := 3, right_le := by decide }

def toggleKey : TermEvent := .key { code := .char 'M', modifiers := { control := true, shift := true } }

def copyKey : TermEvent := .key { code := .char 'c', modifiers := { control := true, shift := true } }

/-- Mouse reporting is switched off, the screen is copied, and the window gets another size while the copy is sent. -/
def switched : List TuiAct :=
  [.enableRaw true, .enter 3, .init true, .write true, .sys (.typed toggleKey), .sys (.typed copyKey),
   .sys (.handle toggleKey (.stable 0)), .write true, .write true, .sys (.handle copyKey (.stable 0)), .write true,
   .window narrowWindow, .write true]

theorem synced_switched : ∃ (t : Tui PagerVt) (copies : List Str),
    Lts.run (Lts.withGhost (step App.cutStatus) copying) (Tui.new ['h'] ['u'] App.smallWindow {}, []) switched =
      some (t, copies) ∧ copies.length = 1 ∧ t.tty.copied = copies ∧ t.tty.mouseCapture = false := by
  have hend : (Lts.run (Lts.withGhost (step App.cutStatus) copying)
      ((Tui.new ['h'] ['u'] App.smallWindow {} : Tui PagerVt), []) switched).map
      (fun s => (s.2.length, s.1.sys.app.mouseCapture, s.1.pc, s.1.todo, s.1.sys.ui)) =
        some (1, false, .drive, [], .select) := by decide +kernel
  obtain ⟨⟨t, copies⟩, ht, hend⟩ := Option.map_eq_some_iff.1 hend
  simp only [Prod.mk.injEq] at hend
  obtain ⟨hlen, hcap, hpc, htodo, hui⟩ := hend
  obtain ⟨copies', hr, -, hsync⟩ := run_synced (Lts.run_of_withGhost ht)
  obtain rfl : copies' = copies := congrArg Prod.snd (Option.some.inj (hr.symm.trans ht))
  obtain ⟨hcopied, hmouse, -⟩ := hsync ⟨hpc, htodo, .inl hui⟩
  exact ⟨t, _, ht, hlen, hcopied, hmouse.trans hcap⟩

end Tui

end TinySsh
