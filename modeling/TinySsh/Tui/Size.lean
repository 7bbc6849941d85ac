import TinySsh.Tui.Sync
import TinySsh.Ui.Mirror

/-!
# Three sizes

The window of the local terminal, the grid of the emulator and the remote PTY. A resize of the window goes through the
terminal's events to the grid and, through the driver, to the remote. Along every run they agree but for the sizes
still under way (`run_sized`).
-/

namespace TinySsh

open Text Driver

/-- The emulator has a size, which output and scrolling leave as it is. -/
structure Vt.Sized (V : Type) [Vt V] (dims : V → Nat × Nat) : Prop where
  new (cols rows : Nat) : dims (Vt.new cols rows) = (cols, rows)
  advance (v : V) (bytes : List UInt8) : dims (Vt.advance v bytes) = dims v
  resize (v : V) (cols rows : Nat) : dims (Vt.resize v cols rows) = (cols, rows)
  scrollDisplay (v : V) (n : Int) : dims (Vt.scrollDisplay v n) = dims v

theorem MiniVt.sized : Vt.Sized MiniVt fun v => (v.cols, v.rows) where
  new _ _ := rfl
  advance v bytes := by
    have hbyte : ∀ (v : MiniVt) b, ((v.advanceByte b).cols, (v.advanceByte b).rows) = (v.cols, v.rows) := fun v b => by
      unfold MiniVt.advanceByte
      split <;> (repeat' split) <;> rfl
    show ((bytes.foldl MiniVt.advanceByte v).cols, (bytes.foldl MiniVt.advanceByte v).rows) = (v.cols, v.rows)
    induction bytes generalizing v with
    | nil => rfl
    | cons b bytes ih => rw [List.foldl_cons, ih, hbyte]
  resize _ _ _ := rfl
  scrollDisplay _ _ := rfl

/-! ## Sizes under way -/

def SessionInput.size : SessionInput → Option (Nat × Nat)
  | .resize cols rows => some (cols, rows)
  | _ => none

def After.size : After → Option (Nat × Nat)
  | .resized cols rows => some (cols, rows)
  | _ => none

/-- The size of the grid that an event asks for. -/
def TermEvent.size : TermEvent → Option (Nat × Nat)
  | .resize cols rows => some (vtDims cols rows)
  | _ => none

/-- The size once the send under way is done. -/
def UiPc.size (old : Nat × Nat) : UiPc → Nat × Nat
  | .sending cmd _ => cmd.size.getD old
  | _ => old

/-- The size after the inputs. -/
def lastSize (old : Nat × Nat) (cmds : List SessionInput) : Nat × Nat :=
  cmds.foldl (fun size cmd => cmd.size.getD size) old

/-- The size after the events. -/
def comingSize (old : Nat × Nat) (evs : List TermEvent) : Nat × Nat := evs.foldl (fun size ev => ev.size.getD size) old

/-- The size of the PTY after the calls, from the one it was requested with. -/
def ptySize (old : Nat × Nat) (l : List Io) : Nat × Nat :=
  l.foldl (fun size io => match io with | .resize cols rows (.ok ()) => (cols, rows) | _ => size) old

/-- Without events for it the size stays. -/
theorem comingSize_of_none {old : Nat × Nat} {evs : List TermEvent} (h : ∀ cols rows, .resize cols rows ∉ evs) :
    comingSize old evs = old := by
  induction evs with
  | nil => rfl
  | cons ev evs ih =>
    have hev : ev.size = none := by
      cases ev with
      | resize cols rows => exact absurd List.mem_cons_self (h cols rows)
      | _ => rfl
    have hrest : ∀ cols rows, TermEvent.resize cols rows ∉ evs := fun cols rows hm =>
      h cols rows (List.mem_cons_of_mem _ hm)
    rw [comingSize, List.foldl_cons, hev]
    exact ih hrest

/-- While no resize fails, the PTY has the last size that it was called with. -/
theorem ptySize_eq {old : Nat × Nat} {l : List Io} (h : ∀ cols rows e, .resize cols rows (.error e) ∉ l) :
    ptySize old l = lastSize old (calls l) := by
  induction l generalizing old with
  | nil => rfl
  | cons io l ih =>
    have hrest : ∀ cols rows e, Io.resize cols rows (.error e) ∉ l := fun cols rows e hm =>
      h cols rows e (List.mem_cons_of_mem _ hm)
    cases io with
    | resize cols rows r =>
      cases r with
      | ok u => exact ih hrest
      | error e => exact absurd List.mem_cons_self (h cols rows e)
    | _ => exact ih hrest

variable {V : Type} [Vt V] {dims : V → Nat × Nat} {app app' : App V} {history history' : History} {env : Env}
  {ev : TermEvent}

/-- The size of the grid. -/
def App.gridSize (dims : V → Nat × Nat) (app : App V) : Nat × Nat := dims app.terminal.inner

/-- What a terminal event does to the sizes. -/
structure AsksSize (dims : V → Nat × Nat) (app app' : App V) (ev : TermEvent) (send : Option (SessionInput × After)) :
    Prop where
  grid : app'.gridSize dims = app.gridSize dims
  silent : send = none → ev.size = none
  asks : ∀ cmd after, send = some (cmd, after) →
    cmd.size = ev.size ∧ after.size = ev.size ∧ ∀ size ∈ ev.size, 0 < size.1 ∧ 0 < size.2

omit [Vt V] in
theorem AsksSize.of_none {send : Option (SessionInput × After)} (hgrid : app'.gridSize dims = app.gridSize dims)
    (hev : ev.size = none) (hsend : ∀ cmd after, send = some (cmd, after) → cmd.size = none ∧ after.size = none) :
    AsksSize dims app app' ev send :=
  ⟨hgrid, fun _ => hev, fun cmd after h => by
    obtain ⟨hcmd, hafter⟩ := hsend cmd after h
    exact ⟨hcmd.trans hev.symm, hafter.trans hev.symm, fun size hs => by rw [hev] at hs; cases hs⟩⟩

theorem asksSize_of_handle (hdims : Vt.Sized V dims) {send : Option (SessionInput × After)} (h : app.Wf)
    (hh : handleTerminalEvent app history env ev = some (app', history', send)) : AsksSize dims app app' ev send := by
  cases handled_of_handle hh with
  | released => exact .of_none rfl rfl fun _ _ h => nomatch h
  | @key key r hk hr =>
    refine .of_none ?_ rfl fun cmd after hs => ?_
    · cases App.keyStep_of_onKey h hr with
      | captured | accepted | silent => rfl
      | sent => exact congrArg (fun t : Terminal V => dims t.inner) (App.terminal_shadowStep _ _ _)
    · cases hact : r.2.2 <;> rw [hact] at hs <;> cases hs <;> exact ⟨rfl, rfl⟩
  | scrolled => exact .of_none (hdims.scrollDisplay _ _) rfl fun _ _ h => nomatch h
  | mouse hs =>
    refine .of_none rfl rfl fun cmd after hsend => ?_
    obtain ⟨rfl, rfl⟩ := hs cmd after hsend
    exact ⟨rfl, rfl⟩
  | paste =>
    refine .of_none rfl rfl fun cmd after hsend => ?_
    cases hsend
    exact ⟨rfl, rfl⟩
  | @resize cols rows =>
    refine ⟨rfl, (fun h => nomatch h), fun cmd after hsend => ?_⟩
    cases hsend
    refine ⟨rfl, rfl, fun size hsize => ?_⟩
    cases hsize
    exact ⟨Nat.lt_of_lt_of_le Nat.zero_lt_one (Nat.le_max_right _ _),
      Nat.lt_of_lt_of_le Nat.zero_lt_one (Nat.le_max_right _ _)⟩
  | focus hev => rcases hev with rfl | rfl <;> exact .of_none rfl rfl fun _ _ h => nomatch h

theorem gridSize_after (hdims : Vt.Sized V dims) {after : After} (ok : Bool)
    (h : ∀ size ∈ after.size, 0 < size.1 ∧ 0 < size.2) :
    (after.run app ok).1.gridSize dims = after.size.getD (app.gridSize dims) := by
  cases after with
  | report => cases ok <;> rfl
  | quit => rfl
  | resized cols rows =>
    obtain ⟨hcols, hrows⟩ := h (cols, rows) rfl
    have hresize := hdims.resize app.terminal.inner (max cols 1) (max rows 1)
    rw [max_eq_left hcols, max_eq_left hrows] at hresize
    show dims (Vt.resize app.terminal.inner (max cols 1) (max rows 1)) = (cols, rows)
    rw [max_eq_left hcols, max_eq_left hrows, hresize]

theorem gridSize_onSessionEvent (hdims : Vt.Sized V dims) (app : App V) (ev : SessionEvent) :
    (app.onSessionEvent ev).gridSize dims = app.gridSize dims := by
  cases ev with
  | output bytes | stderr bytes =>
    simp only [App.onSessionEvent]
    rw [App.onOutput_eq]
    simp only [App.gridSize, Terminal.feed_eq]
    exact hdims.advance _ _
  | _ => rfl

/-! ## The grid and the inputs -/

/-- The size that a step asks for. -/
def SysAct.size : SysAct → Option (Nat × Nat)
  | .handle ev _ => ev.size
  | _ => none

namespace System

variable {s s' : System V} {a : SysAct} {l : List SysAct} {host user : Str} {cols rows : Nat} {history₀ : History}
  {asked : List SessionInput} {old : Nat × Nat}

/-- The size that the grid has, or gets once the send under way is done. -/
def nextSize (dims : V → Nat × Nat) (s : System V) : Nat × Nat := s.ui.size (s.app.gridSize dims)

/-- The send under way tells both sides the same size. -/
def Pending (s : System V) : Prop := ∀ cmd after, s.ui = .sending cmd after →
  cmd.size = after.size ∧ ∀ size ∈ after.size, 0 < size.1 ∧ 0 < size.2

theorem nextSize_resume (hdims : Vt.Sized V dims) {cmd : SessionInput} {after : After} {pipe : Pipe} (ok : Bool)
    (h : s.Pending) (hui : s.ui = .sending cmd after) :
    (resume { s with pipe } (after.run s.app ok)).nextSize dims = s.nextSize dims ∧
      (resume { s with pipe } (after.run s.app ok)).Pending := by
  obtain ⟨hcmd, hpos⟩ := h cmd after hui
  have hgrid : (after.run s.app ok).1.gridSize dims = _ := gridSize_after hdims ok hpos
  rw [nextSize, nextSize, hui, UiPc.size, hcmd, ← hgrid]
  unfold resume
  split
  · exact ⟨rfl, fun _ _ h => nomatch h⟩
  · exact ⟨rfl, fun _ _ h => nomatch h⟩

/-- **A step changes the size of the grid to be as it asks for.** -/
theorem nextSize_step (hdims : Vt.Sized V dims) (hwf : s.app.Wf) (h : s.Pending) (hs : Stepped s a s') :
    s'.nextSize dims = a.size.getD (s.nextSize dims) ∧ s'.Pending := by
  cases hs with
  | handled hui ht hh =>
    have hask := asksSize_of_handle hdims hwf hh
    refine ⟨?_, fun cmd after hsend => ?_⟩
    · rw [SysAct.size, hask.silent rfl, nextSize, nextSize, hui]
      exact hask.grid
    · rw [hui] at hsend
      cases hsend
  | @sends ev env term app history cmd after hui ht hh =>
    have hask := asksSize_of_handle hdims hwf hh
    obtain ⟨hcmd, hafter, hpos⟩ := hask.asks _ _ rfl
    refine ⟨?_, fun cmd after hsend => ?_⟩
    · rw [SysAct.size, ← hcmd, nextSize, nextSize, hui]
      exact congrArg cmd.size.getD hask.grid
    · cases hsend
      exact ⟨hcmd.trans hafter.symm, hafter ▸ hpos⟩
  | sent hui hp => exact nextSize_resume hdims true h hui
  | detached hui hpc => exact nextSize_resume hdims false h hui
  | receive hui ht hp hev =>
    refine ⟨?_, fun cmd after hsend => ?_⟩
    · rw [nextSize, nextSize, hui]
      exact gridSize_onSessionEvent hdims _ _
    · rw [hui] at hsend
      cases hsend
  | closed hui ht hp =>
    refine ⟨?_, fun _ _ h => nomatch h⟩
    rw [nextSize, nextSize, hui]
    exact gridSize_onSessionEvent hdims _ _
  | streamEnd hui | leave hui | finalize hui | drop hui =>
    refine ⟨?_, fun _ _ h => nomatch h⟩
    rw [nextSize, nextSize, hui]
    rfl
  | typed | drv | arrive | hangup => exact ⟨rfl, h⟩

/-- What is asked of the driver has the size that the step asks for. -/
theorem lastSize_asking (hdims : Vt.Sized V dims) (hwf : s.app.Wf) (hs : Stepped s a s') :
    lastSize old (asking s asked a) = a.size.getD (lastSize old asked) := by
  cases hs with
  | handled hui ht hh =>
    have hask := asksSize_of_handle hdims hwf hh
    simp only [asking, hh]
    rw [SysAct.size, hask.silent rfl]
    rfl
  | sends hui ht hh =>
    have hask := asksSize_of_handle hdims hwf hh
    simp only [asking, hh]
    rw [SysAct.size, ← (hask.asks _ _ rfl).1, lastSize, List.foldl_append]
    rfl
  | _ => rfl

/-- The events that wait for the task, and the window. -/
theorem comingSize_step (hdims : Vt.Sized V dims) (hwf : s.app.Wf) (h : s.Pending) (hs : Stepped s a s')
    (hno : ∀ ev, a = .typed ev → ev.size = none) :
    comingSize (s'.nextSize dims) s'.term = comingSize (s.nextSize dims) s.term := by
  have hnext := (nextSize_step hdims hwf h hs).1
  rw [hnext]
  cases hs with
  | @typed ev =>
    rw [comingSize, List.foldl_append, List.foldl_cons, hno ev rfl]
    rfl
  | handled hui ht hh | sends hui ht hh => rw [ht]; rfl
  | sent hui hp | detached hui hpc =>
    unfold resume
    split <;> rfl
  | _ => rfl

/-- The invariant of the grid and the inputs. -/
structure Agrees (dims : V → Nat × Nat) (host user : Str) (history₀ : History) (old : Nat × Nat)
    (s : System V × List SessionInput) : Prop where
  reached : Reached host user history₀ s.1.app s.1.history
  pending : s.1.Pending
  size : s.1.nextSize dims = lastSize old s.2

theorem agrees_step {s s' : System V × List SessionInput} (hdims : Vt.Sized V dims)
    (h : Agrees dims host user history₀ old s) (hs : askStep s a = some s') :
    Agrees dims host user history₀ old s' := by
  obtain ⟨t, ht, rfl⟩ := Option.map_eq_some_iff.1 hs
  have hst := stepped_of_step ht
  obtain ⟨hsize, hpending⟩ := nextSize_step hdims h.reached.ok.wf h.pending hst
  refine ⟨reached_step h.reached ht, hpending, hsize.trans ?_⟩
  rw [h.size, lastSize_asking hdims h.reached.ok.wf hst]

theorem nextSize_new (hdims : Vt.Sized V dims) (hcols : 0 < cols) (hrows : 0 < rows) :
    (System.new host user cols rows history₀ : System V).nextSize dims = (cols, rows) := by
  show dims (Vt.new (max cols 1) (max rows 1)) = (cols, rows)
  rw [hdims.new, max_eq_left hcols, max_eq_left hrows]

/-- **The grid has the size that the driver was last asked for**, or gets it with the send under way. -/
theorem size_of_asks (hdims : Vt.Sized V dims) (hcols : 0 < cols) (hrows : 0 < rows)
    (h : Lts.run askStep (System.new host user cols rows history₀, []) l = some (s, asked)) :
    s.nextSize dims = lastSize (cols, rows) asked := by
  have hI : Agrees dims host user history₀ (cols, rows) (s, asked) := Lts.run_inv (agrees_step hdims)
    ⟨Reached.new host user history₀ cols rows, (fun _ _ h => by cases h), nextSize_new hdims hcols hrows⟩ h
  exact hI.size

end System

/-! ## The window -/

namespace Tui

variable {split : Rect → Rect × Rect} {t t' : Tui V} {a : TuiAct} {l : List TuiAct} {host user : Str} {area : Rect}
  {history₀ : History}

/-- The window's size is the one that the events ahead lead to. -/
structure Fits (dims : V → Nat × Nat) (t : Tui V) : Prop where
  pending : t.sys.Pending
  window : comingSize (t.sys.nextSize dims) t.sys.term = vtDims t.tty.area.width t.tty.area.height

omit [Vt V] in
/-- A step of another party, or the end of `drive`. -/
theorem Fits.same (h : t.Fits dims) (happ : t'.sys.app = t.sys.app) (hterm : t'.sys.term = t.sys.term)
    (hui : t'.sys.ui = t.sys.ui ∨ t'.sys.ui = .returned ∧ (t.sys.ui = .select ∨ t.sys.ui = .closing))
    (harea : t'.tty.area = t.tty.area) : t'.Fits dims := by
  rcases hui with hui | ⟨hret, hui⟩
  · refine ⟨fun cmd after hs => h.pending cmd after (hui ▸ hs), ?_⟩
    rw [System.nextSize, hui, happ, hterm, harea]
    exact h.window
  · have hpending : t'.sys.Pending := fun cmd after hs => by
      rw [hret] at hs
      cases hs
    refine ⟨hpending, ?_⟩
    have hwindow := h.window
    rw [System.nextSize] at hwindow ⊢
    rw [hret, happ, hterm, harea]
    rcases hui with hui | hui <;> rwa [hui] at hwindow

omit [Vt V] in
theorem area_perform [Vt V] (app : App V) (tty : Tty) (op : TtyOp) : (tty.perform split app op).area = tty.area := by
  cases op <;> rfl

/-- **A step keeps the window's size ahead of the grid's.** -/
theorem fits_step (hdims : Vt.Sized V dims) (hwf : t.sys.app.Wf) (h : t.Fits dims) (hs : t.step split a = some t') :
    t'.Fits dims := by
  cases stepped_of_step hs with
  | @sys a sys ha hst =>
    have hno : ∀ ev, a = .typed ev → ev.size = none := fun ev hev => by
      subst hev
      cases ev with
      | resize => cases ha
      | _ => rfl
    obtain ⟨-, hpending⟩ := System.nextSize_step hdims hwf h.pending hst
    exact ⟨hpending, (System.comingSize_step hdims hwf h.pending hst hno).trans h.window⟩
  | @window area =>
    refine ⟨h.pending, ?_⟩
    dsimp only
    rw [comingSize, List.foldl_append]
    rfl
  | setupFailed hui ha =>
    refine h.same rfl rfl (.inr ⟨rfl, .inl hui⟩) ?_
    rcases ha with ⟨-, -, rfl⟩ | ⟨done, -, -, -, rfl⟩ | ⟨-, -, rfl⟩ <;> rfl
  | write | finalDraw => exact h.same rfl rfl (.inl rfl) (area_perform _ _ _)
  | writeFailed hpc ha => exact h.same rfl rfl (.inr ⟨rfl, ha.imp And.left And.left⟩) rfl
  | _ => exact h.same rfl rfl (.inl rfl) rfl

/-- The size of the grid that a window asks for is not zero. -/
theorem vtDims_pos (cols rows : Nat) : 0 < (vtDims cols rows).1 ∧ 0 < (vtDims cols rows).2 :=
  ⟨Nat.lt_of_lt_of_le Nat.zero_lt_one (Nat.le_max_right _ _),
    Nat.lt_of_lt_of_le Nat.zero_lt_one (Nat.le_max_right _ _)⟩

/-- **The three sizes agree, along every run**, but for what is under way: while `drive` waits and has heard of the last
resize, the grid has the size for the window, and so has the remote PTY, once the driver has made all its calls and
none of its resizes failed. -/
theorem run_sized (hdims : Vt.Sized V dims) (h : Lts.run (step split) (Tui.new host user area history₀) l = some t)
    (hui : t.sys.ui = .select) (hno : ∀ cols rows, .resize cols rows ∉ t.sys.term) :
    dims t.sys.app.terminal.inner = vtDims t.tty.area.width t.tty.area.height ∧
    (t.sys.pipe.input = [] → calling t.sys.pipe.pc = [] → t.sys.pipe.pc ≠ .done →
      (∀ cols rows e, .resize cols rows (.error e) ∉ ios (acts (sysActs l))) →
      ptySize (vtDims area.width area.height) (ios (acts (sysActs l))) =
        vtDims t.tty.area.width t.tty.area.height) := by
  obtain ⟨hcols, hrows⟩ := vtDims_pos area.width area.height
  have hnew : (Tui.new host user area history₀ : Tui V).Fits dims :=
    ⟨(fun _ _ h => nomatch h), System.nextSize_new hdims hcols hrows⟩
  have hI := Lts.run_inv
    (I := fun t : Tui V => Reached host user history₀ t.sys.app t.sys.history ∧ t.Fits dims)
    (fun hI hs => ⟨reached_step hI.1 hs, fits_step hdims hI.1.ok.wf hI.2 hs⟩)
    ⟨Reached.new host user history₀ _ _, hnew⟩ h
  have hgrid : t.sys.nextSize dims = vtDims t.tty.area.width t.tty.area.height := by
    rw [← hI.2.window, comingSize_of_none hno]
  have hnext : t.sys.nextSize dims = dims t.sys.app.terminal.inner := by
    rw [System.nextSize, hui]
    rfl
  refine ⟨hnext ▸ hgrid, fun hin hcalling hpc hok => ?_⟩
  have hsys := run_system h
  obtain ⟨asked, hr, hasks⟩ := System.run_asks hsys
  have hcommand : t.sys.ui.command = [] := by rw [hui]; rfl
  have hcalls := (System.calls_of_asks hsys hasks).2 hcommand hin hcalling hpc
  -- the task would not wait after a request to disconnect
  have hrun : .disconnect ∉ asked := fun hmem => by
    have hall := hasks.all hpc
    dsimp only at hall
    rw [hcommand, List.append_nil] at hall
    have hret := ((System.run_requests hsys).last (hall ▸ hmem)).1
    rw [hui] at hret
    rcases hret with hret | hret <;> cases hret
  rw [ptySize_eq hok, hcalls, beforeDisconnect_of_notMem hrun, ← System.size_of_asks hdims hcols hrows hr, hgrid]

/-- The shell is open when the window gets narrower. -/
def narrowed : List TuiAct :=
  [.enableRaw true, .enter 3, .init true, .write true] ++ System.opening.map .sys ++
  [.window narrowWindow, .sys (.handle (.resize 3 3) (.stable 0)),
   .sys (.sent (.resize 3 2)), .sys (.drv (.recv (some (.resize 3 2)))), .sys (.drv (.resize 3 2 (.ok ())))]

theorem sized_narrowed : ∃ t : Tui MiniVt,
    Lts.run (step App.cutStatus) (Tui.new ['h'] ['u'] App.smallWindow {}) narrowed = some t ∧
    (t.sys.app.terminal.inner.cols, t.sys.app.terminal.inner.rows) = (3, 2) ∧
    ptySize (4, 2) (ios (acts (sysActs narrowed))) = (3, 2) := by
  have hend : (Lts.run (step App.cutStatus) (Tui.new ['h'] ['u'] App.smallWindow {} : Tui MiniVt) narrowed).map
      (fun t => ((t.sys.ui, t.sys.term), (t.sys.pipe.input, t.sys.pipe.pc), (t.tty.area.width, t.tty.area.height))) =
        some ((.select, []), ([], .select), (3, 3)) := by decide +kernel
  obtain ⟨t, ht, hend⟩ := Option.map_eq_some_iff.1 hend
  simp only [Prod.mk.injEq] at hend
  obtain ⟨⟨hui, hterm⟩, ⟨hinput, hpc⟩, hwidth, hheight⟩ := hend
  obtain ⟨hgrid, hpty⟩ := run_sized MiniVt.sized ht hui fun cols rows hm => by rw [hterm] at hm; cases hm
  rw [hwidth, hheight] at hgrid hpty
  refine ⟨t, ht, hgrid, hpty hinput (by rw [hpc]; rfl) (by rw [hpc]; decide) fun cols rows e hm => ?_⟩
  simp [narrowed, System.opening, sysActs, TuiAct.act, acts, SysAct.act, ios, Act.io] at hm

end Tui

end TinySsh
