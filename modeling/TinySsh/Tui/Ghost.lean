import TinySsh.Tui.Sync
import TinySsh.App.Gate
import TinySsh.App.Echo
import TinySsh.Screen.Viewport

/-!
# What is seen is what is sent

The suggestion that stands on the local terminal was drawn some steps ago, from the cached suggestion of that time.
Where `drive` waits, it is still the one that Right accepts: it starts at the cursor, completes the line to a recorded
command as far as the window is wide, and Right sends all of it, unless the shadow cursor is inside the line
(`run_ghost`).

Two things may come between the suggestion and the eye. Its area is as wide as it has characters, so that wide ones are
cut (`Ghost.seen`); and where the view is scrolled back, its row shows another line than that of the cursor. Both are
part of what is promised (`App.Promises`).
-/

namespace TinySsh

open Text

/-- Right, without modifiers. -/
def rightKey : TermEvent := .key { code := .right }

namespace App

section Keys

variable {V : Type} [Vt V] {app : App V} {history : History} {env : Env}

/-- Where a suggestion is drawn, and what of it. -/
theorem ghost_some {area : Rect} {g : Ghost} (h : app.ghost area = some g) : ∃ rest, app.suggestion = some rest ∧
    app.canShowSuggestion = true ∧ g.area.x = satAdd area.x app.terminal.cursor.1 ∧ g.area.x < area.right ∧
    g.area.y < area.bottom ∧ g.text = rest.take (area.right - g.area.x) ∧ g.text ≠ [] ∧
    g.area.width = g.text.length := by
  unfold ghost at h
  split at h
  · rename_i hshow
    split at h
    · cases h
    · rename_i rest hsugg
      simp only [Option.dite_none_right_eq_some, Option.ite_none_right_eq_some, Option.some.injEq] at h
      obtain ⟨⟨hx, hy⟩, hpos, rfl⟩ := h
      refine ⟨rest, hsugg, hshow, rfl, hx, hy, rfl, List.ne_nil_of_length_pos ?_, min_eq_left (List.length_take_le _ _)⟩
      exact Nat.lt_of_lt_of_le hpos (Nat.min_le_left _ _)
  · cases h

/-- Right accepts the suggestion at the end of the line. -/
theorem onKey_right_accepts (h : app.Wf) {rest : Str} (hs : app.suggestion = some rest)
    (hend : app.shadowCursor = app.shadowInput.length) (history : History) (env : Env) :
    ∃ app', app.onKey { code := .right } history env = some (app', history, .send (utf8 rest)) ∧
      app'.shadowInput = app.shadowInput ++ rest := by
  have ha : app.accepts { code := .right } = true := by simp [accepts, KeyModifiers.isEmpty, hs, hend]
  obtain ⟨r, hr, hstep⟩ := onKey_step h { code := .right } history env
  cases hstep with
  | captured hc => rw [captured_of_accepts ha] at hc; cases hc
  | @accepted rest' _ _ hs' =>
    rw [hs] at hs'
    cases hs'
    exact ⟨_, hr, by simp [acceptStep, refreshed, edit]⟩
  | silent _ hn => rw [ha] at hn; cases hn
  | sent _ hn => rw [ha] at hn; cases hn

/-- What Right does: it sends the suggestion and leaves the whole command as the line, or it moves the cursor. -/
def RightSends (app : App V) (history : History) (env : Env) (rest : Str) : Prop :=
  ∃ app' bytes, handleTerminalEvent app history env rightKey = some (app', history, some (.bytes bytes, .report)) ∧
    (app.shadowCursor = app.shadowInput.length ∧ bytes = utf8 rest ∧ app'.shadowInput = app.shadowInput ++ rest ∨
      app.shadowCursor < app.shadowInput.length ∧ bytes = arrow 0x43 app.terminal.mode.appCursor ∧
        app'.shadowInput = app.shadowInput)

theorem rightSends (h : app.Wf) {rest : Str} (hs : app.suggestion = some rest) (history : History) (env : Env) :
    app.RightSends history env rest := by
  by_cases hend : app.shadowCursor = app.shadowInput.length
  · obtain ⟨app', hr, hline⟩ := onKey_right_accepts h hs hend history env
    refine ⟨app', utf8 rest, ?_, .inl ⟨hend, rfl, hline⟩⟩
    simp [handleTerminalEvent, rightKey, hr]
  · have ha : app.accepts { code := .right } = false := by simp [accepts, hend]
    obtain ⟨app', hr, hline⟩ := onKey_right h rfl rfl ha history env
    refine ⟨app', _, ?_, .inr ⟨Nat.lt_of_le_of_ne h hend, rfl, hline⟩⟩
    simp [handleTerminalEvent, rightKey, hr]

end Keys

section View

variable {V : Type} [Viewport V] {app : App V} {history : History}

/-- **What a drawn suggestion promises**: it starts at the cursor, which is behind the line on the grid, and it is the
rest of a command of this host, as much of it as there is room for. How much of it is seen, and on which line, depends
on the widths of its characters and on the view. -/
structure Promises (paragraph : Paragraph) (app : App V) (history : History) (frame : Frame) (g : Ghost) (rest : Str) :
    Prop where
  place : frame.cursor = some (g.area.x, g.area.y)
  inside : g.area.x + g.area.width ≤ frame.gridArea.right
  afterLine : app.CursorAfterLine
  completes : ∃ r ∈ history.rows, r.host = app.host ∧ r.command = app.shadowInput ++ rest
  ne_nil : g.text ≠ []
  text : g.text = rest.take (frame.gridArea.right - g.area.x)
  /-- What is seen is of that text, and all of it unless a character is not one column wide. -/
  seen : (g.seen paragraph).Sublist g.text
  narrow : (∀ c ∈ g.text, paragraph.columns c = 1) → g.seen paragraph = g.text
  /-- It is on the row that shows the line of the cursor as long as the view is not scrolled back. -/
  row (columns : Nat) (rows : List GridRow) (hd : Displays app.terminal.inner columns rows)
    (hw : columns ≤ frame.gridArea.width) (hh : rows.length ≤ frame.gridArea.height) :
    frame.Shows rows (Vt.point app.terminal.inner).2 g.area.y ↔ Viewport.displayOffset app.terminal.inner = 0

/-- A drawn suggestion keeps its promise. -/
theorem promises_of_render {split : Rect → Rect × Rect} {area : Rect} {g : Ghost} (paragraph : Paragraph)
    (hsound : app.Sound history) (hg : (app.render split area).ghost = some g) :
    ∃ rest, app.suggestion = some rest ∧ app.Promises paragraph history (app.render split area) g rest := by
  have hghost : app.ghost (split area).1 = some g := hg
  obtain ⟨rest, hsugg, hshow, hx, hright, hbottom, htext, hne, hwidth⟩ := ghost_some hghost
  have hy := ghost_y hghost
  have hgrid : (app.render split area).gridArea = (split area).1 := rfl
  obtain ⟨-, -, hcompletes⟩ := hsound rest hsugg
  refine ⟨rest, hsugg, ?_, ?_, ?_, hcompletes, hne, htext, paragraph.sublist _ _, fun hone => ?_,
    fun columns rows hd hw hh => ?_⟩
  · rw [cursor_render, ← hx, ← hy, if_pos ⟨hright, hbottom⟩]
  · have hlen := congrArg List.length htext
    rw [List.length_take] at hlen
    rw [hgrid, hwidth]
    omega
  · exact (canShowSuggestion_iff (by rw [hsugg]; rfl)).1 hshow
  · exact paragraph.narrow _ _ hone hwidth.ge
  · obtain ⟨line, hline⟩ := Int.eq_ofNat_of_zero_le hd.line_nonneg
    have hrow : satAdd (split area).1.y app.terminal.cursor.2 = (split area).1.y + line :=
      (cursor_inside hd hw hh hline).2.1
    rw [hy, hrow]
    exact shows_cursor_iff hd hh hline

end View

end App

namespace Tui

section Run

variable {V : Type} [Viewport V] {split : Rect → Rect × Rect} {t : Tui V} {l : List TuiAct} {host user : Str}
  {area : Rect} {history₀ : History} {frame : Frame} {g : Ghost}

/-- **The suggestion on the local terminal is what Right sends**: along every run, wherever `drive` waits and has heard
of the window's size, a suggestion that stands on the terminal starts at the visible cursor, is the rest of a recorded
command as far as it fits, and Right sends that rest, or the arrow with the shadow cursor inside the line. What is seen
of it is all of it if its characters take one column each, and it is seen on the line of the cursor if the view is not
scrolled back. -/
theorem run_ghost (paragraph : Paragraph) (h : Lts.run (step split) (Tui.new host user area history₀) l = some t)
    (hw : t.Waits) (hno : ∀ cols rows, .resize cols rows ∉ t.sys.term) (hf : t.tty.frame = some frame)
    (hg : frame.ghost = some g) :
    t.tty.cursorShown = true ∧ ∃ rest, t.sys.app.Promises paragraph t.sys.history frame g rest ∧
      ∀ env, t.sys.app.RightSends t.sys.history env rest := by
  obtain ⟨copies, -, hI⟩ := run_following h
  obtain ⟨-, -, hshows⟩ := hI.synced hw
  obtain ⟨hframe, hcursor⟩ := hshows hno
  obtain rfl : frame = t.sys.app.render split t.tty.area := Option.some.inj (hf.symm.trans hframe)
  obtain ⟨rest, hsugg, hpromises⟩ := App.promises_of_render paragraph hI.reached.sound hg
  refine ⟨?_, rest, hpromises, App.rightSends hI.reached.ok.wf hsugg t.sys.history⟩
  rw [hcursor, hpromises.place]
  rfl

end Run

end Tui

/-- The small emulator with a page, on which ASCII text stays where it is printed. -/
structure GridVt where
  mini : MiniVt
  page : List Str

namespace GridVt

def advanceByte (v : GridVt) (b : UInt8) : GridVt where
  mini := v.mini.advanceByte b
  page :=
    if v.mini.state = .ground ∧ 0x20 ≤ b ∧ b < 0x7f then
      v.page.modify v.mini.row fun row => row.set v.mini.col (Char.ofNat b.toNat)
    else v.page

/-- There is no scrollback. -/
instance : Viewport GridVt where
  new cols rows := { mini := Vt.new cols rows, page := List.replicate rows (List.replicate cols ' ') }
  advance v bytes := bytes.foldl advanceByte v
  resize v cols rows :=
    { mini := Vt.resize v.mini cols rows
      page := (List.range rows).map fun i => (v.page[i]?.getD []).rightpad cols ' ' |>.take cols }
  point v := Vt.point v.mini
  mode v := Vt.mode v.mini
  scrollDisplay v _ := v
  displayIter v := v.page.zipIdx.flatMap fun (row, i) => row.map fun c => { line := i, c }
  displayOffset _ := 0
  historySize _ := 0

end GridVt

namespace Tui

/-- An output of the remote, received and drawn. -/
def shown (bytes : List UInt8) : List TuiAct :=
  [.sys (.arrive (.data bytes)), .sys (.drv (.wait (some (.data bytes)))), .sys (.drv (.send (.output bytes) true)),
   .sys (.receive (.output bytes)), .write true]

/-- A prompt, and a letter that is echoed. -/
def suggested : List TuiAct :=
  [.enableRaw true, .enter 3, .init true, .write true] ++ System.opening.map .sys ++
  [.sys (.receive (.stateChanged .connecting)), .write true, .sys (.receive (.stateChanged .authenticated)),
   .write true, .sys (.receive (.stateChanged .shellOpen)), .write true] ++
  shown App.promptMark ++
  [.sys (.typed (.key { code := .char 'g' })), .sys (.handle (.key { code := .char 'g' }) (.stable 0)),
   .sys (.sent (.bytes [0x67])), .write true, .sys (.drv (.recv (some (.bytes [0x67])))),
   .sys (.drv (.write [0x67] (.ok ())))] ++
  shown [0x67]

/-- A row of four columns with one character. -/
def letterRow (i : Nat) (c : Char) : GridRow where
  line := i
  cells := { line := i, c } :: List.replicate 3 { line := i, c := ' ' }
  cells_ne := List.cons_ne_nil _ _
  on_line cell hcell := by
    rcases List.mem_cons.1 hcell with rfl | hblank
    · rfl
    · rw [List.eq_of_mem_replicate hblank]
  line_gt := by omega

/-- The screen at the end. -/
def suggestedRows : List GridRow := [letterRow 0 'g', letterRow 1 ' ']

theorem ghost_suggested : ∃ (t : Tui GridVt) (frame : Frame) (g : Ghost),
    Lts.run (step App.cutStatus) (Tui.new ['h'] ['u'] App.smallWindow App.gitHistory) suggested = some t ∧
    t.tty.frame = some frame ∧ frame.ghost = some g ∧ g.seen (.cutting App.wideWidth) = ['i', 't'] ∧
    frame.Shows suggestedRows 0 g.area.y ∧
    ∃ rest, t.sys.app.Promises (.cutting App.wideWidth) t.sys.history frame g rest ∧
      t.sys.app.RightSends t.sys.history (.stable 0) rest := by
  have hend : (Lts.run (step App.cutStatus)
      (Tui.new ['h'] ['u'] App.smallWindow App.gitHistory : Tui GridVt) suggested).map
      (fun t => ((t.pc, t.todo, t.sys.ui), t.sys.term, (t.tty.frame.bind Frame.ghost).map Ghost.text)) =
        some ((.drive, [], .select), [], some ['i', 't']) := by decide +kernel
  have hscreen : (Lts.run (step App.cutStatus)
      (Tui.new ['h'] ['u'] App.smallWindow App.gitHistory : Tui GridVt) suggested).map
      (fun t => (t.tty.frame.map fun f => (f.gridArea.width, f.gridArea.height),
        Vt.displayIter t.sys.app.terminal.inner, Vt.point t.sys.app.terminal.inner)) =
        some (some (4, 2), suggestedRows.flatMap GridRow.cells, (1, 0)) := by decide +kernel
  obtain ⟨t, ht, hend⟩ := Option.map_eq_some_iff.1 hend
  rw [ht, Option.map_some, Option.some.injEq] at hscreen
  simp only [Prod.mk.injEq] at hend hscreen
  obtain ⟨⟨hpc, htodo, hui⟩, hterm, htext⟩ := hend
  obtain ⟨hsize, hcells, hpoint⟩ := hscreen
  obtain ⟨g, hg, htext⟩ := Option.map_eq_some_iff.1 htext
  obtain ⟨frame, hf, hg⟩ := Option.bind_eq_some_iff.1 hg
  rw [hf, Option.map_some, Option.some.injEq, Prod.mk.injEq] at hsize
  obtain ⟨-, rest, hpromises, hsends⟩ := run_ghost (.cutting App.wideWidth) ht ⟨hpc, htodo, .inl hui⟩
    (fun cols rows hm => by rw [hterm] at hm; cases hm) hf hg
  have hdisplays : Displays t.sys.app.terminal.inner 4 suggestedRows :=
    ⟨hcells, rfl, by rw [hpoint]; decide, by rw [hpoint], by rw [hpoint]; decide⟩
  have hrow := (hpromises.row 4 suggestedRows hdisplays hsize.1.ge hsize.2.ge).2 rfl
  have hone : ∀ c ∈ g.text, App.wideWidth c = 1 := by
    rw [htext]
    exact List.forall_mem_cons.2 ⟨rfl, List.forall_mem_singleton.2 rfl⟩
  have hseen := hpromises.narrow hone
  rw [hpoint] at hrow
  exact ⟨t, frame, g, ht, hf, hg, hseen.trans htext, hrow, rest, hpromises, hsends (.stable 0)⟩

end Tui

end TinySsh
