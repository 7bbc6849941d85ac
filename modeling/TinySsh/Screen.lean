import TinySsh.App

/-!
# The drawn screen

`render` (`ui.rs`): the grid, the suggestion over it, the status row and the cursor. The layout of the window and the
widget that shows a text in an area are ratatui's and parameters here. The loop of `render_grid` that gathers the cells
of the emulator into lines is a sibling of the one in `Terminal::screen_text`, which copies the screen; the two see the
same rows (`screen_rows`).
-/

namespace TinySsh

open Text

/-! ## Areas -/

/-- `u16::saturating_add` -/
def satAdd (a b : Nat) : Nat := min (a + b) (2 ^ 16 - 1)

/-- An area of the window. The window starts at the origin, so the far sides are `u16`. -/
structure Rect where
  x : Nat
  y : Nat
  width : Nat
  height : Nat
  right_le : x + width ≤ 2 ^ 16 - 1
  bottom_le : y + height ≤ 2 ^ 16 - 1

namespace Rect

variable (r : Rect)

def right : Nat := satAdd r.x r.width

def bottom : Nat := satAdd r.y r.height

theorem right_eq : r.right = r.x + r.width := min_eq_left r.right_le

theorem bottom_eq : r.bottom = r.y + r.height := min_eq_left r.bottom_le

variable {r} {x y : Nat}

/-- A text that starts in the area and is cut at its right side. -/
theorem add_min_le (h : x < r.right) (n : Nat) : x + min n (r.right - x) ≤ 2 ^ 16 - 1 := by
  have := r.right_le
  have := r.right_eq
  omega

theorem succ_le (h : y < r.bottom) : y + 1 ≤ 2 ^ 16 - 1 := by
  have := r.bottom_le
  have := r.bottom_eq
  omega

end Rect

/-! ## The grid -/

/-- One cell of the loop of `render_grid`. -/
def RowState.draw (st : RowState) (cell : Cell) : RowState :=
  let st :=
    if cell.line ≠ st.currentLine then
      let st := if st.currentLine ≠ -2 ^ 31 then { st with lines := st.lines ++ [st.currentText], currentText := [] }
        else st
      { st with currentLine := cell.line }
    else st
  if cell.wideCharSpacer || cell.leadingWideCharSpacer then st
  else { st with currentText := st.currentText ++ [cell.c] }

/-- The lines of the grid. -/
def gridLines (cells : List Cell) : List Str :=
  let st := cells.foldl RowState.draw {}
  if st.currentLine ≠ -2 ^ 31 then st.lines ++ [st.currentText] else st.lines

/-- A suggestion on the screen. -/
structure Ghost where
  text : Str
  area : Rect

/-- The widget that shows a line of text in an area so many columns wide. It shows characters of the text in their
order; one without room is cut, and characters of one column each have room where there are as many columns. -/
structure Paragraph where
  /-- The columns that a character takes. -/
  columns : Char → Nat
  shown : Nat → Str → Str
  sublist (width : Nat) (text : Str) : (shown width text).Sublist text
  narrow (width : Nat) (text : Str) (hone : ∀ c ∈ text, columns c = 1) (hfits : text.length ≤ width) :
    shown width text = text

/-- What is seen of a suggestion. -/
def Ghost.seen (paragraph : Paragraph) (g : Ghost) : Str := paragraph.shown g.area.width g.text

/-- A line up to the first character that has no room left, without those that take no column or more than there are. -/
def cutLine (columns : Char → Nat) (width : Nat) : Nat → Str → Str
  | _, [] => []
  | used, c :: text =>
    if columns c = 0 ∨ width < columns c then cutLine columns width used text
    else if width < used + columns c then []
    else c :: cutLine columns width (used + columns c) text

theorem cutLine_sublist (columns : Char → Nat) (width used : Nat) (text : Str) :
    (cutLine columns width used text).Sublist text := by
  fun_induction cutLine with
  | case1 => exact .slnil
  | case2 _ _ _ _ ih => exact ih.cons _
  | case3 => exact List.nil_sublist _
  | case4 _ _ _ _ _ ih => exact ih.cons_cons _

theorem cutLine_narrow {columns : Char → Nat} {width used : Nat} {text : Str} (hone : ∀ c ∈ text, columns c = 1)
    (hfits : used + text.length ≤ width) : cutLine columns width used text = text := by
  induction text generalizing used with
  | nil => rfl
  | cons c text ih =>
    obtain ⟨hc, hrest⟩ := List.forall_mem_cons.1 hone
    rw [List.length_cons] at hfits
    rw [cutLine, hc, if_neg (by omega), if_neg (by omega), ih hrest (by omega)]

/-- A paragraph that looks at one character at a time. -/
def Paragraph.cutting (columns : Char → Nat) : Paragraph where
  columns
  shown width := cutLine columns width 0
  sublist width := cutLine_sublist columns width 0
  narrow width text hone hfits := cutLine_narrow hone (by omega)

/-- An area of as many columns as a text has characters is too small for wide ones. -/
example : (Paragraph.cutting fun _ => 2).shown 2 ['日', '本'] = ['日'] ∧
    (Paragraph.cutting fun _ => 2).shown 1 ['日'] = [] := by decide

/-! ## The frame -/

structure Frame where
  gridArea : Rect
  /-- Line `i` goes into row `gridArea.y + i`, as far as the area reaches. -/
  lines : List Str
  ghost : Option Ghost
  statusArea : Rect
  status : List String
  cursor : Option (Nat × Nat)

namespace App

variable {V : Type} [Vt V]

/-- The overlay of `render_grid`. -/
def ghost (app : App V) (area : Rect) : Option Ghost :=
  if app.canShowSuggestion then
    match app.suggestion with
    | none => none
    | some suggestion =>
      let (curCol, curRow) := app.terminal.cursor
      let x := satAdd area.x curCol
      let y := satAdd area.y curRow
      if h : x < area.right ∧ y < area.bottom then
        let maxW := area.right - x
        let truncated := suggestion.take maxW
        let width := min truncated.length maxW
        if width > 0 then
          some
            { text := truncated
              area :=
                { x, y, width, height := 1
                  right_le := Rect.add_min_le h.1 truncated.length
                  bottom_le := Rect.succ_le h.2 } }
        else none
      else none
  else none

def stateLabel : SessionState → String
  | .connecting => "connecting"
  | .authenticated => "authenticated"
  | .shellOpen => "shell open"
  | .closed => "closed"
  | .failed msg => "failed: " ++ msg

/-- The spans of `render_status`. -/
def renderStatus (app : App V) : List String :=
  let cwdLabel := (app.cwd.map fun p => " cwd:" ++ String.ofList p).getD ""
  let mouseLabel := if app.mouseCapture then "mouse" else "MOUSE-OFF"
  let spans :=
    ["[" ++ stateLabel app.state ++ "]", cwdLabel,
      " · " ++ mouseLabel ++ " · → accept · Tab/Ctrl-* remote · Ctrl-Q quit"]
  match app.lastError with
  | some err => spans ++ [" · ", "err: " ++ err]
  | none => spans

/-- The frame; `split` cuts the window into the grid and the status row. -/
def render (split : Rect → Rect × Rect) (area : Rect) (app : App V) : Frame :=
  let (gridArea, statusArea) := split area
  let (curCol, curRow) := app.terminal.cursor
  let cx := satAdd gridArea.x curCol
  let cy := satAdd gridArea.y curRow
  { gridArea
    lines := gridLines (Vt.displayIter app.terminal.inner)
    ghost := app.ghost gridArea
    statusArea
    status := app.renderStatus
    cursor := if cx < gridArea.right ∧ cy < gridArea.bottom then some (cx, cy) else none }

/-- The cursor is drawn at its point, if that is in the grid. -/
theorem cursor_render (split : Rect → Rect × Rect) (area : Rect) (app : App V) : (app.render split area).cursor =
    if satAdd (split area).1.x app.terminal.cursor.1 < (split area).1.right ∧
        satAdd (split area).1.y app.terminal.cursor.2 < (split area).1.bottom then
      some (satAdd (split area).1.x app.terminal.cursor.1, satAdd (split area).1.y app.terminal.cursor.2)
    else none := rfl

end App

/-! ## Rows -/

def Cell.isSpacer (cell : Cell) : Bool := cell.wideCharSpacer || cell.leadingWideCharSpacer

/-- The characters of the cells, spacers left out. -/
def shownText (cells : List Cell) : Str := (cells.filter fun cell => !cell.isSpacer).map Cell.c

theorem shownText_cons (cell : Cell) (cells : List Cell) :
    shownText (cell :: cells) = (if cell.isSpacer then [] else [cell.c]) ++ shownText cells := by
  cases h : cell.isSpacer <;> simp [shownText, h]

/-- The cells of one line of the grid. -/
structure GridRow where
  line : Int
  cells : List Cell
  cells_ne : cells ≠ []
  on_line : ∀ cell ∈ cells, cell.line = line
  /-- The lines are above `i32::MIN`. -/
  line_gt : -2 ^ 31 < line

def GridRow.text (r : GridRow) : Str := shownText r.cells

/-! ## The two loops -/

namespace RowState

/-- What both loops do at a cell: it goes on with the row under way, or it ends it and starts another. -/
structure Gathers (finish : Str → Str) (push : RowState → Cell → RowState) : Prop where
  start (cell : Cell) (h : cell.line ≠ -2 ^ 31) : push {} cell = ⟨[], cell.line, shownText [cell]⟩
  same (ls : List Str) (text : Str) (cell : Cell) :
    push ⟨ls, cell.line, text⟩ cell = ⟨ls, cell.line, text ++ shownText [cell]⟩
  next (ls : List Str) (line : Int) (text : Str) (cell : Cell) (h : line ≠ -2 ^ 31) (hne : cell.line ≠ line) :
    push ⟨ls, line, text⟩ cell = ⟨ls ++ [finish text], cell.line, shownText [cell]⟩

/-- The end of both loop bodies. -/
def add (st : RowState) (cell : Cell) : RowState :=
  if cell.wideCharSpacer || cell.leadingWideCharSpacer then st
  else { st with currentText := st.currentText ++ [cell.c] }

theorem add_mk (ls : List Str) (line : Int) (text : Str) (cell : Cell) :
    add ⟨ls, line, text⟩ cell = ⟨ls, line, text ++ shownText [cell]⟩ := by
  have hadd : add ⟨ls, line, text⟩ cell =
      if cell.isSpacer then ⟨ls, line, text⟩ else ⟨ls, line, text ++ [cell.c]⟩ := rfl
  rw [hadd, shownText_cons]
  cases cell.isSpacer <;> simp [shownText]

/-- The loop of `screen_text` empties the text at every change of the row. -/
theorem gathers_push : Gathers trimEnd push where
  start cell h := by
    have hpush : push {} cell = add (if cell.line ≠ -2 ^ 31 then ⟨[], cell.line, []⟩ else {}) cell := rfl
    rw [hpush, if_pos h, add_mk, List.nil_append]
  same ls text cell := by
    have hpush : push ⟨ls, cell.line, text⟩ cell = add (if cell.line ≠ cell.line then _ else _) cell := rfl
    rw [hpush, if_neg (not_not_intro rfl), add_mk]
  next ls line text cell h hne := by
    have hpush : push ⟨ls, line, text⟩ cell = add (if cell.line ≠ line then _ else _) cell := rfl
    rw [hpush, if_pos hne, if_pos h, add_mk, List.nil_append]

/-- The loop of `render_grid` takes the text when it has a row to end; before the first cell the text is empty. -/
theorem gathers_draw : Gathers id draw where
  start cell h := by
    have hdraw : draw {} cell = add (if cell.line ≠ -2 ^ 31 then ⟨[], cell.line, []⟩ else {}) cell := rfl
    rw [hdraw, if_pos h, add_mk, List.nil_append]
  same ls text cell := by
    have hdraw : draw ⟨ls, cell.line, text⟩ cell = add (if cell.line ≠ cell.line then _ else _) cell := rfl
    rw [hdraw, if_neg (not_not_intro rfl), add_mk]
  next ls line text cell h hne := by
    have hdraw : draw ⟨ls, line, text⟩ cell = add (if cell.line ≠ line then _ else _) cell := rfl
    rw [hdraw, if_pos hne, if_pos h, add_mk, List.nil_append, id]

/-- The lines at the end: the row under way is the last one. -/
def flush (finish : Str → Str) (st : RowState) : List Str :=
  if st.currentLine ≠ -2 ^ 31 then st.lines ++ [finish st.currentText] else st.lines

namespace Gathers

variable {finish : Str → Str} {push : RowState → Cell → RowState} (g : Gathers finish push)

include g

/-- The cells of the row under way extend its text. -/
theorem foldl_same {cells : List Cell} {line : Int} (h : ∀ cell ∈ cells, cell.line = line) (ls : List Str)
    (text : Str) : cells.foldl push ⟨ls, line, text⟩ = ⟨ls, line, text ++ shownText cells⟩ := by
  induction cells generalizing text with
  | nil => simp [shownText]
  | cons cell cells ih =>
    obtain ⟨rfl, hrest⟩ := List.forall_mem_cons.1 h
    rw [List.foldl_cons, g.same, ih hrest, shownText_cons cell cells, shownText_cons cell []]
    simp [shownText]

/-- A row whose first cell starts it becomes the row under way. -/
theorem foldl_row (r : GridRow) {st : RowState} {ls : List Str}
    (h : ∀ cell, cell.line = r.line → push st cell = ⟨ls, cell.line, shownText [cell]⟩) :
    r.cells.foldl push st = ⟨ls, r.line, r.text⟩ := by
  obtain ⟨cell, cells, hcells⟩ := List.exists_cons_of_ne_nil r.cells_ne
  have hon := r.on_line
  rw [hcells] at hon
  obtain ⟨hline, hrest⟩ := List.forall_mem_cons.1 hon
  rw [GridRow.text, hcells, List.foldl_cons, h cell hline, hline, g.foldl_same hrest, shownText_cons cell cells,
    shownText_cons cell []]
  simp [shownText]

/-- A row after another ends it. -/
theorem foldl_next (r : GridRow) {ls : List Str} {line : Int} {text : Str} (h : line ≠ -2 ^ 31)
    (hne : r.line ≠ line) : r.cells.foldl push ⟨ls, line, text⟩ = ⟨ls ++ [finish text], r.line, r.text⟩ :=
  g.foldl_row r fun cell hline => g.next ls line text cell h (hline ▸ hne)

/-- The first row. -/
theorem foldl_start (r : GridRow) : r.cells.foldl push {} = ⟨[], r.line, r.text⟩ :=
  g.foldl_row r fun cell hline => g.start cell (hline ▸ r.line_gt.ne')

/-- From a row under way, it and the rows after it become lines. -/
theorem flush_foldl {rows : List GridRow} {r : GridRow}
    (h : (r :: rows).Pairwise fun a b => a.line < b.line) (ls : List Str) :
    flush finish ((rows.flatMap GridRow.cells).foldl push ⟨ls, r.line, r.text⟩) =
      ls ++ (r :: rows).map fun r => finish r.text := by
  induction rows generalizing r ls with
  | nil =>
    have hne : r.line ≠ -2 ^ 31 := r.line_gt.ne'
    simp only [List.flatMap_nil, List.foldl_nil, flush, if_pos hne, List.map_cons, List.map_nil]
  | cons r' rows ih =>
    obtain ⟨hlt, hrest⟩ := List.pairwise_cons.1 h
    have hne : r'.line ≠ r.line := (hlt r' List.mem_cons_self).ne'
    rw [List.flatMap_cons, List.foldl_append, g.foldl_next r' r.line_gt.ne' hne, ih hrest]
    simp

/-- **Every row becomes one line.** -/
theorem flush_rows {rows : List GridRow} (h : rows.Pairwise fun a b => a.line < b.line) :
    flush finish ((rows.flatMap GridRow.cells).foldl push {}) = rows.map fun r => finish r.text := by
  cases rows with
  | nil => simp [flush]
  | cons r rows =>
    rw [List.flatMap_cons, List.foldl_append, g.foldl_start, g.flush_foldl h]
    simp

end Gathers

end RowState

/-! ## A small emulator with a scrollback -/

/-- An emulator of which only the page counts: the rows of the screen over a scrollback. -/
structure PagerVt where
  cols : Nat
  rows : Nat
  /-- The rows of the scrollback and of the screen, the oldest first. -/
  grid : List (List Cell)
  col : Nat := 0
  row : Nat := 0
  displayOffset : Nat := 0

namespace PagerVt

def blankRow (cols : Nat) : List Cell := List.replicate cols { line := 0, c := ' ' }

def historySize (v : PagerVt) : Nat := v.grid.length - v.rows

/-- A newline in the last row adds a row; a view of the scrollback stays where it is. -/
def newline (v : PagerVt) : PagerVt :=
  if v.row + 1 < v.rows then { v with row := v.row + 1 }
  else
    { v with
      grid := v.grid ++ [blankRow v.cols]
      displayOffset := if v.displayOffset = 0 then 0 else v.displayOffset + 1 }

/-- The row of the grid that is shown as row `i`. -/
def shownRow (v : PagerVt) (i : Nat) : List Cell :=
  (v.grid[v.historySize - v.displayOffset + i]?.getD []).map ({ · with line := i - v.displayOffset })

instance : Vt PagerVt where
  new cols rows := { cols, rows, grid := List.replicate rows (blankRow cols) }
  advance v bytes := bytes.foldl (fun v b => if b = 0x0a then v.newline else v) v
  resize v cols rows := { v with cols, rows }
  point v := (v.col, v.row)
  mode _ := {}
  scrollDisplay v n := { v with displayOffset := (min ((v.displayOffset : Int) + n) v.historySize).toNat }
  displayIter v := (List.range v.rows).flatMap v.shownRow

end PagerVt

/-! ## The copied screen -/

namespace App

variable {V : Type} [Vt V] {app : App V}

/-- Ctrl+Shift+C puts the text of the screen in the clipboard. -/
theorem onKey_copy {key : KeyEvent} (hctrl : key.modifiers.control = true) (hshift : key.modifiers.shift = true)
    (hk : key.code = .char 'c' ∨ key.code = .char 'C') (history : History) (env : Env) :
    app.onKey key history env =
      some ({ app with pendingClipboard := some (joinLines app.terminal.screenText) }, history, .copyToClipboard) := by
  rcases hk with hk | hk <;> simp [onKey, hctrl, hshift, hk]

/-- The grid is drawn with one line for each row. -/
theorem render_lines {rows : List GridRow} (hcells : Vt.displayIter app.terminal.inner = rows.flatMap GridRow.cells)
    (hord : rows.Pairwise fun a b => a.line < b.line) (split : Rect → Rect × Rect) (area : Rect) :
    (app.render split area).lines = rows.map GridRow.text := by
  have h := RowState.gathers_draw.flush_rows hord
  rwa [← hcells] at h

/-- **The copied screen is the drawn screen**: both have one line for each row of the grid, and the copy drops the
blanks at its end. -/
theorem screen_rows (app : App V) (rows : List GridRow)
    (hcells : Vt.displayIter app.terminal.inner = rows.flatMap GridRow.cells)
    (hord : rows.Pairwise fun a b => a.line < b.line) (split : Rect → Rect × Rect) (area : Rect) :
    app.terminal.screenText = rows.map (fun r => trimEnd r.text) ∧
      (app.render split area).lines = rows.map GridRow.text ∧
      app.terminal.screenText = (app.render split area).lines.map trimEnd ∧
      ∀ (key : KeyEvent) (history : History) (env : Env), key.modifiers.control = true → key.modifiers.shift = true →
        key.code = .char 'c' ∨ key.code = .char 'C' →
        ∃ app', app.onKey key history env = some (app', history, .copyToClipboard) ∧
          app'.pendingClipboard = some (joinLines ((app.render split area).lines.map trimEnd)) := by
  have hcopied : app.terminal.screenText = rows.map fun r => trimEnd r.text := by
    have h := RowState.gathers_push.flush_rows hord
    rwa [← hcells] at h
  have hdrawn := render_lines hcells hord split area
  have hsame : app.terminal.screenText = (app.render split area).lines.map trimEnd := by
    rw [hcopied, hdrawn, List.map_map]
    rfl
  refine ⟨hcopied, hdrawn, hsame, fun key history env hctrl hshift hk => ?_⟩
  exact ⟨_, onKey_copy hctrl hshift hk history env, by rw [hsame]⟩

/-- A wide character over a blank row. -/
def wideScreen : App PagerVt :=
  { host := ['h'], user := ['u']
    terminal.inner :=
      { cols := 3, rows := 2
        grid :=
          [[{ line := 0, c := '日' }, { line := 0, c := ' ', wideCharSpacer := true }, { line := 0, c := ' ' }],
            PagerVt.blankRow 3] } }

def wideRows : List GridRow :=
  [{ line := 0
     cells := [{ line := 0, c := '日' }, { line := 0, c := ' ', wideCharSpacer := true }, { line := 0, c := ' ' }]
     cells_ne := by decide
     on_line := by decide
     line_gt := by decide },
   { line := 1
     cells := List.replicate 3 { line := 1, c := ' ' }
     cells_ne := by decide
     on_line := by decide
     line_gt := by decide }]

/-- The window over the grid and the status row. -/
def cutStatus (r : Rect) : Rect × Rect :=
  ({ r with height := r.height - 1, bottom_le := by have := r.bottom_le; omega },
   { r with
     y := r.y + (r.height - 1), height := min r.height 1, bottom_le := by have := r.bottom_le; omega })

/-- Two rows of four columns, and the status row. -/
def smallWindow : Rect := { x := 0, y := 0, width := 4, height := 3, right_le := by decide, bottom_le := by decide }

/-- The blank row is drawn and copied. -/
theorem screen_rows_wide : wideScreen.terminal.screenText = [['日'], []] ∧
    (wideScreen.render cutStatus smallWindow).lines = [['日', ' '], [' ', ' ', ' ']] ∧
    ∃ app', wideScreen.onKey { code := .char 'c', modifiers := { control := true, shift := true } } {} (.stable 0) =
      some (app', {}, .copyToClipboard) ∧ app'.pendingClipboard = some ['日', '\n'] := by
  obtain ⟨hcopied, hdrawn, -, hcopy⟩ :=
    screen_rows wideScreen wideRows (by decide) (by decide) cutStatus smallWindow
  have hlines : (wideScreen.render cutStatus smallWindow).lines = [['日', ' '], [' ', ' ', ' ']] :=
    hdrawn.trans (by decide)
  obtain ⟨app', hr, hclip⟩ := hcopy { code := .char 'c', modifiers := { control := true, shift := true } } {}
    (.stable 0) rfl rfl (.inl rfl)
  refine ⟨hcopied.trans (by decide), hlines, app', hr, ?_⟩
  rw [hclip, hlines]
  decide

end App

end TinySsh
