import TinySsh.Screen

/-!
# The view of the scrollback

The display iterator starts as many lines above the screen as the display offset says; the cursor of the renderable
content is a point of the screen whatever the offset. `render` finds the row of the cursor from the point alone, so the
cursor and the suggestion stand on the row that shows their line as long as the view is not scrolled, and only then
(`cursor_on_line_iff`).
-/

namespace TinySsh

open Text

/-- An emulator with a scrollback. -/
class Viewport (V : Type) extends Vt V where
  /-- How many lines the view is scrolled back. -/
  displayOffset : V → Nat
  /-- The length of the scrollback. -/
  historySize : V → Nat

instance : Viewport PagerVt where
  displayOffset := PagerVt.displayOffset
  historySize := PagerVt.historySize

/-- The emulator shows these rows: at offset `d` they are the lines from `-d` on. The cursor is in the screen, which has
so many columns, and does not move with the view. -/
structure Displays {V : Type} [Viewport V] (v : V) (columns : Nat) (rows : List GridRow) : Prop where
  cells : Vt.displayIter v = rows.flatMap GridRow.cells
  lines : rows.map GridRow.line = (List.range rows.length).map fun (i : Nat) => (i : Int) - Viewport.displayOffset v
  column_lt : (Vt.point v).1 < columns
  line_nonneg : 0 ≤ (Vt.point v).2
  line_lt : (Vt.point v).2 < rows.length

namespace Displays

variable {V : Type} [Viewport V] {v : V} {columns : Nat} {rows : List GridRow}

theorem line_eq (h : Displays v columns rows) {i : Nat} {r : GridRow} (hr : rows[i]? = some r) :
    r.line = i - Viewport.displayOffset v := by
  have hi : i < rows.length := (List.getElem?_eq_some_iff.1 hr).1
  have hget : (rows.map GridRow.line)[i]? = some ((i : Int) - Viewport.displayOffset v) := by
    rw [h.lines]
    simp [hi]
  rw [List.getElem?_map, hr] at hget
  exact Option.some.inj hget

/-- The rows are in the order of their lines. -/
theorem pairwise (h : Displays v columns rows) : rows.Pairwise fun a b => a.line < b.line := by
  have hlines : (rows.map GridRow.line).Pairwise (· < ·) := by
    rw [h.lines, List.pairwise_map]
    exact List.pairwise_lt_range.imp fun hlt => by simpa using hlt
  exact List.pairwise_map.1 hlines

end Displays

/-! ## The row of the cursor -/

/-- The frame draws the line of the grid in row `y` of the window. -/
def Frame.Shows (f : Frame) (rows : List GridRow) (line : Int) (y : Nat) : Prop :=
  ∃ (i : Nat) (r : GridRow), rows[i]? = some r ∧ r.line = line ∧ f.lines[i]? = some r.text ∧ i < f.gridArea.height ∧
    y = f.gridArea.y + i

/-- The cursor and the suggestion are on the row that shows the line, and missing when no row does. -/
structure Frame.CursorOnLine (f : Frame) (rows : List GridRow) (line : Int) : Prop where
  cursor (x y : Nat) (h : f.cursor = some (x, y)) : f.Shows rows line y
  ghost (g : Ghost) (h : f.ghost = some g) : f.Shows rows line g.area.y
  hidden (h : ∀ r ∈ rows, r.line ≠ line) : f.cursor = none ∧ f.ghost = none

namespace App

section Ghost

variable {V : Type} [Vt V] {app : App V}

/-- A suggestion is drawn in the row of the cursor. -/
theorem ghost_y {area : Rect} {g : Ghost} (h : app.ghost area = some g) :
    g.area.y = satAdd area.y app.terminal.cursor.2 := by
  unfold ghost at h
  split at h
  · split at h
    · cases h
    · simp only [Option.dite_none_right_eq_some, Option.ite_none_right_eq_some, Option.some.injEq] at h
      obtain ⟨-, -, rfl⟩ := h
      rfl
  · cases h

end Ghost

variable {V : Type} [Viewport V] {app : App V} {columns : Nat} {rows : List GridRow}

/-- In an area that holds the screen, the place of the cursor is inside and does not saturate. -/
theorem cursor_inside (h : Displays app.terminal.inner columns rows) {area : Rect} (hw : columns ≤ area.width)
    (hh : rows.length ≤ area.height) {line : Nat} (hline : (Vt.point app.terminal.inner).2 = line) :
    satAdd area.x app.terminal.cursor.1 < area.right ∧ satAdd area.y app.terminal.cursor.2 = area.y + line ∧
      area.y + line < area.bottom := by
  have hcol := h.column_lt
  have hlt := h.line_lt
  have hright := area.right_le
  have hbottom := area.bottom_le
  have hcursor : app.terminal.cursor = ((Vt.point app.terminal.inner).1, line) := by
    simp only [Terminal.cursor, hline, Prod.mk.injEq]
    omega
  rw [hcursor, area.right_eq, area.bottom_eq]
  unfold satAdd
  omega

/-- There the cursor is always drawn, in the row that its point names. -/
theorem render_cursor (h : Displays app.terminal.inner columns rows) {split : Rect → Rect × Rect} {area : Rect}
    (hw : columns ≤ (split area).1.width) (hh : rows.length ≤ (split area).1.height) {line : Nat}
    (hline : (Vt.point app.terminal.inner).2 = line) : (app.render split area).cursor =
      some (satAdd (split area).1.x app.terminal.cursor.1, (split area).1.y + line) := by
  obtain ⟨hx, hy, hbelow⟩ := cursor_inside h hw hh hline
  rw [cursor_render, hy, if_pos ⟨hx, hbelow⟩]

/-- The row that the point of the cursor names shows its line as long as the view is not scrolled back. -/
theorem shows_cursor_iff (h : Displays app.terminal.inner columns rows) {split : Rect → Rect × Rect} {area : Rect}
    (hh : rows.length ≤ (split area).1.height) {line : Nat} (hline : (Vt.point app.terminal.inner).2 = line) :
    (app.render split area).Shows rows (Vt.point app.terminal.inner).2 ((split area).1.y + line) ↔
      Viewport.displayOffset app.terminal.inner = 0 := by
  have hlt : line < rows.length := by
    have := h.line_lt
    omega
  constructor
  · rintro ⟨i, r, hr, hrl, -, -, hyi⟩
    have hi : (split area).1.y + line = (split area).1.y + i := hyi
    have := h.line_eq hr
    omega
  · intro hd
    obtain ⟨r, hr⟩ : ∃ r, rows[line]? = some r := ⟨_, List.getElem?_eq_getElem hlt⟩
    have hrl : r.line = (Vt.point app.terminal.inner).2 := by
      have := h.line_eq hr
      omega
    exact ⟨line, r, hr, hrl, by rw [render_lines h.cells h.pairwise, List.getElem?_map, hr]; rfl, hlt.trans_le hh, rfl⟩

/-- **The cursor and the suggestion are drawn on the row that shows the line of the cursor exactly when the view is not
scrolled back.** -/
theorem cursor_on_line_iff (app : App V) (columns : Nat) (rows : List GridRow)
    (h : Displays app.terminal.inner columns rows) (split : Rect → Rect × Rect) (area : Rect)
    (hw : columns ≤ (split area).1.width) (hh : rows.length ≤ (split area).1.height) :
    (app.render split area).CursorOnLine rows (Vt.point app.terminal.inner).2 ↔
      Viewport.displayOffset app.terminal.inner = 0 := by
  obtain ⟨line, hline⟩ := Int.eq_ofNat_of_zero_le h.line_nonneg
  have hcursor := render_cursor h hw hh hline
  have hshows := shows_cursor_iff h hh hline
  constructor
  · intro hon
    exact hshows.1 (hon.cursor _ _ hcursor)
  · intro hd
    have hrow := hshows.2 hd
    constructor
    case cursor =>
      intro x y hc
      rw [hcursor] at hc
      cases hc
      exact hrow
    case ghost =>
      intro g hg
      rw [ghost_y hg, (cursor_inside h hw hh hline).2.1]
      exact hrow
    case hidden =>
      intro hno
      obtain ⟨i, r, hr, hrl, -⟩ := hrow
      exact absurd hrl (hno r (List.mem_of_getElem? hr))

/-- A prompt on a live screen, with a suggestion. -/
def liveScreen : App PagerVt :=
  { App.new ['h'] ['u'] 4 2 with promptPos := some (0, 0), suggestion := some ['l', 's'] }

/-- A blank row of four columns. -/
def blankRow (line : Int) (h : -2 ^ 31 < line) : GridRow where
  line
  cells := List.replicate 4 { line, c := ' ' }
  cells_ne := by simp
  on_line _ hc := by rw [List.eq_of_mem_replicate hc]
  line_gt := h

/-- The two rows that a blank screen over three lines shows. -/
def shownRows (offset : Fin 4) : List GridRow :=
  [blankRow (-(offset.val : Int)) (by omega), blankRow (1 - (offset.val : Int)) (by omega)]

theorem cursor_on_line_live : (liveScreen.render cutStatus smallWindow).CursorOnLine (shownRows 0) 0 ∧
    (liveScreen.render cutStatus smallWindow).ghost.isSome = true := by
  have hdisplays : Displays liveScreen.terminal.inner 4 (shownRows 0) := by constructor <;> decide
  have hwidth : 4 ≤ (cutStatus smallWindow).1.width := by decide
  have hheight : (shownRows 0).length ≤ (cutStatus smallWindow).1.height := by decide
  have hiff := cursor_on_line_iff liveScreen 4 (shownRows 0) hdisplays cutStatus smallWindow hwidth hheight
  exact ⟨hiff.2 rfl, by decide⟩

/-- Three lines of scrollback, and the view scrolled back to its start. -/
def scrolledBack : App PagerVt :=
  let app := (App.new ['h'] ['u'] 4 2 : App PagerVt).onSessionEvent (.output (List.replicate 4 0x0a))
  { app with terminal := app.terminal.scrollDisplay 3 }

/-- The line of the cursor is out of view, and the cursor is drawn. -/
theorem cursor_off_line : Displays scrolledBack.terminal.inner 4 (shownRows 3) ∧
    4 ≤ (cutStatus smallWindow).1.width ∧ (shownRows 3).length ≤ (cutStatus smallWindow).1.height ∧
    ¬ (scrolledBack.render cutStatus smallWindow).CursorOnLine (shownRows 3)
      (Vt.point scrolledBack.terminal.inner).2 := by
  refine ⟨by constructor <;> decide, by decide, by decide, fun h => ?_⟩
  have hnone := (h.hidden (by decide)).1
  have hsome : (scrolledBack.render cutStatus smallWindow).cursor = some (0, 1) := by decide
  rw [hnone] at hsome
  cases hsome

end App

end TinySsh
