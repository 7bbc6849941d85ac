import Mathlib.Data.List.DropRight

/-!
# Lines with a cursor

A line under edit, as the symbols before and after the cursor. The operations are those of a line editor; none of them
can fail, and `ofCursor` reads a zipper off a list and a position, `text` and `cursor` read it back.
-/

/-- A line and a cursor in it. -/
@[ext] structure Zipper (α : Type*) where
  before : List α
  after : List α
deriving DecidableEq

namespace Zipper

variable {α : Type*}

/-- The whole line. -/
def text (z : Zipper α) : List α := z.before ++ z.after

/-- The number of symbols before the cursor. -/
def cursor (z : Zipper α) : Nat := z.before.length

/-- The line `l` with the cursor after `n` symbols. -/
def ofCursor (l : List α) (n : Nat) : Zipper α := ⟨l.take n, l.drop n⟩

@[simp] theorem text_ofCursor (l : List α) (n : Nat) : (ofCursor l n).text = l := List.take_append_drop n l

theorem cursor_ofCursor {l : List α} {n : Nat} (h : n ≤ l.length) : (ofCursor l n).cursor = n := by
  simp [ofCursor, cursor, h]

@[simp] theorem ofCursor_text (z : Zipper α) : ofCursor z.text z.cursor = z := by
  simp [ofCursor, text, cursor]

theorem cursor_le (z : Zipper α) : z.cursor ≤ z.text.length := by simp [cursor, text]

@[simp] theorem length_text (z : Zipper α) : z.text.length = z.before.length + z.after.length := List.length_append

/-! ## Moving -/

def left (z : Zipper α) : Zipper α := ⟨z.before.dropLast, z.before.getLast?.toList ++ z.after⟩

def right (z : Zipper α) : Zipper α := ⟨z.before ++ z.after.head?.toList, z.after.tail⟩

def home (z : Zipper α) : Zipper α := ⟨[], z.text⟩

def toEnd (z : Zipper α) : Zipper α := ⟨z.text, []⟩

@[simp] theorem text_left (z : Zipper α) : z.left.text = z.text := by
  obtain ⟨b, a⟩ := z
  rcases b.eq_nil_or_concat with rfl | ⟨b, x, rfl⟩ <;> simp [left, text]

@[simp] theorem text_right (z : Zipper α) : z.right.text = z.text := by
  obtain ⟨b, a⟩ := z
  cases a <;> simp [right, text]

@[simp] theorem text_home (z : Zipper α) : z.home.text = z.text := rfl

@[simp] theorem text_toEnd (z : Zipper α) : z.toEnd.text = z.text := List.append_nil _

@[simp] theorem cursor_home (z : Zipper α) : z.home.cursor = 0 := rfl

@[simp] theorem cursor_toEnd (z : Zipper α) : z.toEnd.cursor = z.text.length := rfl

/-! ## Editing -/

def insert (z : Zipper α) (a : α) : Zipper α := ⟨z.before ++ [a], z.after⟩

/-- Delete the symbol before the cursor. -/
def deleteBefore (z : Zipper α) : Zipper α := ⟨z.before.dropLast, z.after⟩

/-- Delete the symbol under the cursor. -/
def deleteUnder (z : Zipper α) : Zipper α := ⟨z.before, z.after.tail⟩

def clear (_ : Zipper α) : Zipper α := ⟨[], []⟩

/-- Erase everything before the cursor. -/
def killBefore (z : Zipper α) : Zipper α := ⟨[], z.after⟩

/-- Erase everything after the cursor. -/
def killAfter (z : Zipper α) : Zipper α := ⟨z.before, []⟩

/-- What is left of a line after its trailing white space and the word before that are erased. -/
def dropWord (ws : α → Bool) (l : List α) : List α := (l.rdropWhile ws).rdropWhile fun a => !ws a

/-- Erase the trailing white space and then the word before the cursor. -/
def killWord (ws : α → Bool) (z : Zipper α) : Zipper α := ⟨dropWord ws z.before, z.after⟩

/-- Append to the end of the line and move there. -/
def append (z : Zipper α) (l : List α) : Zipper α := ⟨z.text ++ l, []⟩

@[simp] theorem text_clear (z : Zipper α) : z.clear.text = [] := rfl

@[simp] theorem cursor_clear (z : Zipper α) : z.clear.cursor = 0 := rfl

@[simp] theorem text_killAfter (z : Zipper α) : z.killAfter.text = z.before := List.append_nil _

@[simp] theorem cursor_killAfter (z : Zipper α) : z.killAfter.cursor = z.cursor := rfl

@[simp] theorem text_append (z : Zipper α) (l : List α) : (z.append l).text = z.text ++ l := List.append_nil _

@[simp] theorem cursor_append (z : Zipper α) (l : List α) : (z.append l).cursor = (z.text ++ l).length := rfl

theorem prefix_dropWord (ws : α → Bool) (l : List α) : dropWord ws l <+: l :=
  (List.rdropWhile_prefix _ _).trans (List.rdropWhile_prefix _ _)

/-! ## Where an operation does nothing -/

section Idle

variable {z : Zipper α} {ws : α → Bool}

/-- An operation before the cursor that leaves the text does nothing. -/
theorem eq_self_of_after {z' : Zipper α} (h : z'.after = z.after) : z'.text = z.text ↔ z' = z := by
  refine ⟨fun htext => ?_, fun heq => by rw [heq]⟩
  unfold text at htext
  rw [h] at htext
  exact Zipper.ext (List.append_cancel_right htext) h

theorem insert_ne_self (a : α) : z.insert a ≠ z := fun h => by
  simpa [insert] using congrArg (fun z : Zipper α => z.before.length) h

theorem left_eq_self : z.left = z ↔ z.before = [] := by
  obtain ⟨b, a⟩ := z
  rcases b.eq_nil_or_concat with rfl | ⟨b, x, rfl⟩ <;> simp [left]

theorem right_eq_self : z.right = z ↔ z.after = [] := by
  obtain ⟨b, a⟩ := z
  cases a <;> simp [right]

theorem home_eq_self : z.home = z ↔ z.before = [] := by
  obtain ⟨b, a⟩ := z
  cases b <;> simp [home, text]

theorem toEnd_eq_self : z.toEnd = z ↔ z.after = [] := by
  obtain ⟨b, a⟩ := z
  cases a <;> simp [toEnd, text]

theorem deleteBefore_eq_self : z.deleteBefore = z ↔ z.before = [] := by
  obtain ⟨b, a⟩ := z
  rcases b.eq_nil_or_concat with rfl | ⟨b, x, rfl⟩ <;> simp [deleteBefore]

theorem clear_eq_self : z.clear = z ↔ z.text = [] := by
  obtain ⟨b, a⟩ := z
  simp [clear, text, eq_comm]

theorem killAfter_eq_self : z.killAfter = z ↔ z.after = [] := by
  obtain ⟨b, a⟩ := z
  simp [killAfter, eq_comm]

/-- There is always a symbol to erase. -/
theorem dropWord_eq_self {l : List α} : dropWord ws l = l ↔ l = [] := by
  rcases l.eq_nil_or_concat with rfl | ⟨l, x, rfl⟩
  · simp [dropWord]
  · have hlen : (dropWord ws (l ++ [x])).length ≤ l.length := by
      cases hx : ws x with
      | true =>
        have hw : (l ++ [x]).rdropWhile ws = l.rdropWhile ws := by simp [hx]
        rw [dropWord, hw]
        exact (prefix_dropWord ws l).length_le
      | false =>
        have hw : (l ++ [x]).rdropWhile ws = l ++ [x] := by simp [hx]
        rw [dropWord, hw, List.rdropWhile_concat_pos _ _ _ (by simp [hx])]
        exact (List.rdropWhile_prefix _ _).length_le
    rw [List.concat_eq_append]
    refine ⟨fun h => ?_, fun h => absurd h (by simp)⟩
    rw [h, List.length_append, List.length_singleton] at hlen
    omega

theorem killWord_eq_self : z.killWord ws = z ↔ z.before = [] := by
  obtain ⟨b, a⟩ := z
  simp [killWord, dropWord_eq_self]

end Idle

end Zipper
