import TinySsh.Screen.Viewport
import TinySsh.Ui

/-!
# The mouse wheel

On the normal screen the wheel scrolls the view three lines at a time. `handle_terminal_event` takes a negative delta
for one that shows older lines, and the emulator adds the delta to the display offset, which counts the lines back: the
view scrolls against the wheel, unless there is nothing to scroll (`wheel_iff`).
-/

namespace TinySsh

open Viewport

/-- What the emulator does with `Scroll::Delta`: the delta is added to the display offset, within the scrollback. -/
structure Scrolls (V : Type) [Viewport V] : Prop where
  offset (v : V) (n : Int) :
    (displayOffset (Vt.scrollDisplay v n) : Int) = max (min (displayOffset v + n) (historySize v)) 0
  history (v : V) (n : Int) : historySize (Vt.scrollDisplay v n) = historySize v
  mode (v : V) (n : Int) : Vt.mode (Vt.scrollDisplay v n) = Vt.mode v

theorem PagerVt.scrolls : Scrolls PagerVt where
  offset _ _ := Int.ofNat_toNat _
  history _ _ := rfl
  mode _ _ := rfl

/-! ## The offset that the wheel asks for -/

/-- The offset after an event: a turn up is three lines back, a turn down three lines forth. -/
def turn (history offset : Nat) : MouseEventKind → Nat
  | .scrollUp => min (offset + 3) history
  | .scrollDown => offset - 3
  | _ => offset

/-- The offset after events. -/
def turns (history offset : Nat) (kinds : List MouseEventKind) : Nat := kinds.foldl (turn history) offset

/-- The other turn. -/
def MouseEventKind.reversed : MouseEventKind → MouseEventKind
  | .scrollUp => .scrollDown
  | .scrollDown => .scrollUp
  | kind => kind

def MouseEvent.IsWheel (m : MouseEvent) : Prop := m.kind = .scrollUp ∨ m.kind = .scrollDown

theorem turn_le {history offset : Nat} (h : offset ≤ history) (kind : MouseEventKind) :
    turn history offset kind ≤ history := by
  unfold turn
  split <;> omega

/-- The two turns differ where there is something to scroll. -/
theorem turn_reversed_iff {history offset : Nat} (h : offset ≤ history) {m : MouseEvent} (hm : m.IsWheel) :
    turn history offset m.kind.reversed = turn history offset m.kind ↔ history = 0 := by
  rcases hm with hk | hk <;> simp only [hk, MouseEventKind.reversed, turn] <;> omega

/-- Without a scrollback there is one offset. -/
theorem turns_zero (kinds : List MouseEventKind) : turns 0 0 kinds = 0 := by
  induction kinds with
  | nil => rfl
  | cons kind kinds ih =>
    have hturn : turn 0 0 kind = 0 := Nat.le_zero.1 (turn_le le_rfl kind)
    rw [turns, List.foldl_cons, hturn]
    exact ih

/-! ## The offset that the handler sets -/

namespace App

variable {V : Type} [Viewport V] {app app' : App V} {history : History} {env : Env}

/-- The handler of a mouse event, as far as the application goes. -/
def mouseStep (history : History) (env : Env) (app : App V) (m : MouseEvent) : Option (App V) :=
  (handleTerminalEvent app history env (.mouse m)).map (·.1)

/-- The display offset. -/
def offset (app : App V) : Nat := displayOffset app.terminal.inner

/-- The normal screen with its view inside the scrollback. -/
structure AtOffset (app : App V) (history offset : Nat) : Prop where
  normal : app.terminal.isAltScreen = false
  size : historySize app.terminal.inner = history
  offset_eq : app.offset = offset
  offset_le : offset ≤ history

/-- **An event of the wheel moves the view the other way.** -/
theorem AtOffset.mouseStep (hs : Scrolls V) {size offset : Nat} (h : app.AtOffset size offset) {m : MouseEvent}
    (hm : m.IsWheel) (history : History) (env : Env) :
    ∃ app', app.mouseStep history env m = some app' ∧ app'.AtOffset size (turn size offset m.kind.reversed) := by
  have hsize := h.size
  have hoff : (displayOffset app.terminal.inner : Int) = offset := congrArg _ h.offset_eq
  have hle := h.offset_le
  refine ⟨{ app with terminal := app.terminal.scrollDisplay (if m.kind = .scrollUp then -3 else 3) }, ?_, ?_, ?_, ?_,
    turn_le hle _⟩
  · simp only [App.mouseStep, handleTerminalEvent]
    rw [if_pos ⟨hm, h.normal⟩]
    rfl
  · have hmode := hs.mode app.terminal.inner (if m.kind = .scrollUp then -3 else 3)
    exact (congrArg TermMode.altScreen hmode).trans h.normal
  · exact (hs.history _ _).trans hsize
  · have hscroll := hs.offset app.terminal.inner (if m.kind = .scrollUp then -3 else 3)
    rw [hoff, hsize] at hscroll
    have hgoal : (displayOffset (Vt.scrollDisplay app.terminal.inner (if m.kind = .scrollUp then -3 else 3)) : Int) =
        turn size offset m.kind.reversed := by
      rw [hscroll]
      rcases hm with hk | hk <;> simp [hk, MouseEventKind.reversed, turn] <;> omega
    exact Int.ofNat_inj.1 hgoal

/-- Along events of the wheel, the view moves the other way. -/
theorem AtOffset.run (hs : Scrolls V) {size offset : Nat} (h : app.AtOffset size offset) {l : List MouseEvent}
    (hl : ∀ m ∈ l, m.IsWheel) (history : History) (env : Env) :
    ∃ app', Lts.run (App.mouseStep history env) app l = some app' ∧
      app'.AtOffset size (turns size offset (l.map fun m => m.kind.reversed)) := by
  induction l generalizing app offset with
  | nil => exact ⟨app, rfl, h⟩
  | cons m l ih =>
    obtain ⟨hm, hrest⟩ := List.forall_mem_cons.1 hl
    obtain ⟨t, ht, hat⟩ := h.mouseStep hs hm history env
    obtain ⟨u, hu, hau⟩ := ih hat hrest
    exact ⟨u, by rw [Lts.run_cons, ht]; exact hu, hau⟩

/-- **The view follows the wheel exactly when there is no scrollback to show**: with one, the first event already moves
it the other way. -/
theorem wheel_iff (hs : Scrolls V) (app : App V) (hnormal : app.terminal.isAltScreen = false)
    (hle : app.offset ≤ historySize app.terminal.inner) (history : History) (env : Env) (l : List MouseEvent)
    (hl : ∀ m ∈ l, m.IsWheel) :
    ((∀ l₁, l₁ <+: l → (Lts.run (App.mouseStep history env) app l₁).map App.offset =
        some (turns (historySize app.terminal.inner) app.offset (l₁.map MouseEvent.kind))) ↔
      l = [] ∨ historySize app.terminal.inner = 0) ∧
    (Lts.run (App.mouseStep history env) app l).map App.offset =
      some (turns (historySize app.terminal.inner) app.offset (l.map fun m => m.kind.reversed)) := by
  have hat : app.AtOffset (historySize app.terminal.inner) app.offset := ⟨hnormal, rfl, rfl, hle⟩
  have hrun : ∀ l₁ : List MouseEvent, l₁ <+: l → (Lts.run (App.mouseStep history env) app l₁).map App.offset =
      some (turns (historySize app.terminal.inner) app.offset (l₁.map fun m => m.kind.reversed)) := fun l₁ h₁ => by
    obtain ⟨app', hr, hat'⟩ := hat.run hs (fun m hm => hl m (h₁.subset hm)) history env
    rw [hr, Option.map_some, hat'.offset_eq]
  refine ⟨?_, hrun l l.prefix_refl⟩
  constructor
  · intro h
    cases l with
    | nil => exact .inl rfl
    | cons m l =>
      -- the first event
      have hm : [m] <+: m :: l := ⟨l, rfl⟩
      have hturn := (hrun [m] hm).symm.trans (h [m] hm)
      exact .inr ((turn_reversed_iff hle (hl m List.mem_cons_self)).1 (Option.some.inj hturn))
  · rintro (rfl | hzero) l₁ h₁
    · rw [List.prefix_nil.1 h₁]
      rfl
    · have hoffset : app.offset = 0 := Nat.le_zero.1 (hle.trans_eq hzero)
      rw [hrun l₁ h₁, hzero, hoffset, turns_zero, turns_zero]

/-- A live screen of one row over ten lines of scrollback. -/
def tenBack : App PagerVt :=
  (App.new ['h'] ['u'] 4 1 : App PagerVt).onSessionEvent (.output (List.replicate 10 0x0a))

/-- An event of the wheel. -/
def wheel (kind : MouseEventKind) : MouseEvent := { kind, column := 0, row := 0 }

/-- Turning down twice scrolls back six lines. -/
theorem wheel_down : (Lts.run (App.mouseStep {} (.stable 0)) tenBack [wheel .scrollDown, wheel .scrollDown]).map
    App.offset = some 6 :=
  (wheel_iff PagerVt.scrolls tenBack rfl (by decide) {} (.stable 0) [wheel .scrollDown, wheel .scrollDown]
    (by simp [MouseEvent.IsWheel, wheel])).2

/-- Turning up on the live screen shows no older lines. -/
theorem wheel_up_idle : ¬ (Lts.run (App.mouseStep {} (.stable 0)) tenBack [wheel .scrollUp]).map App.offset =
    some (turns (historySize tenBack.terminal.inner) tenBack.offset [.scrollUp]) := by
  decide

end App

end TinySsh
