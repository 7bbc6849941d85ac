import TinySsh.Tui

/-!
# The terminal that is left behind

After `drive`, `run_tui` undoes what `setup_terminal` did, however `drive` ended. Where `setup_terminal` itself fails,
nothing is undone: it returns through `?` with the terminal in raw mode (`restored_iff`).
-/

namespace TinySsh

open Text

/-- The terminal is as a shell expects it. -/
structure Tty.Restored (tty : Tty) : Prop where
  raw : tty.raw = false
  altScreen : tty.altScreen = false
  mouseCapture : tty.mouseCapture = false
  bracketedPaste : tty.bracketedPaste = false
  cursorShown : tty.cursorShown = true

/-- Not a call of `setup_terminal` that fails with raw mode on. -/
def TuiAct.SetsUp : TuiAct → Prop
  | .enter done => 3 ≤ done
  | .init ok => ok = true
  | _ => True

/-- Not a call of `teardown_terminal` that fails. -/
def TuiAct.TearsDown : TuiAct → Prop
  | .disableRaw ok | .showCursor ok => ok = true
  | .leave done => 3 ≤ done
  | _ => True

instance : DecidablePred TuiAct.SetsUp
  | .enter done => inferInstanceAs (Decidable (3 ≤ done))
  | .init ok => inferInstanceAs (Decidable (ok = true))
  | .sys _ | .window _ | .eventError | .enableRaw _ | .write _ | .finalDraw _ | .disableRaw _ | .leave _
  | .showCursor _ => isTrue trivial

instance : DecidablePred TuiAct.TearsDown
  | .disableRaw ok | .showCursor ok => inferInstanceAs (Decidable (ok = true))
  | .leave done => inferInstanceAs (Decidable (3 ≤ done))
  | .sys _ | .window _ | .eventError | .enableRaw _ | .enter _ | .init _ | .write _ | .finalDraw _ => isTrue trivial

/-- A complete `execute!` of `teardown_terminal`. -/
theorem Tty.leave_all (tty : Tty) {done : Nat} (h : 3 ≤ done) : (tty.leave done).altScreen = false ∧
    (tty.leave done).mouseCapture = false ∧ (tty.leave done).bracketedPaste = false := by
  have h₀ : 0 < done := by omega
  have h₁ : 1 < done := by omega
  have h₂ : 2 < done := by omega
  simp [Tty.leave, h₀, h₁, h₂]

namespace Tui

variable {V : Type} [Vt V] {split : Rect → Rect × Rect} {t t' : Tui V} {a : TuiAct} {l : List TuiAct}

/-- What the calls so far have left on. -/
def Undone (l : List TuiAct) (t : Tui V) : Prop :=
  match t.pc with
  | .enableRaw => (∀ a ∈ l, a.SetsUp) ∧ t.tty.Restored
  | .enter | .init => (∀ a ∈ l, a.SetsUp) ∧ t.tty.raw = true
  | .drive => ∀ a ∈ l, a.SetsUp
  | .leave => (∀ a ∈ l, a.SetsUp) ∧ t.tty.raw = false
  | .showCursor => (∀ a ∈ l, a.SetsUp) ∧ t.tty.raw = false ∧ t.tty.altScreen = false ∧ t.tty.mouseCapture = false ∧
      t.tty.bracketedPaste = false
  | .left => (∀ a ∈ l, a.SetsUp) ∧ t.tty.Restored ∨ (¬∀ a ∈ l, a.SetsUp) ∧ t.tty.raw = true

theorem setsUp_concat : (∀ b ∈ l ++ [a], b.SetsUp) ↔ (∀ b ∈ l, b.SetsUp) ∧ a.SetsUp := by
  simp [or_imp, forall_and]

omit [Vt V] in
/-- A step that leaves the modes of the terminal. -/
theorem Undone.same (h : t.Undone l) (ha : a.SetsUp) (hpc : t'.pc = t.pc) (hraw : t'.tty.raw = t.tty.raw)
    (halt : t'.tty.altScreen = t.tty.altScreen) (hmouse : t'.tty.mouseCapture = t.tty.mouseCapture)
    (hpaste : t'.tty.bracketedPaste = t.tty.bracketedPaste) (hcursor : t'.tty.cursorShown = t.tty.cursorShown) :
    t'.Undone (l ++ [a]) := by
  have hall : (∀ b ∈ l ++ [a], b.SetsUp) ↔ ∀ b ∈ l, b.SetsUp := setsUp_concat.trans (and_iff_left ha)
  have hrestored : t.tty.Restored → t'.tty.Restored := fun ⟨h₁, h₂, h₃, h₄, h₅⟩ =>
    ⟨hraw.trans h₁, halt.trans h₂, hmouse.trans h₃, hpaste.trans h₄, hcursor.trans h₅⟩
  unfold Undone at h ⊢
  rw [hpc]
  split at h <;> simp only [hall, hraw, halt, hmouse, hpaste]
  · exact ⟨h.1, hrestored h.2⟩
  · exact h
  · exact h
  · exact h
  · exact h
  · exact h
  · exact h.imp_left fun h => ⟨h.1, hrestored h.2⟩

/-- **A step leaves on what the calls so far have left on.** -/
theorem undone_step (h : t.Undone l) (ha : a.TearsDown) (hs : t.step split a = some t') : t'.Undone (l ++ [a]) := by
  cases stepped_of_step hs with
  | sys | window | eventError => exact h.same trivial rfl rfl rfl rfl rfl rfl
  | enableRaw hpc =>
    rw [Undone, hpc] at h
    exact ⟨setsUp_concat.2 ⟨h.1, trivial⟩, rfl⟩
  | enter hpc hdone =>
    rw [Undone, hpc] at h
    exact ⟨setsUp_concat.2 ⟨h.1, hdone⟩, h.2⟩
  | init hpc =>
    rw [Undone, hpc] at h
    exact setsUp_concat.2 ⟨h.1, rfl⟩
  | setupFailed hui hfail =>
    rcases hfail with ⟨hpc, rfl, rfl⟩ | ⟨done, hdone, hpc, rfl, rfl⟩ | ⟨hpc, rfl, rfl⟩ <;> rw [Undone, hpc] at h
    · exact .inl ⟨setsUp_concat.2 ⟨h.1, trivial⟩, h.2⟩
    · exact .inr ⟨(fun hall => absurd (setsUp_concat.1 hall).2 (Nat.not_le_of_lt hdone)), h.2⟩
    · exact .inr ⟨(fun hall => nomatch (setsUp_concat.1 hall).2), h.2⟩
  | write hpc | finalDraw hpc =>
    rw [Undone, hpc] at h
    rw [Undone]
    dsimp only
    rw [hpc]
    exact setsUp_concat.2 ⟨h, trivial⟩
  | writeFailed hpc hfail =>
    rw [Undone, hpc] at h
    rw [Undone]
    dsimp only
    rw [hpc]
    rcases hfail with ⟨-, rfl⟩ | ⟨-, rfl⟩ <;> exact setsUp_concat.2 ⟨h, trivial⟩
  | disableRaw hpc =>
    rw [Undone, hpc] at h
    cases ha
    exact ⟨setsUp_concat.2 ⟨h, trivial⟩, Bool.and_false _⟩
  | leave hpc =>
    rw [Undone, hpc] at h
    exact ⟨setsUp_concat.2 ⟨h.1, trivial⟩, h.2, Tty.leave_all _ ha⟩
  | showCursor hpc =>
    rw [Undone, hpc] at h
    cases ha
    obtain ⟨hset, hraw, halt, hmouse, hpaste⟩ := h
    exact .inl ⟨setsUp_concat.2 ⟨hset, trivial⟩, hraw, halt, hmouse, hpaste, Bool.or_true _⟩

/-- **Where `teardown_terminal` succeeds whenever it is called, `run_tui` leaves the terminal as it was exactly when no
call of `setup_terminal` failed after the first one.** -/
theorem restored_iff {host user : Str} {area : Rect} {history₀ : History}
    (h : Lts.run (step split) (Tui.new host user area history₀ : Tui V) l = some t) (hpc : t.pc = .left)
    (hdown : ∀ a ∈ l, a.TearsDown) : t.tty.Restored ↔ ∀ a ∈ l, a.SetsUp := by
  have hnew : (Tui.new host user area history₀ : Tui V).Undone [] := ⟨(fun _ h => nomatch h), rfl, rfl, rfl, rfl, rfl⟩
  have hI : t.Undone l := Lts.run_trace (I := fun l (t : Tui V) => t.Undone l) (fun h ha hs => undone_step h ha hs) hnew
    hdown h
  rw [Undone, hpc] at hI
  rcases hI with ⟨hset, hrestored⟩ | ⟨hset, hraw⟩
  · exact iff_of_true hrestored hset
  · refine iff_of_false (fun hrestored => ?_) hset
    rw [hrestored.raw] at hraw
    cases hraw

/-- The event stream of the terminal ends after the first drawing. -/
def shortVisit : List TuiAct :=
  [.enableRaw true, .enter 3, .init true, .write true, .sys .leave, .disableRaw true, .leave 3, .showCursor true]

/-- The second command of `setup_terminal` is not written. -/
def stuckSetup : List TuiAct := [.enableRaw true, .enter 1]

theorem restored_visits :
    (∃ t : Tui MiniVt, Lts.run (step App.cutStatus) (Tui.new ['h'] ['u'] App.smallWindow {})
      shortVisit = some t ∧ t.tty.Restored) ∧
    ∃ t : Tui MiniVt, Lts.run (step App.cutStatus) (Tui.new ['h'] ['u'] App.smallWindow {})
      stuckSetup = some t ∧ ¬t.tty.Restored := by
  constructor
  · have hpc : (Lts.run (step App.cutStatus) (Tui.new ['h'] ['u'] App.smallWindow {} : Tui MiniVt)
        shortVisit).map Tui.pc = some .left := by decide +kernel
    obtain ⟨t, ht, hpc⟩ := Option.map_eq_some_iff.1 hpc
    exact ⟨t, ht, (restored_iff ht hpc (by decide)).2 (by decide)⟩
  · have hpc : (Lts.run (step App.cutStatus) (Tui.new ['h'] ['u'] App.smallWindow {} : Tui MiniVt)
        stuckSetup).map Tui.pc = some .left := by decide +kernel
    obtain ⟨t, ht, hpc⟩ := Option.map_eq_some_iff.1 hpc
    exact ⟨t, ht, fun hrestored => absurd ((restored_iff ht hpc (by decide)).1 hrestored) (by decide)⟩

end Tui

end TinySsh
