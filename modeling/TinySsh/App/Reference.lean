import TinySsh.App.Events

/-!
# The shadow buffer against a reference editor

The reference is a zipper that knows neither byte offsets nor the other state of the application (`reference`). Run next
to the application from its start, it always holds the shadow line, cut at the shadow cursor (`shadow_is_reference`).
-/

namespace TinySsh.App

open Text

variable {V : Type} {app : App V} {history : History} {env : Env} {key : KeyEvent}

/-! ## The reference -/

/-- What a key does to the reference, given the suggestion there is to accept. -/
def refKey (suggestion : Option Str) (z : Zipper Char) (key : KeyEvent) : Zipper Char :=
  match key.code with
  | .char c =>
    if key.modifiers.control then
      match c.toLower with
      | 'a' => z.home
      | 'e' => z.toEnd
      | 'u' | 'd' => z.clear
      | 'k' => z.killAfter
      | 'w' => z.killWord isWhitespace
      -- with Shift, the program copies the screen instead
      | 'c' => if key.modifiers.shift then z else z.clear
      | _ => z
    else z.insert c
  | .backspace => z.deleteBefore
  | .left => z.left
  | .right =>
    match suggestion with
    | some rest => if key.modifiers = {} ∧ z.after = [] then z.append rest else z.right
    | none => z.right
  | .home => z.home
  | .end => z.toEnd
  | .enter | .up | .down | .pageUp | .pageDown => z.clear
  | _ => z

/-- What a session event does to the reference: a prompt end that completes in a chunk of output erases the line. -/
def refEvent (scanner : OscScanner) (z : Zipper Char) : SessionEvent → Zipper Char
  | .output bytes | .stderr bytes => if .promptEnd ∈ scanner.events bytes then z.clear else z
  | _ => z

/-- The reference after an input of the application. -/
def reference (app : App V) (z : Zipper Char) : Input → Zipper Char
  | .key key _ => refKey app.suggestion z key
  | .event ev => refEvent app.terminal.oscScanner z ev

/-! ## One key -/

/-- The application holds the line of the reference. -/
def Tracks (app : App V) (z : Zipper Char) : Prop :=
  app.shadowInput = z.before ++ z.after ∧ app.shadowCursor = z.before.length

theorem tracks_zip (h : app.Wf) : app.Tracks app.zip := ⟨zip_text.symm, (zip_cursor h).symm⟩

theorem Tracks.zip_eq {z : Zipper Char} (h : app.Tracks z) : app.zip = z := by
  have := Zipper.ofCursor_text z
  rwa [Zipper.text, Zipper.cursor, ← h.1, ← h.2] at this

theorem tracks_iff {z : Zipper Char} : app.Tracks z ↔ app.Wf ∧ app.zip = z := by
  constructor
  · intro h
    refine ⟨?_, h.zip_eq⟩
    unfold Wf
    rw [h.1, h.2]
    simp
  · rintro ⟨hwf, rfl⟩
    exact tracks_zip hwf

theorem zip_shadowStep (app : App V) (key : KeyEvent) (history : History) (env : Env) :
    (app.shadowStep key history env).zip = (keyEdit key).apply app.zip := by
  have : (app.edit ((keyEdit key).apply app.zip)).zip = (keyEdit key).apply app.zip := zip_edit _
  unfold shadowStep
  cases keyCached key <;> exact this

theorem toLower_eq_c {c : Char} (h : c.toLower = 'c') : c = 'c' ∨ c = 'C' := by
  unfold Char.toLower at h
  split at h
  · right
    have hval : c.val + 32 = 99 := congrArg Char.val h
    exact Char.ext (show c.val = 99 - 32 by rw [← hval]; simp)
  · exact .inl h

/-- The keys that the program captures leave the reference alone. -/
theorem refKey_captured (hc : captured key = true) (suggestion : Option Str) (z : Zipper Char) :
    refKey suggestion z key = z := by
  simp only [captured, Bool.or_eq_true, Bool.and_eq_true, decide_eq_true_eq] at hc
  rcases hc with (⟨hctrl, hk⟩ | ⟨⟨hctrl, hshift⟩, hk | hk⟩) | ⟨⟨hctrl, hshift⟩, hk | hk⟩ <;> simp [refKey, *]

/-- Keys with an operation are sent. -/
theorem keyEdit_silent {mode : TermMode} (he : encode key mode = []) : keyEdit key = .keep := by
  unfold encode at he
  unfold keyEdit
  cases hk : key.code with
  | char c => simp [hk, encodeChar_ne_nil] at he
  | backspace | enter => simp [hk] at he
  | up | down | left | right | home | «end» => simp [hk, arrow_ne_nil] at he
  | pageUp | pageDown => simp [hk] at he
  | _ => rfl

/-- A key that the program neither captures nor accepts with edits the reference as it edits the shadow line. -/
theorem refKey_eq (h : app.Wf) (hc : captured key = false) (ha : app.accepts key = false) :
    refKey app.suggestion app.zip key = (keyEdit key).apply app.zip := by
  unfold refKey keyEdit
  cases hk : key.code with
  | char c =>
    cases hctrl : key.modifiers.control with
    | false => rfl
    | true =>
      have hshift : c.toLower = 'c' → key.modifiers.shift = false := fun hlower => by
        rcases toLower_eq_c hlower with rfl | rfl <;> simpa [captured, hk, hctrl] using hc
      simp only [if_true, ctrlOf]
      split <;> simp_all [Ctrl.edit, Edit.apply]
  | right =>
    cases hs : app.suggestion with
    | none => rfl
    | some rest =>
      have hno : ¬(key.modifiers = {} ∧ app.zip.after = []) := by
        rw [← cursor_eq_length h]
        simpa [accepts, KeyModifiers.isEmpty, hk, hs] using ha
      simp only [if_neg hno]
      rfl
  | _ => rfl

variable [Vt V]

/-- **A key moves the shadow line and the reference together.** -/
theorem Tracks.onKey {z : Zipper Char} {r : App V × History × Action} (h : app.Tracks z)
    (hr : KeyStep app key history env r) : r.1.Tracks (refKey app.suggestion z key) := by
  obtain ⟨hwf, rfl⟩ := tracks_iff.1 h
  cases hr with
  | captured hc =>
    rw [refKey_captured hc]
    exact h
  | @accepted rest _ ha hs =>
    have hend : app.zip.after = [] := by
      rw [← cursor_eq_length hwf]
      simpa [accepts, hs] using (Bool.and_eq_true_iff.1 ha).2
    have hkey : refKey app.suggestion app.zip key = app.zip.append rest := by
      obtain ⟨hk, hm⟩ := code_of_accepts ha
      simp [refKey, hk, hm, hs, hend]
    rw [hkey]
    exact ⟨rfl, rfl⟩
  | silent hc ha he =>
    rw [refKey_eq hwf hc ha, keyEdit_silent he]
    exact h
  | sent hc ha =>
    rw [refKey_eq hwf hc ha]
    exact tracks_iff.2 ⟨wf_shadowStep _ _ _, zip_shadowStep _ _ _ _⟩

/-- A session event moves the shadow line and the reference together. -/
theorem Tracks.onSessionEvent {z : Zipper Char} (h : app.Tracks z) (hd : app.terminal.pendingOsc = [])
    (ev : SessionEvent) : (app.onSessionEvent ev).Tracks (refEvent app.terminal.oscScanner z ev) := by
  cases ev with
  | output bytes | stderr bytes =>
    have hevents : app.outEvents bytes = app.terminal.oscScanner.events bytes := by simp [outEvents, hd]
    simp only [App.onSessionEvent, onOutput_eq, refEvent, hevents]
    split
    · exact ⟨rfl, rfl⟩
    · exact h
  | _ => exact h

/-! ## Runs -/

/-- The application and the reference, side by side. -/
def refStep : (App V × History) × Zipper Char → Input → Option ((App V × History) × Zipper Char) :=
  Lts.withGhost App.step fun s z i => reference s.1 z i

theorem tracks_refStep {s s' : (App V × History) × Zipper Char} {i : Input} (h : s.1.1.Ok ∧ s.1.1.Tracks s.2)
    (hs : refStep s i = some s') : s'.1.1.Ok ∧ s'.1.1.Tracks s'.2 := by
  obtain ⟨hok, h⟩ := h
  obtain ⟨t, ht, rfl⟩ := Option.map_eq_some_iff.1 hs
  refine ⟨hok.step ht, ?_⟩
  cases i with
  | key key env =>
    obtain ⟨r, hr, rfl⟩ := Option.map_eq_some_iff.1 ht
    exact h.onKey (keyStep_of_onKey hok.wf hr)
  | event ev =>
    cases ht
    exact h.onSessionEvent hok.drained ev

/-- **Along every run the shadow line is that of the reference**, and the shadow cursor is its cursor. -/
theorem shadow_is_reference (host user : Str) (cols rows : Nat) (history₀ : History) (l : List Input) :
    ∃ (app : App V) (history : History) (z : Zipper Char), runNew host user cols rows history₀ l = some (app, history) ∧
      Lts.run refStep ((App.new host user cols rows, history₀), ⟨[], []⟩) l = some ((app, history), z) ∧
      app.shadowInput = z.before ++ z.after ∧ app.shadowCursor = z.before.length := by
  have hnew : (App.new host user cols rows : App V).Ok := ok_new host user cols rows
  obtain ⟨app, history, hr, -⟩ := @exists_runNew V _ host user cols rows history₀ l
  have hghost : (Lts.run refStep ((App.new host user cols rows, history₀), ⟨[], []⟩) l).map Prod.fst =
      some (app, history) := Lts.run_withGhost.trans hr
  obtain ⟨⟨s, z⟩, hz, rfl⟩ := Option.map_eq_some_iff.1 hghost
  obtain ⟨-, htracks⟩ := Lts.run_inv (I := fun s : (App V × History) × Zipper Char => s.1.1.Ok ∧ s.1.1.Tracks s.2)
    tracks_refStep ⟨hnew, rfl, rfl⟩ hz
  exact ⟨app, history, z, hr, hz, htracks⟩

end TinySsh.App
