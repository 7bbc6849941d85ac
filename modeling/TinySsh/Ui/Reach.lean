import TinySsh.Ui.Quit
import TinySsh.App.Suggestion

/-!
# The application in the system

What holds of the application along every run of the system, with the mouse, pastes and resizes that runs of `App` alone
leave out, and with the driver and the remote in any interleaving.

* `Handled`: what `handle_terminal_event` can do to the application.
* `run_reach`: the shadow line stays well formed and the suggestion a completion to a command of this host, the history
  only grows, by commands of this host and user, and no terminal event panics.
-/

namespace TinySsh

open Text

variable {V : Type} [Vt V] {app app' : App V} {history history' : History} {env : Env}

/-! ## Terminal events -/

/-- What a key sends. -/
def Action.command : Action → Option (SessionInput × After)
  | .send bytes => some (.bytes bytes, .report)
  | .quit => some (.disconnect, .quit)
  | .toggleMouseCapture | .copyToClipboard | .none => Option.none

/-- What `handle_terminal_event` can do, up to its send. -/
inductive Handled (app : App V) (history : History) (env : Env) :
    TermEvent → App V → History → Option (SessionInput × After) → Prop
  | released {key : KeyEvent} (hk : key.kind = .release) : Handled app history env (.key key) app history none
  | key {key : KeyEvent} {r : App V × History × Action} (hk : key.kind ≠ .release)
      (hr : app.onKey key history env = some r) : Handled app history env (.key key) r.1 r.2.1 r.2.2.command
  | scrolled {mouse : MouseEvent} {delta : Int} : Handled app history env (.mouse mouse)
      { app with terminal := app.terminal.scrollDisplay delta } history none
  | mouse {mouse : MouseEvent} {send : Option (SessionInput × After)}
      (hs : ∀ cmd after, send = some (cmd, after) →
        after = .report ∧ cmd = .bytes (encodeMouse mouse app.terminal.mode)) :
      Handled app history env (.mouse mouse) app history send
  | paste {text : Str} {bytes : List UInt8}
      (hb : bytes = if app.terminal.mode.bracketedPaste then pasteStart ++ utf8 text ++ pasteEnd else utf8 text) :
      Handled app history env (.paste text) app history (some (.bytes bytes, .report))
  | resize {cols rows : Nat} : Handled app history env (.resize cols rows) app history
      (some (.resize (vtDims cols rows).1 (vtDims cols rows).2, .resized (vtDims cols rows).1 (vtDims cols rows).2))
  | focus {ev : TermEvent} (hev : ev = .focusGained ∨ ev = .focusLost) : Handled app history env ev app history none

theorem handled_of_handle {ev : TermEvent} {send : Option (SessionInput × After)}
    (h : handleTerminalEvent app history env ev = some (app', history', send)) :
    Handled app history env ev app' history' send := by
  cases ev with
  | key key =>
    simp only [handleTerminalEvent] at h
    by_cases hk : key.kind = .release
    · rw [if_pos hk] at h
      cases h
      exact .released hk
    · rw [if_neg hk] at h
      obtain ⟨⟨app₁, history₁, action⟩, hr, h⟩ := Option.bind_eq_some_iff.1 h
      have hkey := Handled.key hk hr
      cases action <;> cases h <;> exact hkey
  | mouse mouse =>
    simp only [handleTerminalEvent] at h
    split at h
    · cases h
      exact .scrolled
    · cases h
      refine .mouse fun cmd after hs => ?_
      split at hs
      · cases hs
      · cases hs
        exact ⟨rfl, rfl⟩
  | paste text =>
    cases h
    exact .paste rfl
  | resize cols rows =>
    cases h
    exact .resize
  | focusGained =>
    cases h
    exact .focus (.inl rfl)
  | focusLost =>
    cases h
    exact .focus (.inr rfl)

/-- **No terminal event panics** while the shadow line is well formed. -/
theorem handle_isSome (h : app.Wf) (history : History) (env : Env) (ev : TermEvent) :
    (handleTerminalEvent app history env ev).isSome := by
  cases ev with
  | key key =>
    simp only [handleTerminalEvent]
    split
    · rfl
    · obtain ⟨⟨app₁, history₁, action⟩, hr, -⟩ := App.onKey_step h key history env
      rw [hr]
      cases action <;> rfl
  | mouse mouse =>
    simp only [handleTerminalEvent]
    split <;> rfl
  | _ => rfl

/-! ## What terminal events keep -/

/-- The history grew by commands of the application's host and user. -/
def Extends (app : App V) (history history' : History) : Prop := ∃ rows, history'.rows = history.rows ++ rows ∧
  ∀ r ∈ rows, r.host = app.host ∧ r.user = app.user ∧ r.command ≠ []

omit [Vt V] in
theorem Extends.refl : Extends app history history := ⟨[], (List.append_nil _).symm, fun _ h => nomatch h⟩

omit [Vt V] in
theorem extends_recordEnter (app : App V) (history : History) (env : Env) :
    Extends app history (app.recordEnter history env) := by
  unfold App.recordEnter
  split
  · rename_i hne
    split
    · rename_i hr
      obtain ⟨r, hrows, -, hhost, huser, -, hcmd, -⟩ := History.record_ok hr
      refine ⟨[r], hrows, fun r' hr' => ?_⟩
      obtain rfl := List.mem_singleton.1 hr'
      exact ⟨hhost, huser, hcmd ▸ hne⟩
    · exact .refl
  · exact .refl

/-- The invariant of the application and its history. -/
structure Reached (host user : Str) (history₀ : History) (app : App V) (history : History) : Prop where
  hostEq : app.host = host
  userEq : app.user = user
  ok : app.Ok
  sound : app.Sound history
  rows : ∃ rows, history.rows = history₀.rows ++ rows ∧ ∀ r ∈ rows, r.host = host ∧ r.user = user ∧ r.command ≠ []

section Keep

variable {host user : Str} {history₀ : History}

omit [Vt V] in
theorem Reached.new (host user : Str) (history : History) (cols rows : Nat) [Vt V] :
    Reached host user history (App.new host user cols rows : App V) history :=
  ⟨rfl, rfl, App.ok_new _ _ _ _, App.sound_of_none rfl, [], (List.append_nil _).symm, fun _ h => nomatch h⟩

omit [Vt V] in
/-- A change of other fields. -/
theorem Reached.congr (h : Reached host user history₀ app history) (hhost : app'.host = app.host)
    (huser : app'.user = app.user) (hline : app'.shadowInput = app.shadowInput)
    (hcursor : app'.shadowCursor = app.shadowCursor) (hsugg : app'.suggestion = app.suggestion)
    (hosc : app'.terminal.pendingOsc = app.terminal.pendingOsc) : Reached host user history₀ app' history := by
  refine ⟨hhost.trans h.hostEq, huser.trans h.userEq, ⟨?_, hosc.trans h.ok.drained⟩, h.sound.congr hsugg hline hhost,
    h.rows⟩
  unfold App.Wf
  rw [hline, hcursor]
  exact h.ok.wf

/-- A key keeps the invariant. -/
theorem Reached.onKey {key : KeyEvent} {r : App V × History × Action} (h : Reached host user history₀ app history)
    (hr : app.onKey key history env = some r) : Reached host user history₀ r.1 r.2.1 := by
  have hstep := App.keyStep_of_onKey h.ok.wf hr
  have hok := h.ok.onKey hstep
  have hsound := h.sound.onKey hstep
  cases hstep with
  | captured => exact ⟨h.hostEq, h.userEq, hok, hsound, h.rows⟩
  | accepted => exact ⟨h.hostEq, h.userEq, hok, hsound, h.rows⟩
  | silent => exact h
  | sent =>
    refine ⟨?_, ?_, hok, hsound, ?_⟩
    · rw [← h.hostEq]
      unfold App.shadowStep
      cases App.keyCached key <;> rfl
    · rw [← h.userEq]
      unfold App.shadowStep
      cases App.keyCached key <;> rfl
    · obtain ⟨rows, hrows, hall⟩ := h.rows
      unfold App.historyStep
      split
      · obtain ⟨new, hnew, hnewall⟩ := extends_recordEnter app history env
        refine ⟨rows ++ new, by rw [hnew, hrows, List.append_assoc], fun r hr => ?_⟩
        rcases List.mem_append.1 hr with hr | hr
        · exact hall r hr
        · obtain ⟨hhost, huser, hne⟩ := hnewall r hr
          exact ⟨hhost.trans h.hostEq, huser.trans h.userEq, hne⟩
      · exact ⟨rows, hrows, hall⟩

theorem Reached.handled {ev : TermEvent} {send : Option (SessionInput × After)}
    (h : Reached host user history₀ app history) (hh : Handled app history env ev app' history' send) :
    Reached host user history₀ app' history' := by
  cases hh with
  | key hk hr => exact h.onKey hr
  | scrolled => exact h.congr rfl rfl rfl rfl rfl rfl
  | _ => exact h

theorem Reached.after (h : Reached host user history₀ app history) (after : After) (ok : Bool) :
    Reached host user history₀ (after.run app ok).1 history := by
  cases after with
  | report => cases ok <;> exact h.congr rfl rfl rfl rfl rfl rfl
  | quit => exact h
  | resized cols rows => exact h.congr rfl rfl rfl rfl rfl rfl

omit [Vt V] in
theorem Reached.loopTop (h : Reached host user history₀ app history) :
    Reached host user history₀ (TinySsh.loopTop app) history := by
  exact ⟨h.hostEq, h.userEq, ⟨h.ok.wf, h.ok.drained⟩, h.sound.congr rfl rfl rfl, h.rows⟩

theorem Reached.onSessionEvent (h : Reached host user history₀ app history) (ev : SessionEvent) :
    Reached host user history₀ (app.onSessionEvent ev) history := by
  have hok := h.ok.onSessionEvent ev
  cases ev with
  | output bytes | stderr bytes =>
    have hsound := h.sound.onOutput bytes
    simp only [App.onSessionEvent] at hok ⊢
    rw [App.onOutput_eq] at hok hsound ⊢
    exact ⟨h.hostEq, h.userEq, hok, hsound, h.rows⟩
  | _ => exact h.congr rfl rfl rfl rfl rfl rfl

end Keep

/-! ## Runs -/

namespace System

variable {s s' : System V} {a : SysAct} {l : List SysAct} {host user : Str} {cols rows : Nat} {history₀ : History}

theorem reached_resume {app : App V} {after : After} {ok : Bool} (h : Reached host user history₀ app s.history) :
    Reached host user history₀ (s.resume (after.run app ok)).app s.history := by
  unfold resume
  split
  · exact h.after after ok
  · exact (h.after after ok).loopTop

omit [Vt V] in
theorem history_resume (r : App V × Bool) : (s.resume r).history = s.history := by
  unfold resume
  split <;> rfl

/-- **A step keeps the application well formed and the suggestion sound.** -/
theorem reached_step (h : Reached host user history₀ s.app s.history) (hs : s.step a = some s') :
    Reached host user history₀ s'.app s'.history := by
  cases stepped_of_step hs with
  | handled hui ht hh => exact (h.handled (handled_of_handle hh)).loopTop
  | sends hui ht hh => exact h.handled (handled_of_handle hh)
  | sent hui hp | detached hui hpc =>
    rw [history_resume]
    exact reached_resume h
  | receive hui ht hp hev => exact (h.onSessionEvent _).loopTop
  | closed hui ht hp => exact h.onSessionEvent .closed
  | _ => exact h

/-- **Along every run of the system** the shadow line is well formed, the suggestion completes it to a command of this
host, the history has only grown, by commands of this host and user, and no terminal event panics. -/
theorem run_reach (h : Lts.run step (System.new host user cols rows history₀) l = some s) :
    s.app.Wf ∧ s.app.Sound s.history ∧
    (∃ rows, s.history.rows = history₀.rows ++ rows ∧ ∀ r ∈ rows, r.host = host ∧ r.user = user ∧ r.command ≠ []) ∧
    ∀ env ev, (handleTerminalEvent s.app s.history env ev).isSome := by
  have hI : Reached host user history₀ s.app s.history :=
    Lts.run_inv (I := fun s : System V => Reached host user history₀ s.app s.history) reached_step
      (Reached.new host user history₀ cols rows) h
  exact ⟨hI.ok.wf, hI.sound, hI.rows, fun env ev => handle_isSome hI.ok.wf s.history env ev⟩

def wheelUp : TermEvent := .mouse { kind := .scrollUp, column := 0, row := 0 }

def enterKey : TermEvent := .key { code := .enter }

/-- A letter, a turn of the wheel, and Enter, with a resize that finds the driver busy. -/
def commandTyped : List SysAct :=
  opening ++ letterTyped ++
  [.typed wheelUp, .typed enterKey, .handle wheelUp (.stable 0), .handle enterKey (.stable 0), .typed (.resize 40 10),
   .drv (.recv (some (.bytes [0x61]))), .sent (.bytes [0x0d]), .handle (.resize 40 10) (.stable 0)]

theorem reach_command : ∃ s : System MiniVt, Lts.run step (System.new ['h'] ['u'] 80 24 {}) commandTyped = some s ∧
    s.app.Wf ∧ s.app.Sound s.history ∧
    s.history.rows.map (fun r => (r.host, r.user, r.command)) = [(['h'], ['u'], ['a'])] ∧
    (handleTerminalEvent s.app s.history (.stable 0) enterKey).isSome := by
  have hrun : (Lts.run step (System.new ['h'] ['u'] 80 24 {} : System MiniVt) commandTyped).map
      (fun s => s.history.rows.map fun r => (r.host, r.user, r.command)) = some [(['h'], ['u'], ['a'])] := by
    decide +kernel
  obtain ⟨s, hs, hrows⟩ := Option.map_eq_some_iff.1 hrun
  obtain ⟨hwf, hsound, -, hall⟩ := run_reach hs
  exact ⟨s, hs, hwf, hsound, hrows, hall _ _⟩

end System

end TinySsh
