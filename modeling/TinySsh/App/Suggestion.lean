import TinySsh.App.Events

/-!
# The cached suggestion

In every state that a run reaches, a cached suggestion completes the shadow line to a command recorded for the host
(`Sound`, `run_sound`): every branch that changes the line recomputes the suggestion or drops it. Accepting it therefore
sends the rest of that command (`suggestion_completes`).
-/

namespace TinySsh.App

open Text

variable {V : Type} {app : App V} {history history' : History} {env : Env} {key : KeyEvent}

/-! ## Completing the line to a recorded command -/

/-- The cached suggestion completes the shadow line to a command of this host. -/
def Sound (app : App V) (history : History) : Prop := ∀ rest, app.suggestion = some rest →
  app.shadowInput ≠ [] ∧ rest ≠ [] ∧ ∃ r ∈ history.rows, r.host = app.host ∧ r.command = app.shadowInput ++ rest

theorem sound_of_none (h : app.suggestion = none) : app.Sound history := fun rest hr => by
  rw [h] at hr
  cases hr

theorem sound_refreshed : (app.refreshed history env).Sound history := fun _ hr => completion_some hr

theorem Sound.mono (h : app.Sound history) (hsub : history.rows ⊆ history'.rows) : app.Sound history' := by
  intro rest hr
  obtain ⟨hne, hrest, r, hm, hh⟩ := h rest hr
  exact ⟨hne, hrest, r, hsub hm, hh⟩

/-- Only the line, the host and the suggestion matter. -/
theorem Sound.congr {app' : App V} (h : app.Sound history) (hs : app'.suggestion = app.suggestion)
    (hi : app'.shadowInput = app.shadowInput) (hh : app'.host = app.host) : app'.Sound history := fun rest hr => by
  rw [hi, hh]
  exact h rest (hs ▸ hr)

/-- Enter appends at most one row, the submitted line. -/
theorem rows_recordEnter (app : App V) (history : History) (env : Env) :
    history.rows ⊆ (app.recordEnter history env).rows := by
  unfold recordEnter
  split
  · split
    · rename_i hr
      obtain ⟨r, hrows, -⟩ := History.record_ok hr
      simp [hrows]
    · exact List.Subset.refl _
  · exact List.Subset.refl _

theorem rows_historyStep (app : App V) (key : KeyEvent) (history : History) (env : Env) :
    history.rows ⊆ (app.historyStep key history env).rows := by
  unfold historyStep
  split
  · exact rows_recordEnter app history env
  · exact List.Subset.refl _

/-- A key that keeps the suggestion keeps the text of the line. -/
theorem text_of_keep (h : keyCached key = .keep) (z : Zipper Char) : ((keyEdit key).apply z).text = z.text := by
  unfold keyCached at h
  unfold keyEdit
  cases hk : key.code <;> simp [hk, Edit.apply] at h ⊢

/-- A key that is not a character never makes the line longer. -/
theorem length_text_le (h : ∀ c, key.code ≠ .char c) (z : Zipper Char) :
    ((keyEdit key).apply z).text.length ≤ z.text.length := by
  unfold keyEdit
  cases hk : key.code
  case char c => exact absurd hk (h c)
  case backspace => simp [Edit.apply, Zipper.deleteBefore]
  all_goals simp [Edit.apply]

theorem shadowInput_shadowStep (app : App V) (key : KeyEvent) (history : History) (env : Env) :
    (app.shadowStep key history env).shadowInput = ((keyEdit key).apply app.zip).text := by
  unfold shadowStep
  cases keyCached key <;> rfl

/-- **A key that is sent keeps the suggestion sound**: it is recomputed, dropped, or kept with the line. -/
theorem sound_shadowStep (h : app.Sound history) (key : KeyEvent) (env : Env) :
    (app.shadowStep key history env).Sound history := by
  unfold shadowStep
  cases hk : keyCached key with
  | keep => exact h.congr rfl ((text_of_keep hk _).trans zip_text) rfl
  | drop => exact sound_of_none rfl
  | refresh => exact sound_refreshed

theorem captured_of_accepts (h : app.accepts key = true) : captured key = false := by
  simp only [accepts, Bool.and_eq_true, decide_eq_true_eq] at h
  simp [captured, h.1.1.1]

variable [Vt V]

theorem Sound.onKey {r : App V × History × Action} (h : app.Sound history) (hr : KeyStep app key history env r) :
    r.1.Sound r.2.1 := by
  cases hr with
  | captured => exact h.congr rfl rfl rfl
  | accepted => exact sound_refreshed
  | silent => exact h
  | sent => exact (sound_shadowStep h key env).mono (rows_historyStep app key history env)

theorem Sound.onOutput (h : app.Sound history) (bytes : List UInt8) : (app.onOutput bytes).Sound history := by
  rw [onOutput_eq]
  by_cases hp : OscEvent.promptEnd ∈ app.outEvents bytes
  · exact sound_of_none (if_pos hp)
  · exact h.congr (if_neg hp) (if_neg hp) rfl

theorem Sound.step {s s' : App V × History} {i : Input} (hok : s.1.Ok) (h : s.1.Sound s.2)
    (hs : App.step s i = some s') : s'.1.Sound s'.2 := by
  cases i with
  | key key env =>
    obtain ⟨r, hr, rfl⟩ := Option.map_eq_some_iff.1 hs
    exact h.onKey (keyStep_of_onKey hok.wf hr)
  | event ev =>
    cases hs
    cases ev with
    | output bytes | stderr bytes => exact h.onOutput bytes
    | _ => exact h.congr rfl rfl rfl

/-- **Every run keeps the suggestion sound.** -/
theorem run_sound {s s' : App V × History} {l : List Input} (hok : s.1.Ok) (h : s.1.Sound s.2)
    (hr : Lts.run App.step s l = some s') : s'.1.Ok ∧ s'.1.Sound s'.2 :=
  Lts.run_inv (I := fun s => s.1.Ok ∧ s.1.Sound s.2) (fun hI hs => ⟨hI.1.step hs, hI.2.step hI.1 hs⟩) ⟨hok, h⟩ hr

/-- **A cached suggestion always completes the line to a command of this host**, and accepting it sends the rest of that
command and leaves the command as the line. -/
theorem suggestion_completes (host user : Str) (cols rows : Nat) (history₀ : History) (l : List Input)
    (hr : runNew host user cols rows history₀ l = some (app, history)) :
    (∀ rest, app.suggestion = some rest → app.shadowInput ≠ [] ∧ rest ≠ [] ∧
      ∃ r ∈ history.rows, r.host = app.host ∧ r.command = app.shadowInput ++ rest) ∧
    ∀ key env, app.accepts key = true → ∃ rest, ∃ r ∈ history.rows, ∃ app', app.suggestion = some rest ∧
      r.host = app.host ∧ app.onKey key history env = some (app', history, .send (utf8 rest)) ∧
      utf8 app.shadowInput ++ utf8 rest = utf8 r.command ∧ app'.shadowInput = r.command ∧
      app'.shadowCursor = r.command.length := by
  obtain ⟨hok, hsound⟩ := run_sound (ok_new host user cols rows) (sound_of_none rfl) hr
  refine ⟨hsound, fun key env ha => ?_⟩
  obtain ⟨res, hres, hstep⟩ := onKey_step hok.wf key history env
  cases hstep with
  | @accepted rest _ _ hs =>
    obtain ⟨-, -, r, hm, hh, hc⟩ := hsound rest hs
    refine ⟨rest, r, hm, _, hs, hh, hres, by rw [hc, utf8_append], ?_, ?_⟩
    · simp [acceptStep, refreshed, edit, hc]
    · simp [acceptStep, refreshed, edit, hc]
  | captured hc => rw [captured_of_accepts ha] at hc; cases hc
  | silent _ hn => rw [ha] at hn; cases hn
  | sent _ hn => rw [ha] at hn; cases hn

/-- A history with the command `git` on the host `h`. -/
def gitHistory : History where
  rows := [{ id := 1, host := ['h'], user := ['u'], cwd := none, command := ['g', 'i', 't'], timestamp := 100,
             exitCode := none, durationMs := none, source := "user" }]
  lastId := 1

theorem suggestion_completes_git : ∃ (app : App MiniVt) (history : History),
    runNew ['h'] ['u'] 80 24 gitHistory [pressed (.char 'g')] = some (app, history) ∧
    (∃ r ∈ history.rows, r.host = app.host ∧ r.command = app.shadowInput ++ ['i', 't']) ∧
    ∃ rest, ∃ r ∈ history.rows, ∃ app', app.suggestion = some rest ∧ r.host = app.host ∧
      app.onKey { code := .right } history (.stable 0) = some (app', history, .send (utf8 rest)) ∧
      utf8 app.shadowInput ++ utf8 rest = utf8 r.command ∧ app'.shadowInput = r.command ∧
      app'.shadowCursor = r.command.length := by
  obtain ⟨app, history, hr, -⟩ := @exists_runNew MiniVt _ ['h'] ['u'] 80 24 gitHistory [pressed (.char 'g')]
  have hsugg : (runNew (V := MiniVt) ['h'] ['u'] 80 24 gitHistory [pressed (.char 'g')]).map
      (fun r => (r.1.suggestion, r.1.accepts { code := .right })) = some (some ['i', 't'], true) := by
    decide +kernel
  rw [hr, Option.map_some, Option.some.injEq, Prod.mk.injEq] at hsugg
  obtain ⟨hall, haccept⟩ := suggestion_completes ['h'] ['u'] 80 24 gitHistory [pressed (.char 'g')] hr
  exact ⟨app, history, hr, (hall _ hsugg.1).2.2, haccept _ _ hsugg.2⟩

end TinySsh.App
