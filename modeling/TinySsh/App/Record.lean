import TinySsh.App.Chunks
import TinySsh.App.Prompt
import TinySsh.App.Readline

/-!
# What Enter records

Enter records the shadow line, and nothing when it is empty. The line is what was typed since the last prompt end, so

* a prompt end that arrives while a line is typed drops what was typed before it from the record (`typeahead`);
* a line typed to a running program is recorded as any other, and stays on record (`enter_records`).
-/

namespace TinySsh.App

open Text

variable {V : Type} {app : App V} {history : History} {env : Env} {key : KeyEvent} {s s' : App V × History}

/-! ## Enter -/

/-- Enter erases the line. -/
theorem zip_enter (app : App V) (hk : key.code = .enter) (history : History) (env : Env) :
    (app.shadowStep key history env).zip = ⟨[], []⟩ := by
  rw [zip_shadowStep]
  simp [keyEdit, hk, Edit.apply, Zipper.clear]

variable [Vt V]

/-- Enter sends a carriage return and records the line. -/
theorem onKey_enter (h : app.Wf) (hk : key.code = .enter) (history : History) (env : Env) :
    app.onKey key history env =
      some (app.shadowStep key history env, app.recordEnter history env, .send [0x0d]) := by
  have hsend : encode key app.terminal.mode = [0x0d] := by simp [encode, hk]
  have hhist : app.historyStep key history env = app.recordEnter history env := if_pos hk
  have hc : captured key = false := by simp [captured, hk]
  have ha : app.accepts key = false := by simp [accepts, hk]
  rw [onKey_sent h hc ha (by simp [hsend]), hsend, hhist]

theorem step_enter (h : s.1.Wf) (hk : key.code = .enter) (env : Env) :
    App.step s (.key key env) = some (s.1.shadowStep key s.2 env, s.1.recordEnter s.2 env) := by
  simp only [App.step, onKey_enter h hk, Option.map_some]

/-! ## Typing -/

/-- The key types the character. -/
def Types (i : Input) (c : Char) : Prop :=
  ∃ key env, i = .key key env ∧ key.code = .char c ∧ key.modifiers.control = false

/-- The line is well formed and holds these characters before and after the cursor. -/
structure Holds (s : App V × History) (before after : Str) : Prop where
  ok : s.1.Ok
  zip : s.1.zip = ⟨before, after⟩

/-- A typed character enters the line at the cursor, and that is all that changes. -/
theorem Holds.types {before after : Str} {i : Input} {c : Char} (h : Holds s before after) (hi : Types i c) :
    ∃ s', App.step s i = some s' ∧ Holds s' (before ++ [c]) after ∧ s'.2 = s.2 ∧ s'.1.terminal = s.1.terminal := by
  obtain ⟨key, env, rfl, hk, hctrl⟩ := hi
  have hc : captured key = false := by simp [captured, hk, hctrl]
  have ha : s.1.accepts key = false := by simp [accepts, hk]
  have hsend : encode key s.1.terminal.mode ≠ [] := by simp [encode, hk, encodeChar_ne_nil]
  have hstep : App.step s (.key key env) = some (s.1.shadowStep key s.2 env, s.1.historyStep key s.2 env) := by
    simp only [App.step, onKey_sent h.ok.wf hc ha hsend, Option.map_some]
  refine ⟨_, hstep, ⟨h.ok.step hstep, ?_⟩, if_neg (by simp [hk]), terminal_shadowStep _ _ _⟩
  rw [zip_shadowStep, h.zip]
  simp [keyEdit, hk, hctrl, Edit.apply, Zipper.insert]

/-- **A typed text enters the line.** -/
theorem Holds.typesText {before after : Str} {l : List Input} {text : Str} (h : Holds s before after)
    (hl : List.Forall₂ Types l text) : ∃ s', Lts.run App.step s l = some s' ∧ Holds s' (before ++ text) after ∧
      s'.2 = s.2 ∧ s'.1.terminal = s.1.terminal := by
  induction hl generalizing s before with
  | nil => exact ⟨s, rfl, by simpa using h, rfl, rfl⟩
  | cons hi _ ih =>
    obtain ⟨t, ht, hholds, hhist, hterm⟩ := h.types hi
    obtain ⟨u, hu, huholds, huhist, huterm⟩ := ih hholds
    refine ⟨u, by rw [Lts.run_cons, ht]; exact hu, by simpa using huholds, huhist.trans hhist, huterm.trans hterm⟩

/-- A prompt end erases the line. -/
theorem holds_output (hok : s.1.Ok) {bytes : List UInt8} (hm : .promptEnd ∈ s.1.terminal.oscScanner.events bytes) :
    Holds (s.1.onSessionEvent (.output bytes), s.2) [] [] := by
  have hevents : OscEvent.promptEnd ∈ s.1.outEvents bytes := List.mem_append_right _ hm
  refine ⟨hok.onSessionEvent (.output bytes), ?_⟩
  simp [onSessionEvent, onOutput_eq, zip, hevents, Zipper.ofCursor]

/-- **A prompt end that arrives while a line is typed leaves on record what is typed after it**: all of the line if it
comes before the first character, nothing if it comes after the last. -/
theorem typeahead {host user : Str} {cols rows : Nat} {history₀ : History} {l₀ : List Input}
    (hr : runNew host user cols rows history₀ l₀ = some s) {enter enter' : KeyEvent} (he : enter.code = .enter)
    (he' : enter'.code = .enter) {l₁ l₂ : List Input} {text₁ text₂ : Str} (h₁ : List.Forall₂ Types l₁ text₁)
    (h₂ : List.Forall₂ Types l₂ text₂) {bytes : List UInt8}
    (hm : .promptEnd ∈ s.1.terminal.oscScanner.events bytes) (env₀ : Env) (hw : env.writeOk = true)
    (hn : env.now.isSome) :
    ∃ t t', Lts.run App.step s (.key enter env₀ :: l₁ ++ .event (.output bytes) :: l₂) = some t ∧
      App.step t (.key enter' env) = some t' ∧ recorded t'.2 = recorded t.2 ++ commandOf text₂ := by
  have hok : s.1.Ok := run_ok (ok_new host user cols rows) hr
  -- the first Enter
  have henter := step_enter hok.wf he env₀
  have hempty : Holds (s.1.shadowStep enter s.2 env₀, s.1.recordEnter s.2 env₀) [] [] :=
    ⟨hok.step henter, zip_enter _ he _ _⟩
  -- what is typed before the marker
  obtain ⟨t₁, ht₁, hbefore, -, hterm⟩ := hempty.typesText h₁
  rw [terminal_shadowStep] at hterm
  -- the marker, and what is typed after it
  obtain ⟨t₂, ht₂, hafter, hhist, -⟩ := (holds_output hbefore.ok (hterm ▸ hm)).typesText h₂
  have hrun : Lts.run App.step s (.key enter env₀ :: l₁ ++ .event (.output bytes) :: l₂) = some t₂ := by
    rw [List.cons_append, Lts.run_cons, henter]
    exact Lts.run_trans ht₁ ht₂
  have hline : t₂.1.shadowInput = text₂ := by
    rw [← zip_text, hafter.zip]
    exact List.append_nil _
  refine ⟨t₂, _, hrun, step_enter hafter.ok.wf he' env, ?_⟩
  rw [recorded_recordEnter _ _ hw hn, hline]

theorem types_pressed (c : Char) : Types (pressed (.char c)) c := ⟨_, _, rfl, rfl, rfl⟩

/-- `ab`, typed before the prompt ends, and `cd` after it. -/
theorem typeahead_abcd : ∃ t t', Lts.run App.step ((App.new ['h'] ['u'] 80 24 : App MiniVt), {})
      (pressed .enter :: [pressed (.char 'a'), pressed (.char 'b')] ++
        .event (.output promptEndBytes) :: [pressed (.char 'c'), pressed (.char 'd')]) = some t ∧
      App.step t (pressed .enter) = some t' ∧ recorded t'.2 = recorded t.2 ++ commandOf ['c', 'd'] :=
  have hnew : runNew ['h'] ['u'] 80 24 {} [] = some ((App.new ['h'] ['u'] 80 24 : App MiniVt), {}) := rfl
  typeahead hnew rfl rfl (.cons (types_pressed 'a') (.cons (types_pressed 'b') .nil))
    (.cons (types_pressed 'c') (.cons (types_pressed 'd') .nil)) (by decide) _ rfl rfl

/-- What is typed before the marker is lost. -/
theorem typeahead_lost : ¬ ∀ (l₁ l₂ : List Input) (text₁ text₂ : Str) (bytes : List UInt8),
    List.Forall₂ Types l₁ text₁ → List.Forall₂ Types l₂ text₂ → text₁ ++ text₂ ≠ [] →
      .promptEnd ∈ ({} : OscScanner).events bytes → ∀ t t',
      Lts.run App.step ((App.new ['h'] ['u'] 80 24 : App MiniVt), {})
        (pressed .enter :: l₁ ++ .event (.output bytes) :: l₂) = some t →
      App.step t (pressed .enter) = some t' → recorded t'.2 = [text₁ ++ text₂] := by
  intro h
  have hrun : ((Lts.run App.step ((App.new ['h'] ['u'] 80 24 : App MiniVt), {})
      (pressed .enter :: [pressed (.char 'a')] ++ .event (.output promptEndBytes) :: [pressed (.char 'b')])).bind
        fun t => (App.step t (pressed .enter)).map fun t' => recorded t'.2) = some [['b']] := by decide +kernel
  obtain ⟨t, ht, hrun⟩ := Option.bind_eq_some_iff.1 hrun
  obtain ⟨t', ht', hrec⟩ := Option.map_eq_some_iff.1 hrun
  have hall := h _ _ _ _ promptEndBytes (.cons (types_pressed 'a') .nil) (.cons (types_pressed 'b') .nil) (by simp)
    (by decide) t t' ht ht'
  rw [hrec] at hall
  cases hall

/-! ## The record of a running program -/

/-- No step takes a row off the record. -/
theorem rows_step {i : Input} (hok : s.1.Ok) (hs : App.step s i = some s') : s.2.rows ⊆ s'.2.rows := by
  cases i with
  | key key env =>
    obtain ⟨r, hr, rfl⟩ := Option.map_eq_some_iff.1 hs
    cases keyStep_of_onKey hok.wf hr with
    | sent => exact rows_historyStep _ _ _ _
    | _ => exact List.Subset.refl _
  | event ev => cases hs; exact List.Subset.refl _

/-- **What is on record stays on record.** -/
theorem rows_run {l : List Input} (hok : s.1.Ok) (hr : Lts.run App.step s l = some s') : s.2.rows ⊆ s'.2.rows :=
  (Lts.run_inv (I := fun t : App V × History => t.1.Ok ∧ s.2.rows ⊆ t.2.rows)
    (fun hI hs => ⟨hI.1.step hs, List.Subset.trans hI.2 (rows_step hI.1 hs)⟩) ⟨hok, List.Subset.refl _⟩ hr).2

/-- `recent` returns every row of its host, when its limit leaves room for them. -/
theorem mem_recent {r : Row} {limit : Nat} {entries : List HistoryEntry} (hr : r ∈ history.rows)
    (hlimit : history.rows.length ≤ limit) (h : history.recent env r.host limit = .ok entries) :
    History.rowToEntry r ∈ entries := by
  unfold History.recent at h
  split at h
  · rename_i l hl
    cases h
    have hperm := env.recentQuery.perm hl
    have hlen : l.length ≤ limit := by
      rw [hperm.length_eq]
      exact (List.length_filter_le _ _).trans hlimit
    refine List.mem_map_of_mem ?_
    rw [List.take_of_length_le hlen, ite_self]
    exact hperm.mem_iff.2 (List.mem_filter.2 ⟨hr, by simp⟩)
  · cases h

/-- **Enter records the line wherever it is pressed**, whatever the last marker was: it sends a carriage return and
records nothing when the line is empty or the write fails, and otherwise the line, which every later `recent` of the
host returns when its limit leaves room. -/
theorem enter_records {host user : Str} {cols rows : Nat} {history₀ : History} {l : List Input} {mark : Option Mark}
    (hr : Lts.run markStep (((App.new host user cols rows : App V), history₀), none) l = some ((app, history), mark))
    (hk : key.code = .enter) (env : Env) :
    ∃ app' history', app.onKey key history env = some (app', history', .send [0x0d]) ∧
      (app.shadowInput = [] → history' = history) ∧
      (∀ e, history.record env app.enterEntry = .error e → history' = history) ∧
      (app.shadowInput ≠ [] → ∀ p, history.record env app.enterEntry = .ok p → ∃ r : Row,
        history'.rows = history.rows ++ [r] ∧ r.host = app.host ∧ r.command = app.shadowInput ∧
        ∀ l₂ app₂ history₂, Lts.run App.step (app', history') l₂ = some (app₂, history₂) →
          ∀ env₂ limit entries, history₂.rows.length ≤ limit → history₂.recent env₂ app.host limit = .ok entries →
            History.rowToEntry r ∈ entries) := by
  have hok : app.Ok := run_ok (ok_new host user cols rows) (Lts.run_of_withGhost hr)
  have hstep : App.step (app, history) (.key key env) = _ := step_enter hok.wf hk env
  refine ⟨_, _, onKey_enter hok.wf hk history env, fun hnil => ?_, fun e he => ?_, fun hne p hp => ?_⟩
  · rw [recordEnter, if_neg (by simp [hnil])]
  · rw [recordEnter, he]
    exact ite_self _
  · obtain ⟨r, hrows, -, hhost, -, -, hcmd, -⟩ := History.record_ok hp
    have hhist : app.recordEnter history env = p.2 := by rw [recordEnter, if_pos hne, hp]
    refine ⟨r, by rw [hhist, hrows], hhost, hcmd, fun l₂ app₂ history₂ hl₂ env₂ limit entries hlimit hrecent => ?_⟩
    have hmem : r ∈ history₂.rows := rows_run (hok.step hstep) hl₂ (by
      show r ∈ (app.recordEnter history env).rows
      rw [hhist, hrows]
      simp)
    exact mem_recent hmem hlimit (by rw [hhost]; exact hrecent)

/-- A prompt, a command with its Enter, and a word typed to the command. -/
def passwordRun : List Input :=
  [.event (.output promptEndBytes), pressed (.char 's'), pressed (.char 'u'), pressed .enter,
   .event (.output [0x1b, 0x5d, 0x31, 0x33, 0x33, 0x3b, 0x43, 0x07]), pressed (.char 'p'), pressed (.char 'w')]

theorem passwordRun_end : ∃ (app : App MiniVt) (history : History),
    Lts.run markStep (((App.new ['h'] ['u'] 80 24 : App MiniVt), {}), none) passwordRun =
      some ((app, history), some .command) ∧ app.shadowInput = ['p', 'w'] := by
  have hrun : (Lts.run markStep (((App.new ['h'] ['u'] 80 24 : App MiniVt), {}), none) passwordRun).map
      (fun s => (s.2, s.1.1.shadowInput)) = some (some .command, ['p', 'w']) := by decide +kernel
  obtain ⟨⟨⟨app, history⟩, mark⟩, hr, heq⟩ := Option.map_eq_some_iff.1 hrun
  obtain ⟨rfl, hline⟩ := Prod.mk.inj heq
  exact ⟨app, history, hr, hline⟩

/-- The word is recorded. -/
theorem enter_records_password : ∃ (app : App MiniVt) (history : History) (app' : App MiniVt) (history' : History)
    (r : Row), Lts.run markStep (((App.new ['h'] ['u'] 80 24 : App MiniVt), {}), none) passwordRun =
      some ((app, history), some .command) ∧
    app.onKey { code := .enter } history (.stable 0) = some (app', history', .send [0x0d]) ∧
    history'.rows = history.rows ++ [r] ∧ r.command = ['p', 'w'] := by
  obtain ⟨app, history, hr, hline⟩ := passwordRun_end
  have hk : ({ code := .enter } : KeyEvent).code = .enter := rfl
  obtain ⟨app', history', hkey, -, -, hrec⟩ := enter_records hr hk (.stable 0)
  obtain ⟨id, h', hok⟩ := @History.record_isOk history (.stable 0) app.enterEntry rfl rfl
  obtain ⟨r, hrows, -, hcmd, -⟩ := hrec (by simp [hline]) _ hok
  exact ⟨app, history, app', history', r, hr, hkey, hrows, hcmd.trans hline⟩

/-- A word typed to a running program gets on record. -/
theorem running_recorded : ¬ ∀ (l : List Input) (app : App MiniVt) (history : History),
    Lts.run markStep (((App.new ['h'] ['u'] 80 24 : App MiniVt), {}), none) l =
      some ((app, history), some .command) →
    ∀ app' history', app.onKey { code := .enter } history (.stable 0) = some (app', history', .send [0x0d]) →
      history'.rows = history.rows := by
  intro h
  obtain ⟨app, history, hr, hline⟩ := passwordRun_end
  have hwf : app.Wf := (run_ok (ok_new ['h'] ['u'] 80 24) (Lts.run_of_withGhost hr)).wf
  have hrows := h _ _ _ hr _ _ (onKey_enter hwf rfl history (.stable 0))
  have hrec : recorded (app.recordEnter history (.stable 0)) = recorded history ++ commandOf app.shadowInput :=
    recorded_recordEnter app history rfl rfl
  rw [recorded, hrows, hline] at hrec
  exact absurd hrec (by simp [recorded, commandOf])

end TinySsh.App
