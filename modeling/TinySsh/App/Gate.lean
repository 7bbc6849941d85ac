import TinySsh.App.Suggestion

/-!
# Accepting what is on the screen

Right accepts a cached suggestion when the shadow cursor is at the end of the line; whether the suggestion is drawn is
decided by another condition, the five-condition gate, which asks where the cursor of the terminal is. A run accepts
only suggestions that are drawn exactly when the gate holds wherever Right accepts (`suggestion_seen_iff`).
-/

namespace TinySsh.App

open Text

variable {V : Type} {app : App V} {history : History} {env : Env} {key : KeyEvent}

theorem isSome_of_accepts (h : app.accepts key = true) : app.suggestion.isSome = true := by
  simp only [accepts, Bool.and_eq_true] at h
  exact h.1.2

variable [Vt V]

/-- **What the user is promised at a key**: with the gate closed, a plain Right sends the arrow and leaves the line
alone; and the text of the suggestion is sent only with the gate open. -/
def SuggestionSeen (s : App V × History) : Input → Prop
  | .key key env =>
    (key.code = .right → key.modifiers = {} → s.1.canShowSuggestion = false →
      ∃ app' history', s.1.onKey key s.2 env =
          some (app', history', .send (arrow 0x43 s.1.terminal.mode.appCursor)) ∧
        app'.shadowInput = s.1.shadowInput) ∧
    ∀ rest app' history', (∀ c, key.code ≠ .char c) → s.1.suggestion = some rest →
      s.1.onKey key s.2 env = some (app', history', .send (utf8 rest)) →
      app'.shadowInput = s.1.shadowInput ++ rest → s.1.canShowSuggestion = true
  | .event _ => True

/-- The cursor of the terminal stands where the line ends: the prompt is known, the screen is the normal one, and the
cursor is in the row of the prompt, as many columns after it as the line has characters. -/
def CursorAfterLine (app : App V) : Prop := ∃ col row, app.promptPos = some (col, row) ∧
  app.terminal.isAltScreen = false ∧ app.terminal.cursor = (col + app.shadowInput.length, row)

/-- The gate of a cached suggestion is about the cursor of the terminal. -/
theorem canShowSuggestion_iff (h : app.suggestion.isSome = true) :
    app.canShowSuggestion = true ↔ app.CursorAfterLine := by
  unfold canShowSuggestion CursorAfterLine
  rcases app.promptPos with _ | ⟨col, row⟩
  · simp
  rcases app.terminal.cursor with ⟨curCol, curRow⟩
  cases halt : app.terminal.isAltScreen
  · simp only [h, Bool.true_and, Bool.false_or]
    by_cases hout : (curRow != row || decide (curCol < col)) = true
    · simp only [hout, if_true, Bool.false_eq_true, false_iff]
      simp only [Bool.or_eq_true, bne_iff_ne, decide_eq_true_eq] at hout
      rintro ⟨c, r, hp, -, hcur⟩
      cases hp
      cases hcur
      omega
    · simp only [Bool.not_eq_true] at hout
      simp only [hout, Bool.false_eq_true, if_false, decide_eq_true_eq]
      simp only [Bool.or_eq_false_iff, bne_eq_false_iff_eq, decide_eq_false_iff_not] at hout
      obtain ⟨rfl, hcol⟩ := hout
      constructor
      · intro hlen
        exact ⟨col, curRow, rfl, trivial, by rw [hlen]; congr 1; omega⟩
      · rintro ⟨c, r, hp, -, hcur⟩
        cases hp
        cases hcur
        omega
  · simp

/-- The key accepts the suggestion only where it is drawn. -/
def AcceptsAtCursor (s : App V × History) : Input → Prop
  | .key key _ => s.1.accepts key = true → s.1.CursorAfterLine
  | .event _ => True

/-- A plain Right that does not accept sends the arrow and leaves the line alone. -/
theorem onKey_right (h : app.Wf) (hc : key.code = .right) (hm : key.modifiers = {})
    (ha : app.accepts key = false) (history : History) (env : Env) :
    ∃ app', app.onKey key history env = some (app', history, .send (arrow 0x43 app.terminal.mode.appCursor)) ∧
      app'.shadowInput = app.shadowInput := by
  obtain ⟨r, hr, hstep⟩ := onKey_step h key history env
  have hbytes : encode key app.terminal.mode = arrow 0x43 app.terminal.mode.appCursor := by simp [encode, hc]
  cases hstep with
  | captured hcap => simp [captured, hm] at hcap
  | accepted _ hacc => rw [ha] at hacc; cases hacc
  | silent _ _ he => exact absurd (hbytes.symm.trans he) (arrow_ne_nil _ _)
  | sent =>
    refine ⟨_, by rw [hr, hbytes, historyStep, if_neg (by simp [hc])], ?_⟩
    rw [shadowInput_shadowStep, text_of_keep (by simp [keyCached, hc]), zip_text]

/-- Only the branch that accepts appends the suggestion to the line. -/
theorem accepts_of_append (h : app.Wf) {rest : Str} {app' : App V} {history' : History}
    (hk : ∀ c, key.code ≠ .char c) (hne : rest ≠ [])
    (hr : app.onKey key history env = some (app', history', .send (utf8 rest)))
    (happ : app'.shadowInput = app.shadowInput ++ rest) : app.accepts key = true := by
  have hlen : app.shadowInput.length < app'.shadowInput.length := by
    have := List.length_pos_iff.2 hne
    rw [happ, List.length_append]
    omega
  generalize hres : (app', history', Action.send (utf8 rest)) = res at hr
  cases keyStep_of_onKey h hr with
  | captured _ ha => exact absurd (congrArg (·.2.2) hres).symm (ha _)
  | accepted _ ha => exact ha
  | silent => exact nomatch congrArg (·.2.2) hres
  | sent =>
    -- no other key makes the line longer
    have happ' : app' = app.shadowStep key history env := congrArg (·.1) hres
    have := length_text_le hk app.zip
    rw [happ', shadowInput_shadowStep] at hlen
    rw [zip_text] at this
    omega

/-- At a state of a run, the promise holds exactly when the gate does. -/
theorem suggestionSeen_iff_cursor {s : App V × History} (hok : s.1.Ok) (hsound : s.1.Sound s.2) (i : Input) :
    SuggestionSeen s i ↔ AcceptsAtCursor s i := by
  cases i with
  | event ev => exact Iff.rfl
  | key key env =>
    constructor
    · rintro ⟨hright, -⟩ ha
      rw [← canShowSuggestion_iff (isSome_of_accepts ha)]
      by_contra hgate
      obtain ⟨hc, hm⟩ := code_of_accepts ha
      obtain ⟨app', history', hr, hsame⟩ := hright hc hm (by simpa using hgate)
      obtain ⟨r, hr', hstep⟩ := onKey_step hok.wf key s.2 env
      rw [hr] at hr'
      generalize hres : (app', history', _) = res at hr'
      cases hr'
      cases hstep with
      | @accepted rest _ _ hs =>
        -- accepting makes the line longer
        obtain ⟨-, hne, -⟩ := hsound rest hs
        have happ' : app' = s.1.acceptStep rest s.2 env := congrArg (·.1) hres
        rw [happ'] at hsame
        simp [acceptStep, refreshed, edit, hne] at hsame
      | captured hcap => rw [captured_of_accepts ha] at hcap; cases hcap
      | silent _ hn => rw [ha] at hn; cases hn
      | sent _ hn => rw [ha] at hn; cases hn
    · intro hcursor
      have hgate : s.1.accepts key = true → s.1.canShowSuggestion = true := fun ha =>
        (canShowSuggestion_iff (isSome_of_accepts ha)).2 (hcursor ha)
      refine ⟨fun hc hm hclosed => ?_, fun rest app' history' hk hs hr happ => ?_⟩
      · have ha : s.1.accepts key = false := by
          by_contra ha
          rw [hgate (by simpa using ha)] at hclosed
          cases hclosed
        obtain ⟨app', hr, hsame⟩ := onKey_right hok.wf hc hm ha s.2 env
        exact ⟨app', s.2, hr, hsame⟩
      · exact hgate (accepts_of_append hok.wf hk (hsound rest hs).2.1 hr happ)

/-- **A suggestion is inserted only where the user sees it, exactly in the runs where the cursor of the terminal stands
after the line wherever a plain Right finds a cached suggestion and the shadow cursor at the end of the line.** -/
theorem suggestion_seen_iff (host user : Str) (cols rows : Nat) (history₀ : History) (l : List Input) :
    Lts.Each App.step SuggestionSeen ((App.new host user cols rows : App V), history₀) l ↔
      Lts.Each App.step AcceptsAtCursor ((App.new host user cols rows : App V), history₀) l :=
  Lts.each_congr (Q := fun _ => True) (I := fun s => s.1.Ok ∧ s.1.Sound s.2)
    (fun hI _ hs => ⟨hI.1.step hs, hI.2.step hI.1 hs⟩) (fun hI _ => suggestionSeen_iff_cursor hI.1 hI.2 _)
    ⟨ok_new host user cols rows, sound_of_none rfl⟩ fun _ _ => trivial

/-- A prompt, a switch to the alternate screen, a letter and Right. -/
def fullScreenRun : List Input :=
  [.event (.output [0x1b, 0x5d, 0x31, 0x33, 0x33, 0x3b, 0x42, 0x07]),
   .event (.output [0x1b, 0x5b, 0x3f, 0x31, 0x30, 0x34, 0x39, 0x68]), pressed (.char 'g'), pressed .right]

/-- In a full-screen program, Right sends a suggestion that is not on the screen. -/
theorem suggestion_not_seen : ¬ Lts.Each App.step SuggestionSeen
    ((App.new ['h'] ['u'] 80 24 : App MiniVt), gitHistory) fullScreenRun := by
  intro h
  obtain ⟨s, hs⟩ := Option.isSome_iff_exists.1
    (run_isSome (V := MiniVt) (l := fullScreenRun.take 3) (s := (App.new ['h'] ['u'] 80 24, gitHistory))
      (ok_new _ _ _ _))
  have hsplit : fullScreenRun = fullScreenRun.take 3 ++ pressed .right :: [] := rfl
  rw [hsplit] at h
  have hat : SuggestionSeen s (pressed .right) := h.at hs
  -- the gate is closed before Right, and what is sent is the rest of the command
  have hrun : (Lts.run App.step ((App.new ['h'] ['u'] 80 24 : App MiniVt), gitHistory) (fullScreenRun.take 3)).map
      (fun s => (s.1.canShowSuggestion, (s.1.onKey { code := .right } s.2 (.stable 0)).map (·.2.2),
        s.1.terminal.mode.appCursor)) = some (false, some (.send [0x69, 0x74]), false) := by decide +kernel
  rw [hs] at hrun
  simp only [Option.map_some, Option.some.injEq, Prod.mk.injEq] at hrun
  obtain ⟨hclosed, hsend, hmode⟩ := hrun
  obtain ⟨app', history', hr, -⟩ := hat.1 rfl rfl hclosed
  rw [hr, hmode] at hsend
  simp [arrow] at hsend

end TinySsh.App
