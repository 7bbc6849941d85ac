import TinySsh.App.Record

/-!
# The source of a record

Enter tags what it records with the way the line came about: `SuggestHistory` if its text was last changed by accepting
a suggestion. What a run did to the line is followed beside it (`Origin`), and the flag of the application is compared
with it (`tagged_step`). They differ after a Ctrl-K that finds nothing to erase, which resets the flag, and nowhere else
(`source_exact_iff`).
-/

namespace TinySsh.App

open Text

variable {V : Type} {app : App V} {history : History} {env : Env} {key : KeyEvent}

/-- How the text of the line came about: whether its last change was an accepted suggestion, and whether a Ctrl-K has
left it as it was since. -/
structure Origin where
  accepted : Bool := false
  idleKill : Bool := false
deriving DecidableEq

/-- The key is Ctrl-K. -/
def killsAfter (key : KeyEvent) : Bool :=
  match key.code with
  | .char c => key.modifiers.control && ctrlOf c = .killAfter
  | _ => false

/-! ## The flag after a key -/

/-- A key that leaves a line leaves the flag of it, but for Ctrl-K; a key that changes the line resets the flag. -/
theorem keyTag_eq (hne : ((keyEdit key).apply app.zip).text ≠ []) : app.keyTag key =
    if ((keyEdit key).apply app.zip).text = app.shadowInput then app.lastActionWasSuggestion && !killsAfter key
    else false := by
  have hsame : ∀ z : Zipper Char, z.after = app.zip.after → (z.text = app.shadowInput ↔ z = app.zip) := fun z hz => by
    rw [← zip_text, Zipper.eq_self_of_after hz]
  have hkill := hsame (app.zip.killWord isWhitespace) rfl
  have hdelete := (hsame app.zip.deleteBefore rfl).trans Zipper.deleteBefore_eq_self
  have hinsert : ∀ c, (app.zip.insert c).text ≠ app.shadowInput := fun c h =>
    Zipper.insert_ne_self c ((hsame (app.zip.insert c) rfl).1 h)
  unfold keyEdit at hne ⊢
  unfold keyTag killsAfter
  cases hk : key.code with
  | char c =>
    cases hctrl : key.modifiers.control with
    | false => simp [Edit.apply, hinsert]
    | true =>
      simp only [hk, hctrl] at hne
      cases hc : ctrlOf c with
      | killWord => simp [hc, Ctrl.edit, Edit.apply, hkill, Bool.and_comm]
      | killLine | abort => simp [hc, Ctrl.edit, Edit.apply] at hne
      | _ => simp [hc, Ctrl.edit, Edit.apply]
  | backspace => simp [Edit.apply, hdelete, Bool.and_comm]
  -- the keys that empty the line
  | enter | up | down | pageUp | pageDown => simp [hk, Edit.apply] at hne
  | _ => simp [Edit.apply]

/-! ## What Enter appends -/

theorem source_enterEntry (app : App V) :
    app.enterEntry.source = if app.lastActionWasSuggestion then .suggestHistory else .user := rfl

/-- What Enter appends has the source of the flag. -/
theorem source_recordEnter {r : Row} (h : (app.recordEnter history env).rows = history.rows ++ [r]) :
    app.shadowInput ≠ [] ∧ env.writeOk = true ∧ env.now.isSome ∧
      r.source = (if app.lastActionWasSuggestion then HistorySource.suggestHistory else .user).asStr := by
  unfold recordEnter at h
  split at h
  · rename_i hne
    split at h
    · rename_i p hp
      obtain ⟨r', hrows, -, -, -, -, -, hsource⟩ := History.record_ok hp
      obtain rfl : r' = r := by simpa [hrows] using h
      obtain ⟨ts, hts, hwrite⟩ := except_bind_ok.1 hp
      refine ⟨hne, ?_, ?_, by rw [hsource, source_enterEntry]⟩
      · split at hwrite
        · assumption
        · cases hwrite
      · cases hnow : env.now with
        | some secs => rfl
        | none => simp [History.stamp, enterEntry, History.nowUnixSecs, hnow] at hts
    · simp at h
  · simp at h

/-- And it appends a row when nothing fails. -/
theorem exists_recordEnter (hne : app.shadowInput ≠ []) (hw : env.writeOk = true) (hn : env.now.isSome) :
    ∃ r, (app.recordEnter history env).rows = history.rows ++ [r] := by
  obtain ⟨id, h', hok⟩ := @History.record_isOk history env app.enterEntry hw hn
  obtain ⟨r, hrows, -⟩ := History.record_ok hok
  exact ⟨r, by rw [recordEnter, if_pos hne, hok, hrows]⟩

/-! ## The flag along a run -/

variable [Vt V] {s s' : App V × History} {g : Origin} {i : Input}

/-- The input is a Ctrl-K. -/
def Input.killsAfter : Input → Bool
  | .key key _ => App.killsAfter key
  | .event _ => false

/-- The input accepts the suggestion. -/
def Input.accepts (app : App V) : Input → Bool
  | .key key _ => app.accepts key
  | .event _ => false

/-- How the line came about after a step: a change of its text starts over. -/
def originAfter (s : App V × History) (g : Origin) (i : Input) : Origin :=
  match App.step s i with
  | none => g
  | some s' =>
    if s'.1.shadowInput = s.1.shadowInput then { g with idleKill := g.idleKill || i.killsAfter }
    else { accepted := i.accepts s.1 }

/-- The application with the history of its line beside it. -/
abbrev originStep : (App V × History) × Origin → Input → Option ((App V × History) × Origin) :=
  Lts.withGhost App.step originAfter

/-- The flag of a line tells that it was accepted and that no Ctrl-K came since. -/
structure Tagged (app : App V) (g : Origin) : Prop where
  flag : app.shadowInput ≠ [] → app.lastActionWasSuggestion = (g.accepted && !g.idleKill)
  line : g.accepted = true → app.shadowInput ≠ []

/-- A step that leaves the line and, but for Ctrl-K, its flag. -/
theorem Tagged.same (h : Tagged s.1 g) (hs : App.step s i = some s') (htext : s'.1.shadowInput = s.1.shadowInput)
    (hflag : s'.1.shadowInput ≠ [] → s'.1.lastActionWasSuggestion = (s.1.lastActionWasSuggestion && !i.killsAfter)) :
    Tagged s'.1 (originAfter s g i) := by
  have horigin : originAfter s g i = { g with idleKill := g.idleKill || i.killsAfter } := by
    simp only [originAfter, hs, htext, if_true]
  rw [horigin]
  refine ⟨fun hne => ?_, fun ha => htext ▸ h.line ha⟩
  rw [hflag hne, h.flag (htext ▸ hne), Bool.not_or, Bool.and_assoc]

/-- A step that changes the line and sets its flag. -/
theorem Tagged.changed (hs : App.step s i = some s') (htext : s'.1.shadowInput ≠ s.1.shadowInput)
    (hflag : s'.1.shadowInput ≠ [] → s'.1.lastActionWasSuggestion = i.accepts s.1)
    (hline : i.accepts s.1 = true → s'.1.shadowInput ≠ []) : Tagged s'.1 (originAfter s g i) := by
  have horigin : originAfter s g i = { accepted := i.accepts s.1 } := by
    simp only [originAfter, hs, htext, if_false]
  rw [horigin]
  exact ⟨fun hne => by simpa using hflag hne, hline⟩

/-- Ctrl-K is neither captured nor without an encoding. -/
theorem killsAfter_sent (h : killsAfter key = true) (mode : TermMode) :
    captured key = false ∧ encode key mode ≠ [] := by
  unfold killsAfter at h
  cases hk : key.code with
  | char c =>
    rw [hk] at h
    simp only [Bool.and_eq_true, decide_eq_true_eq] at h
    refine ⟨?_, by simp [encode, hk, encodeChar_ne_nil]⟩
    have hkey : ∀ d, ctrlOf d ≠ .killAfter → c ≠ d := fun d hd hcd => hd (hcd ▸ h.2)
    simp [captured, hk, hkey 'q' (by decide), hkey 'm' (by decide), hkey 'M' (by decide), hkey 'c' (by decide),
      hkey 'C' (by decide)]
  | _ => simp [hk] at h

theorem tagged_new (host user : Str) (cols rows : Nat) : Tagged (App.new host user cols rows : App V) {} :=
  ⟨fun h => absurd rfl h, by simp⟩

/-- **What a step keeps: the flag tells how the line came about**, except for Ctrl-K. -/
theorem tagged_step (hok : s.1.Ok) (hsound : s.1.Sound s.2) (h : Tagged s.1 g) (hs : App.step s i = some s') :
    Tagged s'.1 (originAfter s g i) := by
  cases i with
  | event ev =>
    have hcases : s'.1.lastActionWasSuggestion = s.1.lastActionWasSuggestion ∧
        (s'.1.shadowInput = s.1.shadowInput ∨ s'.1.shadowInput = []) := by
      cases hs
      cases ev with
      | output bytes | stderr bytes =>
        simp only [onSessionEvent, onOutput_eq]
        refine ⟨trivial, ?_⟩
        split
        · exact .inr rfl
        · exact .inl rfl
      | _ => exact ⟨rfl, .inl rfl⟩
    by_cases htext : s'.1.shadowInput = s.1.shadowInput
    · exact h.same hs htext fun _ => by simp [hcases.1, Input.killsAfter]
    · have hnil := hcases.2.resolve_left htext
      exact .changed hs htext (fun hne => absurd hnil hne) (fun ha => by simp [Input.accepts] at ha)
  | key key env =>
    obtain ⟨r, hr, rfl⟩ := Option.map_eq_some_iff.1 hs
    have hstep := keyStep_of_onKey hok.wf hr
    have hidle : captured key = true ∨ encode key s.1.terminal.mode = [] → killsAfter key = false := fun hno => by
      by_contra hkill
      obtain ⟨hc, he⟩ := killsAfter_sent (by simpa using hkill) s.1.terminal.mode
      rcases hno with hcap | hnil
      · rw [hc] at hcap
        cases hcap
      · exact he hnil
    cases hstep with
    | captured hc => exact h.same hs rfl fun _ => by simp [Input.killsAfter, hidle (.inl hc)]
    | silent _ _ he => exact h.same hs rfl fun _ => by simp [Input.killsAfter, hidle (.inr he)]
    | @accepted rest _ ha hrest =>
      obtain ⟨-, hne, -⟩ := hsound rest hrest
      have htext : (s.1.acceptStep rest s.2 env).shadowInput = s.1.shadowInput ++ rest := by
        simp [acceptStep, refreshed, edit]
      refine .changed hs ?_ (fun _ => ?_) fun _ => ?_
      · simp [htext, hne]
      · exact ha.symm
      · simp [htext, hne]
    | sent _ ha =>
      have htext := shadowInput_shadowStep s.1 key s.2 env
      have hflag : (s.1.shadowStep key s.2 env).lastActionWasSuggestion = s.1.keyTag key := by
        unfold shadowStep
        cases keyCached key <;> rfl
      by_cases hsame : ((keyEdit key).apply s.1.zip).text = s.1.shadowInput
      · refine h.same hs (htext.trans hsame) fun hne => ?_
        rw [hflag, keyTag_eq (htext ▸ hne), if_pos hsame]
        rfl
      · refine .changed hs (fun heq => hsame (htext ▸ heq)) (fun hne => ?_) fun hacc => ?_
        · rw [hflag, keyTag_eq (htext ▸ hne), if_neg hsame]
          exact ha.symm
        · rw [Input.accepts, ha] at hacc
          cases hacc

/-! ## What Enter records -/

/-- **A record made by Enter has the source of its line.** -/
def SourceExact (s : (App V × History) × Origin) : Input → Prop
  | .key key env => key.code = .enter → ∀ app' history' action r,
    s.1.1.onKey key s.1.2 env = some (app', history', action) → history'.rows = s.1.2.rows ++ [r] →
      r.source = (if s.2.accepted then HistorySource.suggestHistory else .user).asStr
  | .event _ => True

/-- Where Enter makes a record, no Ctrl-K has come since the line was accepted. -/
def NoIdleKill (s : (App V × History) × Origin) : Input → Prop
  | .key key env => key.code = .enter → env.writeOk = true → env.now.isSome → s.2.accepted = true →
    s.2.idleKill = false
  | .event _ => True

/-- **The source is right exactly where no Ctrl-K has come since the line was accepted.** -/
theorem sourceExact_iff (hok : s.1.Ok) (h : Tagged s.1 g) (i : Input) : SourceExact (s, g) i ↔ NoIdleKill (s, g) i := by
  cases i with
  | event ev => exact Iff.rfl
  | key key env =>
    constructor
    · intro hexact hk hw hn hacc
      have hne := h.line hacc
      obtain ⟨r, hrows⟩ := @exists_recordEnter V s.1 s.2 env hne hw hn
      obtain ⟨-, -, -, hsource⟩ := source_recordEnter hrows
      rw [hexact hk _ _ _ r (onKey_enter hok.wf hk s.2 env) hrows] at hsource
      have hflag := h.flag hne
      simp only [show g.accepted = true from hacc, if_true, Bool.true_and] at hsource hflag
      cases hidle : g.idleKill with
      | false => rfl
      | true =>
        rw [hflag, hidle] at hsource
        exact absurd hsource (by decide)
    · intro hno hk app' history' action r hr hrows
      rw [onKey_enter hok.wf hk s.2 env] at hr
      cases hr
      obtain ⟨hne, hw, hn, hsource⟩ := source_recordEnter hrows
      have hflag : s.1.lastActionWasSuggestion = g.accepted := by
        rw [h.flag hne]
        cases hacc : g.accepted with
        | false => rfl
        | true =>
          have hidle : g.idleKill = false := hno hk hw hn hacc
          rw [hidle]
          rfl
      rw [hsource, hflag]

/-- **The records of a run have the sources of their lines, exactly in the runs where no Ctrl-K that finds nothing to
erase comes between accepting a line and the Enter that records it.** -/
theorem source_exact_iff (host user : Str) (cols rows : Nat) (history₀ : History) (l : List Input) :
    Lts.Each originStep SourceExact (((App.new host user cols rows : App V), history₀), {}) l ↔
      Lts.Each originStep NoIdleKill (((App.new host user cols rows : App V), history₀), {}) l := by
  refine Lts.each_congr (Q := fun _ => True) (I := fun s => s.1.1.Ok ∧ s.1.1.Sound s.1.2 ∧ Tagged s.1.1 s.2) ?_
    (fun hI _ => sourceExact_iff hI.1 hI.2.2 _) ⟨ok_new host user cols rows, sound_of_none rfl,
      tagged_new host user cols rows⟩ fun _ _ => trivial
  rintro ⟨s, g⟩ i t ⟨hok, hsound, htagged⟩ - hs
  obtain ⟨s', hs', rfl⟩ := Option.map_eq_some_iff.1 hs
  exact ⟨hok.step hs', hsound.step hok hs', tagged_step hok hsound htagged hs'⟩

/-- `git`, completed from `g`, a Ctrl-K at its end, and Enter. -/
def idleKillRun : List Input :=
  [pressed (.char 'g'), pressed .right, .key { code := .char 'k', modifiers := { control := true } } (.stable 0)]

/-- The Ctrl-K has the command recorded as typed by the user. -/
theorem source_lost : ¬ ∀ (history₀ : History) (l : List Input),
    Lts.Each originStep SourceExact (((App.new ['h'] ['u'] 80 24 : App MiniVt), history₀), {}) l := by
  intro h
  obtain ⟨⟨⟨app, history⟩, g⟩, hr, hline⟩ : ∃ t, Lts.run originStep
      (((App.new ['h'] ['u'] 80 24 : App MiniVt), gitHistory), {}) idleKillRun = some t ∧
      (t.2.accepted, t.1.1.lastActionWasSuggestion, t.1.1.shadowInput) = (true, false, ['g', 'i', 't']) :=
    Option.map_eq_some_iff.1 (by decide +kernel)
  simp only [Prod.mk.injEq] at hline
  obtain ⟨hacc, hflag, hline⟩ := hline
  have hat : SourceExact ((app, history), g) (pressed .enter) :=
    (h gitHistory (idleKillRun ++ pressed .enter :: [])).at hr
  have hwf : app.Wf := (run_ok (ok_new ['h'] ['u'] 80 24) (Lts.run_of_withGhost hr)).wf
  obtain ⟨r, hrows⟩ := @exists_recordEnter MiniVt app history (.stable 0) (by simp [hline]) rfl rfl
  obtain ⟨-, -, -, hsource⟩ := source_recordEnter hrows
  rw [hat rfl _ _ _ r (onKey_enter hwf rfl history (.stable 0)) hrows, hacc, hflag] at hsource
  exact absurd hsource (by decide)

end TinySsh.App
