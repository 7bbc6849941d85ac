import TinySsh.App.Reference
import TinySsh.App.Suggestion
import TinySsh.Lib.Readline

/-!
# The shadow buffer against the remote editor

The remote line is in a readline editor that hears the bytes `on_key` sends (`typing`). While a line is typed, each
key runs its command there (`Typing.onKey`). The program edits the shadow line as the editor edits its line, but for
three keys: Delete leaves the shadow line alone, Ctrl-U erases all of it, and Ctrl-W has its own white space. `Agrees`
says when they make no difference, and Enter records the remote line exactly along the runs whose keys all agree
(`recorded_is_sent_iff`).
-/

namespace TinySsh.App

open Text Readline

/-! ## The keys of a line -/

/-- The command that a key runs in the remote editor, for the keys that edit a line and the one that ends it. -/
def keyCommand (key : KeyEvent) : Option Command :=
  match key.code with
  | .char c =>
    if key.modifiers.alt then none
    else if key.modifiers.control then
      match c.toLower with
      | 'a' => some .beginningOfLine
      | 'e' => some .endOfLine
      | 'k' => some .killLine
      | 'u' => some .unixLineDiscard
      | 'w' => some .unixWordRubout
      | _ => none
    else if isControl c then none
    else some (.selfInsert c)
  | .left => some .backwardChar
  | .right => some .forwardChar
  | .home => some .beginningOfLine
  | .end => some .endOfLine
  | .backspace => some .backwardDeleteChar
  | .delete => some .deleteChar
  | .enter => some .acceptLine
  | _ => none

/-- **What a key of a line sends stands for its command.** -/
theorem word_encode {key : KeyEvent} {cmd : Command} (hk : keyCommand key = some cmd) (mode : TermMode) :
    Word (encode key mode) cmd := by
  unfold keyCommand at hk
  unfold encode
  cases hcode : key.code with
  | char c =>
    simp only [hcode] at hk ⊢
    by_cases halt : key.modifiers.alt = true
    · simp [halt] at hk
    rw [if_neg halt] at hk
    have halt : key.modifiers.alt = false := Bool.eq_false_iff.2 halt
    by_cases hctrl : key.modifiers.control = true
    · -- a letter of the keymap, sent as its control byte
      rw [if_pos hctrl] at hk
      have hword : ∀ {b : UInt8}, ctrlByte c = some b → ([b], cmd) ∈ keymap →
          Word (encodeChar c key.modifiers) cmd := fun hb hm => by
        rw [encodeChar_ctrl hctrl halt hb]
        exact word_of_keymap hm
      split at hk
      case h_6 => cases hk
      all_goals
        rename_i hlower
        cases hk
        exact hword (by rw [ctrlByte, hlower]; rfl) (by decide)
    · rw [if_neg hctrl] at hk
      split at hk
      · cases hk
      rename_i hc
      cases hk
      rw [encodeChar_plain (Bool.eq_false_iff.2 hctrl) halt]
      exact word_utf8 (Bool.eq_false_iff.2 hc)
  | left | right | home | «end» =>
    simp only [hcode] at hk ⊢
    cases hk
    cases mode.appCursor <;> exact word_of_keymap (by decide)
  | backspace | delete | enter =>
    simp only [hcode] at hk ⊢
    cases hk
    exact word_of_keymap (by decide)
  | _ => simp [hcode] at hk

/-- The program captures no key of a line. -/
theorem captured_keyCommand {key : KeyEvent} {cmd : Command} (hk : keyCommand key = some cmd) :
    captured key = false := by
  by_contra hc
  simp only [captured, Bool.not_eq_false, Bool.or_eq_true, Bool.and_eq_true, decide_eq_true_eq] at hc
  rcases hc with (⟨hctrl, hcode⟩ | ⟨⟨hctrl, -⟩, hcode | hcode⟩) | ⟨⟨hctrl, -⟩, hcode | hcode⟩ <;>
    simp [keyCommand, hcode, hctrl] at hk

/-! ## Where the two editors agree -/

/-- A command whose key does the same to the shadow line. -/
def Agrees (ws : Char → Bool) (z : Zipper Char) : Command → Prop
  | .deleteChar | .unixLineDiscard => z.after = []
  | .unixWordRubout => Zipper.dropWord isWhitespace z.before = Zipper.dropWord ws z.before
  | _ => True

variable {ws : Char → Bool} {key : KeyEvent} {cmd : Command} {z : Zipper Char}

/-- The operation of a key of a line, by its command. -/
theorem keyEdit_apply (ws : Char → Bool) (hk : keyCommand key = some cmd) (z : Zipper Char) : (keyEdit key).apply z =
    match cmd with
    | .deleteChar => z
    | .unixLineDiscard => z.clear
    | .unixWordRubout => z.killWord isWhitespace
    | cmd => cmd.edit ws z := by
  unfold keyCommand at hk
  unfold keyEdit
  cases hcode : key.code with
  | char c =>
    simp only [hcode] at hk ⊢
    by_cases halt : key.modifiers.alt = true
    · simp [halt] at hk
    rw [if_neg halt] at hk
    split at hk
    · rename_i hctrl
      rw [if_pos hctrl]
      unfold ctrlOf
      split at hk
      case h_6 => cases hk
      all_goals
        rename_i hlower
        cases hk
        rw [hlower]
        rfl
    · rename_i hctrl
      rw [if_neg hctrl]
      split at hk <;> cases hk
      rfl
  | left | right | home | «end» | backspace | delete | enter =>
    simp only [hcode] at hk ⊢
    cases hk
    rfl
  | _ => simp [hcode] at hk

/-- A list that is as good as its tail is empty. -/
theorem eq_tail_iff {l : Str} : l = l.tail ↔ l = [] := by
  cases l with
  | nil => simp
  | cons a l => simp

/-- **The lines stay the same exactly where the command agrees.** -/
theorem text_edit_iff (hk : keyCommand key = some cmd) :
    ((keyEdit key).apply z).text = (cmd.edit ws z).text ↔ Agrees ws z cmd := by
  rw [keyEdit_apply ws hk]
  cases cmd with
  | deleteChar => simp [Command.edit, Zipper.deleteUnder, Zipper.text, Agrees, eq_tail_iff]
  | unixLineDiscard => simp [Command.edit, Zipper.killBefore, Zipper.clear, Zipper.text, Agrees, eq_comm]
  | unixWordRubout => simp [Command.edit, Zipper.killWord, Zipper.text, Agrees]
  | _ => simp [Agrees]

/-- Where it does, the cursors stay the same too. -/
theorem edit_of_agrees (hk : keyCommand key = some cmd) (h : Agrees ws z cmd) :
    (keyEdit key).apply z = cmd.edit ws z := by
  rw [keyEdit_apply ws hk]
  cases cmd with
  | deleteChar =>
    have ha : z.after = [] := h
    ext1 <;> simp [Command.edit, Zipper.deleteUnder, ha]
  | unixLineDiscard =>
    have ha : z.after = [] := h
    ext1 <;> simp [Command.edit, Zipper.killBefore, Zipper.clear, ha]
  | unixWordRubout =>
    have hb : Zipper.dropWord isWhitespace z.before = Zipper.dropWord ws z.before := h
    ext1 <;> simp [Command.edit, Zipper.killWord, hb]
  | _ => rfl

/-! ## The record -/

/-- The commands on record. -/
def recorded (history : History) : List Str := history.rows.map (·.command)

/-- What a line adds to the record: an empty one nothing. -/
def commandOf (line : Str) : List Str := if line = [] then [] else [line]

theorem commandOf_inj {l m : Str} : commandOf l = commandOf m ↔ l = m := by
  refine ⟨fun h => ?_, fun h => by rw [h]⟩
  unfold commandOf at h
  split at h <;> split at h <;> simp_all

variable {V : Type} {env : Env}

/-- Enter puts the shadow line on record. -/
theorem recorded_recordEnter (app : App V) (history : History) (hw : env.writeOk = true) (hn : env.now.isSome) :
    recorded (app.recordEnter history env) = recorded history ++ commandOf app.shadowInput := by
  unfold recordEnter commandOf
  by_cases hnil : app.shadowInput = []
  · simp [hnil]
  · rw [if_pos hnil, if_neg hnil]
    obtain ⟨id, history', hok⟩ := @History.record_isOk history env app.enterEntry hw hn
    obtain ⟨r, hrows, -, -, -, -, hcmd, -⟩ := History.record_ok hok
    rw [hok]
    simp only [recorded, hrows, List.map_append, List.map_cons, List.map_nil, hcmd]
    rfl

/-- Without a record there is nothing to suggest. -/
theorem suggestion_shadowStep {app : App V} {history : History} (hs : app.suggestion = none) (hr : history.rows = []) :
    (app.shadowStep key history env).suggestion = none := by
  unfold shadowStep
  cases keyCached key with
  | keep => exact hs
  | drop => rfl
  | refresh => exact completion_nil hr

/-! ## A line being typed -/

/-- A key that edits the line. -/
def LineKey (i : Input) : Prop := ∃ key env cmd, i = .key key env ∧ keyCommand key = some cmd ∧ cmd ≠ .acceptLine

/-- **The remote editor does the same to its line as the program to the shadow line.** -/
def AgreesAt (ws : Char → Bool) (s : (App V × History) × Readline) : Input → Prop
  | .key key _ => ∀ cmd ∈ keyCommand key, Agrees ws s.1.1.zip cmd
  | .event _ => True

theorem agreesAt_iff {s : (App V × History) × Readline} (hk : keyCommand key = some cmd) :
    AgreesAt ws s (.key key env) ↔ Agrees ws s.1.1.zip cmd := by
  simp [AgreesAt, hk]

variable [Vt V]

/-- The bytes that the application sends on an input. -/
def sent (s : App V × History) : Input → List UInt8
  | .key key env =>
    match s.1.onKey key s.2 env with
    | some (_, _, .send bytes) => bytes
    | _ => []
  | .event _ => []

/-- The application and the remote editor, which hears what is sent. -/
def typing (ws : Char → Bool) : (App V × History) × Readline → Input → Option ((App V × History) × Readline) :=
  Lts.withGhost App.step fun s r i => r.receive ws (sent s i)

/-- Enter, pressed now, ends the remote line, and the command that is recorded is that line. -/
def EnterRecords (ws : Char → Bool) (env : Env) (s : (App V × History) × Readline) : Prop :=
  ∃ s', typing ws s (.key { code := .enter } env) = some s' ∧ s'.2.accepted = s.2.accepted ++ [s.2.line.text] ∧
    recorded s'.1.2 = recorded s.1.2 ++ commandOf s.2.line.text

/-- Nothing is suggested, nothing is on record, and no key has been sent in part. -/
structure Typing (s : (App V × History) × Readline) : Prop where
  wf : s.1.1.Wf
  suggestion : s.1.1.suggestion = none
  rows : s.1.2.rows = []
  pending : s.2.pending = []

variable {s s' : (App V × History) × Readline} {i : Input} {l : List Input}

/-- **A key of a line edits the shadow line and runs its command.** -/
theorem Typing.onKey (h : Typing s) (ws : Char → Bool) (hk : keyCommand key = some cmd) (env : Env) :
    typing ws s (.key key env) =
    some ((s.1.1.shadowStep key s.1.2 env, s.1.1.historyStep key s.1.2 env), s.2.exec ws cmd) := by
  have hword := word_encode hk s.1.1.terminal.mode
  have ha : s.1.1.accepts key = false := by simp [accepts, h.suggestion]
  have hr := onKey_sent h.wf (captured_keyCommand hk) ha hword.ne s.1.2 env
  have hheard : s.2.receive ws (sent s.1 (.key key env)) = s.2.exec ws cmd := by
    simp only [App.sent, hr]
    exact receive_word hword h.pending
  simp only [typing, Lts.withGhost, App.step, hr, hheard, Option.map_some]

/-- While a line is typed, Enter records the remote line when that is the shadow line. -/
theorem Typing.enterRecords_iff (h : Typing s) (hw : env.writeOk = true) (hn : env.now.isSome) :
    EnterRecords ws env s ↔ s.1.1.zip.text = s.2.line.text := by
  have hcmd : keyCommand { code := .enter } = some .acceptLine := rfl
  have hkey := h.onKey ws hcmd env
  have hrec : recorded (s.1.1.historyStep { code := .enter } s.1.2 env) =
      recorded s.1.2 ++ commandOf s.1.1.shadowInput := recorded_recordEnter s.1.1 s.1.2 hw hn
  rw [zip_text, ← commandOf_inj]
  constructor
  · rintro ⟨s', hs', -, hr⟩
    rw [hkey] at hs'
    cases hs'
    exact List.append_cancel_left (hrec.symm.trans hr)
  · intro heq
    exact ⟨_, hkey, rfl, by rw [hrec, heq]⟩

/-- **A key that does not end the line edits both lines, and typing goes on.** -/
theorem Typing.step (h : Typing s) (ws : Char → Bool) (hk : keyCommand key = some cmd) (hne : cmd ≠ .acceptLine)
    (env : Env) :
    ∃ s', typing ws s (.key key env) = some s' ∧ Typing s' ∧ s'.1.1.zip = (keyEdit key).apply s.1.1.zip ∧
      s'.2.line = cmd.edit ws s.2.line := by
  have hcode : key.code ≠ .enter := fun hcode => by
    simp only [keyCommand, hcode, Option.some.injEq] at hk
    exact hne hk.symm
  have hhist : s.1.1.historyStep key s.1.2 env = s.1.2 := if_neg hcode
  refine ⟨_, h.onKey ws hk env, ⟨wf_shadowStep _ _ _, suggestion_shadowStep h.suggestion h.rows, ?_, h.pending⟩,
    zip_shadowStep _ _ _ _, rfl⟩
  rw [hhist]
  exact h.rows

/-- Typing never panics. -/
theorem Typing.run_isSome (h : Typing s) (hl : ∀ i ∈ l, LineKey i) : (Lts.run (typing ws) s l).isSome := by
  refine Lts.run_isSome (Q := LineKey) (fun {s i} h hi => ?_) h hl
  obtain ⟨key, env, cmd, rfl, hk, hne⟩ := hi
  obtain ⟨s', hs', hstep, -⟩ := h.step ws hk hne env
  exact ⟨s', hs', hstep⟩

/-- From equal lines, a key leads to lines that Enter tells apart exactly if it does not agree. -/
theorem Typing.enterRecords_step (h : Typing s) (heq : s.1.1.zip = s.2.line) (hi : LineKey i)
    (hs : typing ws s i = some s') (hw : env.writeOk = true) (hn : env.now.isSome) :
    Typing s' ∧ (EnterRecords ws env s' ↔ AgreesAt ws s i) ∧ (AgreesAt ws s i → s'.1.1.zip = s'.2.line) := by
  obtain ⟨key, env', cmd, rfl, hk, hne⟩ := hi
  obtain ⟨t, ht, hstep, hshadow, hremote⟩ := h.step ws hk hne env'
  rw [hs] at ht
  cases ht
  rw [heq] at hshadow
  rw [hstep.enterRecords_iff hw hn, agreesAt_iff hk, hshadow, hremote, heq]
  exact ⟨hstep, text_edit_iff hk, edit_of_agrees hk⟩

/-- From equal lines, Enter tells the lines apart nowhere along a run exactly if every key agrees. -/
theorem Typing.always_iff (h : Typing s) (heq : s.1.1.zip = s.2.line) (hl : ∀ i ∈ l, LineKey i)
    (hw : env.writeOk = true) (hn : env.now.isSome) :
    Lts.Always (typing ws) (EnterRecords ws env) s l ↔ Lts.Each (typing ws) (AgreesAt ws) s l := by
  refine Lts.always_iff_each_of (Q := LineKey) (I := fun s => Typing s ∧ s.1.1.zip = s.2.line)
    (fun h => ?_) (fun h hi hs => ?_) (fun h hi hc hs => ?_) ⟨h, heq⟩ hl (h.run_isSome hl)
  · exact (h.1.enterRecords_iff hw hn).2 (by rw [h.2])
  · exact (h.1.enterRecords_step h.2 hi hs hw hn).2.1
  · obtain ⟨htyping, -, hsame⟩ := h.1.enterRecords_step h.2 hi hs hw hn
    exact ⟨htyping, hsame hc⟩

/-- **Wherever Enter is pressed along a run of keys that edit a line, from an empty line and with nothing on record, the
line that the remote shell runs is recorded, or nothing when it is empty, exactly if every key agrees.** -/
theorem recorded_is_sent_iff (ws : Char → Bool) {host user : Str} {cols rows : Nat} {history₀ history : History}
    {app : App V} {l₀ : List Input} (hr : runNew host user cols rows history₀ l₀ = some (app, history))
    (hline : app.shadowInput = []) (hrows : history.rows = []) (hl : ∀ i ∈ l, LineKey i) (hw : env.writeOk = true)
    (hn : env.now.isSome) :
    (Lts.run (typing ws) ((app, history), {}) l).isSome ∧
      (Lts.Always (typing ws) (EnterRecords ws env) ((app, history), {}) l ↔
        Lts.Each (typing ws) (AgreesAt ws) ((app, history), {}) l) := by
  obtain ⟨hok, hsound⟩ := run_sound (ok_new host user cols rows) (sound_of_none rfl) hr
  have hs : app.suggestion = none := Option.eq_none_iff_forall_ne_some.2 fun rest hs => (hsound rest hs).1 hline
  have hzip : app.zip = ⟨[], []⟩ := by simp [zip, Zipper.ofCursor, hline]
  have hstart : Typing (((app, history), {}) : (App V × History) × Readline) := ⟨hok.wf, hs, hrows, rfl⟩
  exact ⟨hstart.run_isSome hl, hstart.always_iff hzip hl hw hn⟩

/-- `ls`, with Ctrl-U at its end. -/
theorem recorded_is_sent_ctrlU : Lts.Always (typing isWhitespace) (EnterRecords isWhitespace (.stable 0))
    (((App.new ['h'] ['u'] 80 24 : App MiniVt), {}), {})
    [pressed (.char 'l'), pressed (.char 's'),
      .key { code := .char 'u', modifiers := { control := true } } (.stable 0)] := by
  have hnew : runNew ['h'] ['u'] 80 24 {} [] = some ((App.new ['h'] ['u'] 80 24 : App MiniVt), {}) := rfl
  refine (recorded_is_sent_iff isWhitespace hnew rfl rfl ?_ rfl rfl).2.2 ?_
  · simp only [List.forall_mem_cons, LineKey]
    exact ⟨⟨_, _, .selfInsert 'l', rfl, by decide⟩, ⟨_, _, .selfInsert 's', rfl, by decide⟩,
      ⟨_, _, .unixLineDiscard, rfl, by decide⟩, by simp⟩
  · refine ⟨(agreesAt_iff (show keyCommand _ = some (.selfInsert 'l') by decide)).2 trivial, fun s₁ h₁ =>
      ⟨(agreesAt_iff (show keyCommand _ = some (.selfInsert 's') by decide)).2 trivial, fun s₂ h₂ =>
        ⟨(agreesAt_iff (show keyCommand _ = some .unixLineDiscard by decide)).2 ?_, fun _ _ => trivial⟩⟩⟩
    have hrun : (Lts.run (typing isWhitespace) (((App.new ['h'] ['u'] 80 24 : App MiniVt), {}), {})
        [pressed (.char 'l'), pressed (.char 's')]).map (·.1.1.zip.after) = some [] := by decide +kernel
    rw [Lts.run_cons, h₁, Option.bind_some, Lts.run_cons, h₂] at hrun
    simpa [Agrees] using hrun

/-- `ls`, Left and Delete: the remote runs `l`, and `ls` is recorded. -/
theorem recorded_not_sent : ¬ ∀ l, (∀ i ∈ l, LineKey i) → ∀ s,
    Lts.run (typing isWhitespace) (((App.new ['h'] ['u'] 80 24 : App MiniVt), {}), {}) l = some s →
      EnterRecords isWhitespace (.stable 0) s := by
  intro h
  have hkeys : ∀ i ∈ [pressed (.char 'l'), pressed (.char 's'), pressed .left, pressed .delete], LineKey i := by
    simp only [List.forall_mem_cons, LineKey]
    exact ⟨⟨_, _, .selfInsert 'l', rfl, by decide⟩, ⟨_, _, .selfInsert 's', rfl, by decide⟩,
      ⟨_, _, .backwardChar, rfl, by decide⟩, ⟨_, _, .deleteChar, rfl, by decide⟩, by simp⟩
  -- the remote line is `l` when Enter records `ls`
  have hrun : (Lts.run (typing isWhitespace) (((App.new ['h'] ['u'] 80 24 : App MiniVt), {}), {})
      [pressed (.char 'l'), pressed (.char 's'), pressed .left, pressed .delete]).map (fun s =>
        (s.2.line.text, recorded s.1.2, (typing isWhitespace s (pressed .enter)).map (recorded ·.1.2))) =
      some (['l'], [], some [['l', 's']]) := by decide +kernel
  obtain ⟨s, hs, hat⟩ := Option.map_eq_some_iff.1 hrun
  obtain ⟨hline, hold, hnew⟩ : s.2.line.text = ['l'] ∧ recorded s.1.2 = [] ∧
      (typing isWhitespace s (pressed .enter)).map (recorded ·.1.2) = some [['l', 's']] := by simpa using hat
  obtain ⟨s', hs', -, hrec⟩ := h _ hkeys s hs
  have hs' : typing isWhitespace s (pressed .enter) = some s' := hs'
  rw [hs', Option.map_some, hrec, hold, hline] at hnew
  revert hnew
  decide

end TinySsh.App
