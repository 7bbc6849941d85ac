import TinySsh.App.Events

/-!
# Output cut into chunks

What the application makes of output depends on how the channel cuts it, in one field: the prompt position. The markers
of a chunk are handled with the cursor at the end of the chunk, and the newline heuristic looks at one chunk.
`CutSafe` lists the cuts that make no difference (`cut_iff`).
-/

namespace TinySsh.App

open Text

variable {V : Type} {app : App V} {history : History}

/-! ## Two ways to handle the same bytes -/

/-- The fields of the application that do not mirror the emulator are the same. -/
structure SameLine (app app' : App V) : Prop where
  promptPos : app.promptPos = app'.promptPos
  cwd : app.cwd = app'.cwd
  shadowInput : app.shadowInput = app'.shadowInput
  shadowCursor : app.shadowCursor = app'.shadowCursor
  suggestion : app.suggestion = app'.suggestion
  lastInputWasEnter : app.lastInputWasEnter = app'.lastInputWasEnter

/-- The cuts that make no difference to the prompt position `old`. The heuristic applies to the first chunk if `h₁`, to
the second if `h₂`; the cursor is at `c₁` and `c₂` after them; `m₁` and `m₂` are the last prompt ends or command starts
that complete in them. -/
inductive Safe (old : Option (Nat × Nat)) (h₁ h₂ : Bool) (c₁ c₂ : Nat × Nat) (m₁ : Option Mark) : Option Mark → Prop
  /-- The second chunk ends with a prompt. -/
  | prompt : Safe old h₁ h₂ c₁ c₂ m₁ (some .prompt)
  /-- It ends with a command start, and the heuristic for the first chunk would not find a prompt after that. -/
  | command (h : h₁ = true → c₂.1 = 0) : Safe old h₁ h₂ c₁ c₂ m₁ (some .command)
  /-- The heuristic applies to the second chunk only and finds a prompt. -/
  | newline (ha : h₁ = false) (hb : h₂ = true) (hc : 0 < c₂.1) : Safe old h₁ h₂ c₁ c₂ m₁ none
  /-- The second chunk does not move the cursor. -/
  | still (h : c₁ = c₂) : Safe old h₁ h₂ c₁ c₂ m₁ none
  /-- The first chunk places no prompt, wherever the cursor is. -/
  | unplaced (hm : m₁ ≠ some .prompt) (h : h₁ = true → c₁.1 = 0 ∧ c₂.1 = 0) : Safe old h₁ h₂ c₁ c₂ m₁ none
  /-- The heuristic for the first chunk finds a prompt at one of the cursors only, and the prompt was there before. -/
  | already (hm : m₁ = none) (ha : h₁ = true)
      (h : 0 < c₁.1 ∧ c₂.1 = 0 ∧ old = some c₁ ∨ c₁.1 = 0 ∧ 0 < c₂.1 ∧ old = some c₂) : Safe old h₁ h₂ c₁ c₂ m₁ none

/-! ## The prompt position -/

/-- The prompt position after a chunk with the cursor at `here`. -/
def promptAfter (heuristic : Bool) (here : Nat × Nat) (old : Option (Nat × Nat)) (m : Option Mark) :
    Option (Nat × Nat) := if heuristic = true ∧ here.1 > 0 then some here else place here old m

@[simp] theorem promptAfter_prompt (h : Bool) (here : Nat × Nat) (old : Option (Nat × Nat)) :
    promptAfter h here old (some .prompt) = some here := by
  unfold promptAfter place
  split <;> rfl

/-- The prompt positions agree exactly at the safe cuts. -/
theorem promptAfter_eq_iff {old : Option (Nat × Nat)} {h₁ h₂ : Bool} {c₁ c₂ : Nat × Nat} {m₁ m₂ : Option Mark} :
    promptAfter (h₁ || h₂) c₂ old (m₂.or m₁) = promptAfter (!h₁ && h₂) c₂ (promptAfter h₁ c₁ old m₁) m₂ ↔
      Safe old h₁ h₂ c₁ c₂ m₁ m₂ := by
  constructor
  · intro h
    rcases m₂ with _ | _ | _
    · by_cases hc : c₁ = c₂
      · exact .still hc
      cases h₁ with
      | false =>
        by_cases hb : h₂ = true ∧ 0 < c₂.1
        · exact .newline rfl hb.1 hb.2
        · refine .unplaced (fun hm => hc ?_) (fun h => nomatch h)
          simp [promptAfter, place, hm, hb] at h
          exact h.symm
      | true =>
        by_cases h1 : 0 < c₁.1 <;> by_cases h2 : 0 < c₂.1
        · simp [promptAfter, place, h1, h2] at h
          exact absurd h.symm hc
        · rcases m₁ with _ | _ | _ <;> simp [promptAfter, place, h1, h2] at h
          · exact .already rfl rfl (.inl ⟨h1, by omega, h⟩)
          · exact absurd h.symm hc
        · rcases m₁ with _ | _ | _ <;> simp [promptAfter, place, h1, h2] at h
          · exact .already rfl rfl (.inr ⟨by omega, h2, h.symm⟩)
          · exact absurd h.symm hc
        · refine .unplaced (fun hm => hc ?_) (fun _ => ⟨by omega, by omega⟩)
          simp [promptAfter, place, hm, h1, h2] at h
          exact h.symm
    · exact .prompt
    · refine .command fun h1 => ?_
      by_contra hc
      simp [promptAfter, place, h1, Nat.pos_of_ne_zero hc] at h
  · rintro (_ | hc | ⟨h1, h2, hc⟩ | rfl | ⟨hm, h⟩ | ⟨rfl, h1, h⟩)
    · simp
    · cases h₁ with
      | false => simp [promptAfter, place]
      | true => simp [promptAfter, place, hc rfl]
    · simp [promptAfter, h1, h2, hc]
    · by_cases hpos : 0 < c₁.1 <;> cases h₁ <;> cases h₂ <;> simp [promptAfter, place, hpos]
    · rcases m₁ with _ | _ | _
      · cases h₁ with
        | false => simp [promptAfter, place]
        | true => simp [promptAfter, place, h rfl]
      · exact absurd rfl hm
      · cases h₁ with
        | false => simp [promptAfter, place]
        | true => simp [promptAfter, place, h rfl]
    · rcases h with ⟨hp, h0, rfl⟩ | ⟨h0, hp, rfl⟩ <;> simp [promptAfter, place, h1, h0, hp]

/-! ## Cutting a chunk -/

/-- The scanner finds the same markers. -/
theorem outEvents_append (a b : List UInt8) :
    app.outEvents (a ++ b) = app.outEvents a ++ (app.terminal.oscScanner.after a).events b := by
  simp [outEvents, OscScanner.scan_append.2]

theorem contains_append (a b : List UInt8) : (a ++ b).contains 0x0a = (a.contains 0x0a || b.contains 0x0a) := by
  simp

theorem heuristic_append (a b : List UInt8) : app.heuristic (a ++ b) = (app.heuristic a || app.heuristic b) := by
  simp only [heuristic, contains_append, Bool.and_or_distrib_left]

variable [Vt V]

/-- The emulator shows the same cursor. -/
theorem outCursor_append (hvt : Vt.Chunked V) (a b : List UInt8) :
    (app.onOutput a).outCursor b = app.outCursor (a ++ b) := by
  simp [outCursor, onOutput_eq, Terminal.cursor, Terminal.feed_eq, (hvt app.terminal.inner a b).1]

theorem outEvents_onOutput (a b : List UInt8) :
    (app.onOutput a).outEvents b = (app.terminal.oscScanner.after a).events b := by
  simp [outEvents, onOutput_eq, Terminal.feed_eq]

/-- The first newline after Enter ends the heuristic. -/
theorem heuristic_onOutput (a b : List UInt8) :
    (app.onOutput a).heuristic b = (!app.heuristic a && app.heuristic b) := by
  simp only [heuristic, onOutput_eq]
  cases app.lastInputWasEnter <;> simp

theorem promptPos_onOutput (bytes : List UInt8) : (app.onOutput bytes).promptPos =
    promptAfter (app.heuristic bytes) (app.outCursor bytes) app.promptPos (lastMark (app.outEvents bytes)) := by
  rw [onOutput_eq]
  rfl

/-- **The cuts of `a ++ b` after `a` that make no difference.** -/
def CutSafe (app : App V) (a b : List UInt8) : Prop :=
  Safe app.promptPos (app.heuristic a) (app.heuristic b) (app.outCursor a) (app.outCursor (a ++ b))
    (lastMark (app.outEvents a)) (lastMark ((app.terminal.oscScanner.after a).events b))

/-- The prompt position is the same exactly at the safe cuts. -/
theorem promptPos_append_iff (hvt : Vt.Chunked V) (a b : List UInt8) :
    (app.onOutput (a ++ b)).promptPos = ((app.onOutput a).onOutput b).promptPos ↔ app.CutSafe a b := by
  rw [promptPos_onOutput, promptPos_onOutput, promptPos_onOutput, outCursor_append hvt, outEvents_onOutput,
    outEvents_append, lastMark_append, heuristic_append, heuristic_onOutput]
  exact promptAfter_eq_iff

/-- **Handling output at once or cut in two leaves the same line exactly at the safe cuts.** -/
theorem onOutput_append_iff (hvt : Vt.Chunked V) (a b : List UInt8) :
    SameLine (app.onOutput (a ++ b)) ((app.onOutput a).onOutput b) ↔ app.CutSafe a b := by
  refine ⟨fun h => (promptPos_append_iff hvt a b).1 h.promptPos, fun h => ?_⟩
  refine { promptPos := (promptPos_append_iff hvt a b).2 h, cwd := ?_, shadowInput := ?_, shadowCursor := ?_,
           suggestion := ?_, lastInputWasEnter := ?_ }
  -- the other fields depend on the markers and the newlines only, wherever they are
  all_goals
    simp only [onOutput_eq (a ++ b), onOutput_eq b, outEvents_onOutput, outEvents_append, lastCwd_append,
      List.mem_append, contains_append]
    simp only [onOutput_eq a]
  · exact Option.or_assoc
  · by_cases h₁ : OscEvent.promptEnd ∈ app.outEvents a <;> simp [h₁]
  · by_cases h₁ : OscEvent.promptEnd ∈ app.outEvents a <;> simp [h₁]
  · by_cases h₁ : OscEvent.promptEnd ∈ app.outEvents a <;> simp [h₁]
  · cases app.lastInputWasEnter <;> simp

/-- **The application does not see where the channel cuts its output, exactly at the safe cuts.** -/
theorem output_cut_iff (hvt : Vt.Chunked V) (app : App V) (a b : List UInt8) :
    SameLine (app.onSessionEvent (.output (a ++ b)))
      ((app.onSessionEvent (.output a)).onSessionEvent (.output b)) ↔ app.CutSafe a b :=
  onOutput_append_iff hvt a b

/-- The end of a prompt, `OSC 133;B`. -/
def promptEndBytes : List UInt8 := [0x1b, 0x5d, 0x31, 0x33, 0x33, 0x3b, 0x42, 0x07]

/-- A newline, and then a prompt that ends with its marker. -/
theorem output_cut_prompt : SameLine
    ((App.new ['h'] ['u'] 80 24 : App MiniVt).onSessionEvent (.output ([0x0d, 0x0a] ++ 0x24 :: 0x20 :: promptEndBytes)))
    (((App.new ['h'] ['u'] 80 24 : App MiniVt).onSessionEvent (.output [0x0d, 0x0a])).onSessionEvent
      (.output (0x24 :: 0x20 :: promptEndBytes))) := by
  refine (output_cut_iff MiniVt.chunked _ _ _).2 ?_
  have hmark : lastMark (((App.new ['h'] ['u'] 80 24 : App MiniVt).terminal.oscScanner.after [0x0d, 0x0a]).events
      (0x24 :: 0x20 :: promptEndBytes)) = some .prompt := by decide +kernel
  unfold CutSafe
  rw [hmark]
  exact .prompt

/-- In one chunk with the text after it, the end of a prompt is placed after that text. -/
theorem output_cut_seen : ¬ ∀ (l : List Input) (app : App MiniVt) (history : History),
    runNew ['h'] ['u'] 80 24 {} l = some (app, history) → ∀ a b,
      SameLine (app.onSessionEvent (.output (a ++ b)))
        ((app.onSessionEvent (.output a)).onSessionEvent (.output b)) := by
  intro h
  have hpos := (h [] _ _ rfl promptEndBytes [0x6c, 0x73]).promptPos
  revert hpos
  decide +kernel

end TinySsh.App
