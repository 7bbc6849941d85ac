import TinySsh.App.Events

/-!
# The prompt while a command runs

The markers of the shell say when a command starts and when the next prompt ends; `markStep` keeps the last one beside
the application. A command start clears the prompt position, but the newline heuristic runs after the markers of a
chunk and does not ask for them. The prompt stays inactive exactly in the runs where the heuristic, whenever it applies
to the output of a command, finds the cursor in the first column (`prompt_inactive_iff`).
-/

namespace TinySsh.App

open Text

variable {V : Type} {app : App V} {history : History} {env : Env} {key : KeyEvent}

/-- Without a prompt position nothing is shown. -/
theorem canShowSuggestion_none [Vt V] (h : app.promptPos = none) : app.canShowSuggestion = false := by
  simp [canShowSuggestion, h]

theorem promptPos_shadowStep (app : App V) (key : KeyEvent) (history : History) (env : Env) :
    (app.shadowStep key history env).promptPos = app.promptPos := by
  unfold shadowStep
  cases keyCached key <;> rfl

variable [Vt V]

/-- No key moves the prompt position. -/
theorem KeyStep.promptPos {r : App V × History × Action} (h : KeyStep app key history env r) :
    r.1.promptPos = app.promptPos := by
  cases h with
  | sent => exact promptPos_shadowStep _ _ _ _
  | _ => rfl

/-! ## The last marker -/

/-- The last prompt end or command start, after an input. -/
def markAfter (s : App V × History) (mark : Option Mark) : Input → Option Mark
  | .event (.output bytes) | .event (.stderr bytes) => (lastMark (s.1.outEvents bytes)).or mark
  | _ => mark

/-- The application, and the last marker that it has handled. -/
def markStep : (App V × History) × Option Mark → Input → Option ((App V × History) × Option Mark) :=
  Lts.withGhost App.step markAfter

/-- **While a command runs, the prompt is inactive.** -/
def PromptInactive (s : (App V × History) × Option Mark) : Prop :=
  s.2 = some .command → s.1.1.promptPos = none ∧ s.1.1.canShowSuggestion = false

/-- The heuristic takes no output of a command for a prompt: after Enter and with a newline in it, a chunk that leaves
the command running leaves the cursor in the first column. -/
def NoGuess (s : (App V × History) × Option Mark) : Input → Prop
  | .event (.output bytes) | .event (.stderr bytes) =>
    (lastMark (s.1.1.outEvents bytes)).or s.2 = some .command → s.1.1.heuristic bytes = true →
      (s.1.1.outCursor bytes).1 = 0
  | _ => True

theorem promptInactive_iff {s : (App V × History) × Option Mark} :
    PromptInactive s ↔ (s.2 = some .command → s.1.1.promptPos = none) :=
  forall_congr' fun _ => ⟨fun h => h.1, fun h => ⟨h, canShowSuggestion_none h⟩⟩

/-- The prompt position after a chunk that leaves a command running. -/
theorem promptPos_onOutput_none {mark : Option Mark} {bytes : List UInt8}
    (h : mark = some .command → app.promptPos = none) (hm : (lastMark (app.outEvents bytes)).or mark = some .command) :
    (app.onOutput bytes).promptPos = none ↔ (app.heuristic bytes = true → (app.outCursor bytes).1 = 0) := by
  -- the markers leave no prompt
  have hplace : place (app.outCursor bytes) app.promptPos (lastMark (app.outEvents bytes)) = none := by
    cases hl : lastMark (app.outEvents bytes) with
    | none =>
      rw [hl, Option.none_or] at hm
      exact h hm
    | some m =>
      rw [hl, Option.some_or] at hm
      cases hm
      rfl
  rw [onOutput_eq]
  simp only [hplace]
  by_cases hh : app.heuristic bytes = true
  · simp [hh, Nat.pos_iff_ne_zero]
  · simp [hh]

/-- One step keeps the prompt inactive exactly if the heuristic takes nothing for a prompt. -/
theorem promptInactive_step {s s' : (App V × History) × Option Mark} {i : Input} (hok : s.1.1.Ok)
    (h : PromptInactive s) (hs : markStep s i = some s') : PromptInactive s' ↔ NoGuess s i := by
  obtain ⟨t, ht, rfl⟩ := Option.map_eq_some_iff.1 hs
  rw [promptInactive_iff] at h ⊢
  cases i with
  | key key env =>
    obtain ⟨r, hr, rfl⟩ := Option.map_eq_some_iff.1 ht
    have hpos : r.1.promptPos = s.1.1.promptPos := (keyStep_of_onKey hok.wf hr).promptPos
    refine iff_of_true (fun hm => ?_) trivial
    rw [hpos]
    exact h hm
  | event ev =>
    cases ht
    cases ev with
    | output bytes | stderr bytes => exact forall_congr' fun hm => promptPos_onOutput_none h hm
    | _ => exact iff_of_true h trivial

/-- **While a command runs the prompt is inactive, exactly in the runs where the newline heuristic takes no output of a
command for a prompt.** -/
theorem prompt_inactive_iff (host user : Str) (cols rows : Nat) (history₀ : History) (l : List Input) :
    Lts.Always markStep PromptInactive (((App.new host user cols rows : App V), history₀), none) l ↔
      Lts.Each markStep NoGuess (((App.new host user cols rows : App V), history₀), none) l := by
  have hnew : (App.new host user cols rows : App V).Ok := ok_new host user cols rows
  have hrun : (Lts.run markStep (((App.new host user cols rows : App V), history₀), none) l).isSome := by
    have := run_isSome (V := V) (s := (_, history₀)) (l := l) hnew
    rw [← Lts.run_withGhost (g := markAfter) (z := none), Option.isSome_map] at this
    exact this
  have hkeep : ∀ {s s' : (App V × History) × Option Mark} {i : Input}, s.1.1.Ok → markStep s i = some s' →
      s'.1.1.Ok := fun hok hs => by
    obtain ⟨t, ht, rfl⟩ := Option.map_eq_some_iff.1 hs
    exact hok.step ht
  exact Lts.always_iff_each_of (Q := fun _ => True) (I := fun s => s.1.1.Ok ∧ PromptInactive s) (fun h => h.2)
    (fun h _ hs => promptInactive_step h.1 h.2 hs)
    (fun h _ hc hs => ⟨hkeep h.1 hs, (promptInactive_step h.1 h.2 hs).2 hc⟩)
    ⟨hnew, fun h => nomatch h⟩ (fun _ _ => trivial) hrun

/-- Enter, and then the start of a command with a line of its output that is not finished. -/
def runningRun : List Input :=
  [pressed .enter, .event (.output [0x1b, 0x5d, 0x31, 0x33, 0x33, 0x3b, 0x43, 0x07, 0x0d, 0x0a, 0x78])]

/-- The unfinished line is taken for a prompt. -/
theorem prompt_active_while_running : ¬ ∀ l, Lts.Always markStep PromptInactive
    (((App.new ['h'] ['u'] 80 24 : App MiniVt), {}), none) l := by
  intro h
  have hrun : (Lts.run markStep (((App.new ['h'] ['u'] 80 24 : App MiniVt), {}), none) runningRun).map
      (fun s => (s.2, s.1.1.promptPos)) = some (some .command, some (1, 1)) := by decide +kernel
  obtain ⟨s, hs, heq⟩ := Option.map_eq_some_iff.1 hrun
  obtain ⟨hmark, hpos⟩ := Prod.mk.inj heq
  have hall := h runningRun
  rw [← List.append_nil runningRun] at hall
  have hend : PromptInactive s := hall.at hs
  rw [(hend hmark).1] at hpos
  cases hpos

end TinySsh.App
