import TinySsh.App.Editor

/-!
# What output does to the application

The markers of a chunk of output are handled one after another, all with the cursor at the end of the chunk. Their
joint effect depends on the last prompt or command marker (`lastMark`), the last directory report and whether there is
a prompt end among them (`foldl_onOscEvent`); `onOutput_eq` adds the newline heuristic.

A run keeps the shadow cursor within the shadow line and leaves no marker queued (`run_ok`), so it never panics
(`run_isSome`).
-/

namespace TinySsh.App

open Text

/-! ## Markers -/

/-- A marker that moves the prompt position. -/
inductive Mark
  | prompt | command
deriving DecidableEq

def markOf : OscEvent → Option Mark
  | .promptEnd => some .prompt
  | .commandStart => some .command
  | _ => none

def cwdOf : OscEvent → Option Str
  | .cwd p => some p
  | _ => none

/-- The last prompt end or command start. -/
def lastMark : List OscEvent → Option Mark
  | [] => none
  | e :: es => (lastMark es).or (markOf e)

/-- The last directory report. -/
def lastCwd : List OscEvent → Option Str
  | [] => none
  | e :: es => (lastCwd es).or (cwdOf e)

theorem lastMark_append (a b : List OscEvent) : lastMark (a ++ b) = (lastMark b).or (lastMark a) := by
  induction a with
  | nil => simp [lastMark]
  | cons e a ih => simp [lastMark, ih, Option.or_assoc]

theorem promptEnd_mem {events : List OscEvent} (h : lastMark events = some .prompt) : .promptEnd ∈ events := by
  induction events with
  | nil => cases h
  | cons e es ih =>
    rcases Option.or_eq_some_iff.1 h with hrest | ⟨-, he⟩
    · exact List.mem_cons_of_mem _ (ih hrest)
    · cases e with
      | promptEnd => exact List.mem_cons_self
      | _ => cases he

theorem lastCwd_append (a b : List OscEvent) : lastCwd (a ++ b) = (lastCwd b).or (lastCwd a) := by
  induction a with
  | nil => simp [lastCwd]
  | cons e a ih => simp [lastCwd, ih, Option.or_assoc]

/-- The prompt position after a marker seen with the cursor at `here`. -/
def place (here : Nat × Nat) (old : Option (Nat × Nat)) : Option Mark → Option (Nat × Nat)
  | none => old
  | some .prompt => some here
  | some .command => none

theorem place_or (here : Nat × Nat) (old : Option (Nat × Nat)) (m m' : Option Mark) :
    place here old (m.or m') = place here (place here old m') m := by
  cases m with
  | none => rfl
  | some m => cases m <;> rfl

variable {V : Type} [Vt V] {app : App V}

/-- The joint effect of the markers. -/
def withMarkers (app : App V) (events : List OscEvent) : App V :=
  { app with
    promptPos := place app.terminal.cursor app.promptPos (lastMark events)
    shadowInput := if .promptEnd ∈ events then [] else app.shadowInput
    shadowCursor := if .promptEnd ∈ events then 0 else app.shadowCursor
    suggestion := if .promptEnd ∈ events then none else app.suggestion
    cwd := (lastCwd events).or app.cwd }

theorem foldl_onOscEvent (events : List OscEvent) : events.foldl onOscEvent app = app.withMarkers events := by
  induction events generalizing app with
  | nil => simp [withMarkers, lastMark, lastCwd, place]
  | cons e es ih =>
    rw [List.foldl_cons, ih]
    cases e <;> simp only [withMarkers, onOscEvent, lastMark, lastCwd, place_or, Option.or_assoc, cwdOf, Option.none_or,
      Option.some_or, List.mem_cons, reduceCtorEq, false_or, true_or, if_true, ite_self] <;> rfl

/-! ## A chunk of output -/

/-- The markers handled with a chunk. -/
def outEvents (app : App V) (bytes : List UInt8) : List OscEvent :=
  app.terminal.pendingOsc ++ app.terminal.oscScanner.events bytes

/-- The cursor at the end of a chunk. -/
def outCursor (app : App V) (bytes : List UInt8) : Nat × Nat := (app.terminal.feed bytes).cursor

/-- The newline heuristic applies to the chunk. -/
def heuristic (app : App V) (bytes : List UInt8) : Bool := app.lastInputWasEnter && bytes.contains 0x0a

theorem handlePromptHeuristic_eq (bytes : List UInt8) : app.handlePromptHeuristic bytes =
    { app with
      promptPos :=
        if app.heuristic bytes = true ∧ app.terminal.cursor.1 > 0 then some app.terminal.cursor else app.promptPos
      lastInputWasEnter := app.lastInputWasEnter && !bytes.contains 0x0a } := by
  unfold handlePromptHeuristic heuristic
  cases he : app.lastInputWasEnter with
  | false => simpa using congrArg (fun b => { app with lastInputWasEnter := b }) he
  | true =>
    cases hn : bytes.contains 0x0a with
    | false => simpa using congrArg (fun b => { app with lastInputWasEnter := b }) he
    | true =>
      by_cases hc : app.terminal.cursor.1 > 0
      · simp [hc]
      · simp [hc]

/-- **The application after a chunk of output.** -/
theorem onOutput_eq (bytes : List UInt8) : app.onOutput bytes =
    { app with
      terminal := { (app.terminal.feed bytes) with pendingOsc := [] }
      promptPos :=
        if app.heuristic bytes = true ∧ (app.outCursor bytes).1 > 0 then some (app.outCursor bytes)
        else place (app.outCursor bytes) app.promptPos (lastMark (app.outEvents bytes))
      shadowInput := if .promptEnd ∈ app.outEvents bytes then [] else app.shadowInput
      shadowCursor := if .promptEnd ∈ app.outEvents bytes then 0 else app.shadowCursor
      suggestion := if .promptEnd ∈ app.outEvents bytes then none else app.suggestion
      cwd := (lastCwd (app.outEvents bytes)).or app.cwd
      lastInputWasEnter := app.lastInputWasEnter && !bytes.contains 0x0a } := by
  have hev : (app.terminal.feed bytes).takeOscEvents =
      (app.outEvents bytes, { (app.terminal.feed bytes) with pendingOsc := [] }) := by
    simp [Terminal.takeOscEvents, outEvents, Terminal.feed_eq]
  have hcur : ∀ es, Terminal.cursor { (app.terminal.feed bytes) with pendingOsc := es } = app.outCursor bytes :=
    fun _ => rfl
  simp only [onOutput, hev, foldl_onOscEvent, withMarkers, handlePromptHeuristic_eq, heuristic, hcur]
  rfl

/-! ## Invariants of runs -/

/-- The shadow cursor is in range and no marker is queued. -/
structure Ok (app : App V) : Prop where
  wf : app.Wf
  drained : app.terminal.pendingOsc = []

omit [Vt V] in
/-- Only the markers of the chunk are handled with it. -/
theorem Ok.outEvents_eq (h : app.Ok) (bytes : List UInt8) :
    app.outEvents bytes = app.terminal.oscScanner.events bytes := by
  rw [outEvents, h.drained, List.nil_append]

theorem ok_new (host user : Str) (cols rows : Nat) : (App.new host user cols rows : App V).Ok := ⟨Nat.le_refl _, rfl⟩

/-- A key keeps the invariant. -/
theorem Ok.onKey {key : KeyEvent} {history : History} {env : Env} {r : App V × History × Action} (h : app.Ok)
    (hr : KeyStep app key history env r) : r.1.Ok := by
  cases hr with
  | captured => exact ⟨h.wf, h.drained⟩
  | accepted => exact ⟨wf_edit app _, h.drained⟩
  | silent => exact h
  | sent => exact ⟨wf_shadowStep _ _ _, by rw [terminal_shadowStep]; exact h.drained⟩

/-- A chunk of output keeps the invariant. -/
theorem Ok.onOutput (h : app.Ok) (bytes : List UInt8) : (app.onOutput bytes).Ok := by
  rw [onOutput_eq]
  refine ⟨?_, rfl⟩
  have hwf := h.wf
  unfold Wf at hwf ⊢
  dsimp only
  split
  · exact Nat.le_refl _
  · exact hwf

theorem Ok.onSessionEvent (h : app.Ok) (ev : SessionEvent) : (app.onSessionEvent ev).Ok := by
  cases ev with
  | output bytes | stderr bytes => exact h.onOutput bytes
  | _ => exact ⟨h.wf, h.drained⟩

theorem Ok.step {s s' : App V × History} {i : Input} (h : s.1.Ok) (hs : App.step s i = some s') : s'.1.Ok := by
  cases i with
  | key key env =>
    obtain ⟨r, hr, rfl⟩ := Option.map_eq_some_iff.1 hs
    exact h.onKey (keyStep_of_onKey h.wf hr)
  | event ev => cases hs; exact h.onSessionEvent ev

theorem run_ok {s s' : App V × History} {l : List Input} (h : s.1.Ok) (hr : Lts.run App.step s l = some s') :
    s'.1.Ok := Lts.run_inv (I := fun s => s.1.Ok) Ok.step h hr

/-- **No run panics.** -/
theorem run_isSome {s : App V × History} {l : List Input} (h : s.1.Ok) : (Lts.run App.step s l).isSome := by
  refine Lts.run_isSome (Q := fun _ => True) (I := fun s => s.1.Ok) (fun {s i} h _ => ?_) h fun _ _ => trivial
  obtain ⟨s', hs'⟩ : ∃ s', App.step s i = some s' := by
    cases i with
    | key key env =>
      obtain ⟨r, hr, -⟩ := onKey_step h.wf key s.2 env
      exact ⟨_, by simp only [App.step, hr]; rfl⟩
    | event ev => exact ⟨_, rfl⟩
  exact ⟨s', hs', h.step hs'⟩

/-- Every run from the start has an end, which is well formed. -/
theorem exists_runNew (host user : Str) (cols rows : Nat) (history₀ : History) (l : List Input) :
    ∃ (app : App V) (history : History), runNew host user cols rows history₀ l = some (app, history) ∧ app.Ok := by
  have hnew : (App.new host user cols rows : App V).Ok := ok_new host user cols rows
  obtain ⟨⟨app, history⟩, hr⟩ := Option.isSome_iff_exists.1 (run_isSome (s := (_, history₀)) (l := l) hnew)
  exact ⟨app, history, hr, run_ok hnew hr⟩

end TinySsh.App
