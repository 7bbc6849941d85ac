import TinySsh.App.Editor
import TinySsh.History.Ranking

/-!
# The best completion

The history is asked for one row, the newest of those that LIKE finds (`pool`), and the application drops it if it does
not continue the line character for character. LIKE does not tell the cases of ASCII letters apart, so the row may hide
an older one that does. The suggestion is the best completion, whatever rows the database returns, exactly when a
completion can be found among the newest rows of the pool only (`suggests_best_iff`).
-/

namespace TinySsh

open Text

/-! ## Completions -/

namespace App

variable {V : Type} {app : App V} {history : History} {env : Env} {r : Row}

/-- The row is a command of the host that strictly extends the line. -/
def Completes (app : App V) (history : History) (r : Row) : Prop :=
  r ∈ history.rows ∧ r.host = app.host ∧ ∃ rest, rest ≠ [] ∧ r.command = app.shadowInput ++ rest

/-- The completions of the current directory if there are any, and otherwise those of the host. -/
def Candidate (app : App V) (history : History) (r : Row) : Prop :=
  app.Completes history r ∧ ((∃ x, app.Completes history x ∧ x.cwd.isSome ∧ x.cwd = app.cwd) → r.cwd = app.cwd)

/-- **The suggestion is the best completion**: there is one whenever there is a completion, and it is the rest of a
newest candidate. -/
def SuggestsBest (app : App V) (history : History) (env : Env) : Prop :=
  ∃ app', app.refreshSuggestion history env = some app' ∧
    (app'.suggestion.isSome = true ↔ ∃ r, app.Completes history r) ∧
    ∀ rest, app'.suggestion = some rest → ∃ r, Newest (app.Candidate history) r ∧ r.command = app.shadowInput ++ rest

/-- What the history is asked for. -/
def context (app : App V) : SuggestContext := { host := app.host, cwd := app.cwd, typed := app.shadowInput }

/-- Wherever a completion is on record, every newest row of the pool is one. -/
def PoolCompletes (app : App V) (history : History) : Prop :=
  (∃ r, app.Completes history r) → ∀ r, Newest (· ∈ history.pool app.context) r → app.Completes history r

/-- The suggestion, from the row. -/
theorem completion_suggestedRow (hne : app.shadowInput ≠ []) {o : Option Row}
    (ho : history.suggestedRow env app.context = .ok o) :
    app.completion history env = o.bind fun r =>
      if app.shadowInput.isPrefixOf r.command && byteLen r.command > byteLen app.shadowInput then
        some (r.command.drop app.shadowInput.length)
      else none := by
  have hsame : (SuggestEngine.suggest history env app.context).map (Option.map (·.command)) =
      .ok (o.map (·.command)) := by
    rw [History.suggest_suggestedRow hne, ho]
    rfl
  unfold completion
  rw [if_neg hne]
  change (SuggestEngine.suggest history env { host := app.host, cwd := app.cwd, typed := app.shadowInput }).map
    (Option.map (·.command)) = .ok (o.map (·.command)) at hsame
  generalize SuggestEngine.suggest history env { host := app.host, cwd := app.cwd, typed := app.shadowInput } = q
    at hsame ⊢
  cases q with
  | error e => cases hsame
  | ok o' =>
    cases o' with
    | none =>
      cases o with
      | none => rfl
      | some r => cases hsame
    | some s =>
      cases o with
      | none => cases hsame
      | some r =>
        have hcmd : s.command = r.command := by simpa [Except.map] using hsame
        simp [hcmd]

/-- The rest of a command that strictly extends the line. -/
theorem rest_iff {line cmd rest : Str} :
    (if line.isPrefixOf cmd && byteLen cmd > byteLen line then some (cmd.drop line.length) else none) = some rest ↔
      rest ≠ [] ∧ cmd = line ++ rest := by
  constructor
  · intro h
    split at h
    · rename_i hp
      simp only [Bool.and_eq_true, List.isPrefixOf_iff_prefix, decide_eq_true_eq] at hp
      obtain ⟨⟨rest', rfl⟩, hlen⟩ := hp
      have hrest : rest' = rest := by simpa using h
      subst hrest
      refine ⟨?_, rfl⟩
      rintro rfl
      simp at hlen
    · cases h
  · rintro ⟨hrest, rfl⟩
    have hpos : byteLen rest ≠ 0 := fun h0 => hrest (byteLen_eq_zero.1 h0)
    have hcond : (line.isPrefixOf (line ++ rest) && byteLen (line ++ rest) > byteLen line) = true := by
      simp only [Bool.and_eq_true, List.isPrefixOf_iff_prefix, decide_eq_true_eq, byteLen_append]
      exact ⟨List.prefix_append _ _, by omega⟩
    rw [if_pos hcond, List.drop_left]

/-- A completion is found by LIKE. -/
theorem Completes.matches (h : app.Completes history r) : History.Matches app.context r := by
  obtain ⟨-, hhost, rest, hrest, hcmd⟩ := h
  refine ⟨hhost, by simpa [hcmd, context] using hrest, ?_⟩
  rw [hcmd, List.map_append]
  exact List.prefix_append _ _

/-- If a row of the pool is a completion, the pool holds all candidates, and the row is one of them. -/
theorem candidate_of_pool (hr : r ∈ history.pool app.context) (hc : app.Completes history r) :
    app.Candidate history r ∧ ∀ x, app.Candidate history x → x ∈ history.pool app.context := by
  obtain ⟨cwd, hcwd, -, hpool⟩ | ⟨hnil, hpool⟩ := History.pool_cases history app.context <;> rw [hpool] at hr ⊢
  · have hcwd : app.cwd = some cwd := hcwd
    obtain ⟨-, -, hrcwd⟩ := History.mem_cwdRows.1 hr
    have hhere : r.cwd.isSome ∧ r.cwd = app.cwd := ⟨by rw [hrcwd]; rfl, hrcwd.trans hcwd.symm⟩
    refine ⟨⟨hc, fun _ => hhere.2⟩, fun x hx => ?_⟩
    exact History.mem_cwdRows.2 ⟨hx.1.1, hx.1.matches, (hx.2 ⟨r, hc, hhere⟩).trans hcwd⟩
  · -- no completion of the directory
    refine ⟨⟨hc, ?_⟩, fun x hx => History.mem_hostRows.2 ⟨hx.1.1, hx.1.matches⟩⟩
    rintro ⟨x, hx, hsome, hxcwd⟩
    obtain ⟨cwd, hcwd⟩ := Option.isSome_iff_exists.1 hsome
    have hmem := History.mem_cwdRows.2 ⟨hx.1, hx.matches, hcwd⟩
    rw [hnil cwd (hxcwd.symm.trans hcwd)] at hmem
    cases hmem

theorem completion_isSome (h : (app.completion history env).isSome = true) : ∃ r, app.Completes history r := by
  obtain ⟨rest, hrest⟩ := Option.isSome_iff_exists.1 h
  obtain ⟨-, hne, r, hmem, hhost, hcmd⟩ := completion_some hrest
  exact ⟨r, hmem, hhost, rest, hne, hcmd⟩

/-- **The suggestion is the best completion, whatever newest rows the database returns, exactly when every newest row
that LIKE finds is a completion, if anything is.** -/
theorem suggests_best_iff (app : App V) (history : History) (hne : app.shadowInput ≠ []) :
    (∀ env : Env, env.Answers → app.SuggestsBest history env) ↔ app.PoolCompletes history := by
  have hbest : ∀ env, app.SuggestsBest history env ↔
      ((app.completion history env).isSome = true ↔ ∃ r, app.Completes history r) ∧
        ∀ rest, app.completion history env = some rest →
          ∃ r, Newest (app.Candidate history) r ∧ r.command = app.shadowInput ++ rest := fun env =>
    ⟨fun ⟨app', happ, h⟩ => by rw [refreshSuggestion_eq] at happ; cases happ; exact h,
      fun h => ⟨_, refreshSuggestion_eq, h⟩⟩
  simp only [hbest]
  constructor
  · intro h hsome r hr
    -- a world that returns this row
    have hcomp := completion_suggestedRow hne (History.suggestedRow_prefer hr)
    obtain ⟨hmem, hhost, -⟩ := History.mem_of_pool hr.1
    obtain ⟨rest, hrest⟩ := Option.isSome_iff_exists.1 ((h (.prefer r) (Env.prefer_answers r)).1.2 hsome)
    rw [hcomp] at hrest
    exact ⟨hmem, hhost, rest, rest_iff.1 hrest⟩
  · intro h env ha
    obtain ⟨o, ho, hnone, hnewest⟩ := @History.suggestedRow_newest history env app.context ha
    have hcomp := completion_suggestedRow hne ho
    by_cases hsome : ∃ r, app.Completes history r
    · obtain ⟨x, hx⟩ := hsome
      have hfound : o ≠ none := fun h0 => History.pool_eq_nil.1 (hnone.1 h0) x hx.1 hx.matches
      obtain ⟨r, rfl⟩ := Option.ne_none_iff_exists'.1 hfound
      have hr := hnewest r rfl
      have hc : app.Completes history r := h ⟨x, hx⟩ r hr
      obtain ⟨rest, hrest⟩ := hc.2.2
      have hcomp : app.completion history env = some rest := hcomp.trans (rest_iff.2 hrest)
      rw [hcomp]
      refine ⟨iff_of_true rfl ⟨x, hx⟩, fun rest' hrest' => ?_⟩
      cases hrest'
      obtain ⟨hcand, hall⟩ := candidate_of_pool hr.1 hc
      exact ⟨r, ⟨hcand, fun y hy => hr.2 y (hall y hy)⟩, hrest.2⟩
    · refine ⟨iff_of_false (fun h => hsome (completion_isSome h)) hsome, fun rest hrest => ?_⟩
      exact absurd (completion_isSome (by rw [hrest]; rfl)) hsome

/-! ## Two cases of a letter -/

/-- The command `git`, and the command `GO` at another time. -/
def caseHistory (time : Int) : History where
  rows := [{ id := 1, host := ['h'], user := ['u'], cwd := none, command := ['g', 'i', 't'], timestamp := 100,
             exitCode := none, durationMs := none, source := "user" },
           { id := 2, host := ['h'], user := ['u'], cwd := none, command := ['G', 'O'], timestamp := time,
             exitCode := none, durationMs := none, source := "user" }]
  lastId := 2

variable [Vt V]

/-- The application at the line `g`. -/
def typedG : App V := { App.new ['h'] ['u'] 80 24 with shadowInput := ['g'], shadowCursor := 1 }

theorem completes_git (time : Int) : ∃ r, (typedG : App V).Completes (caseHistory time) r :=
  ⟨_, List.mem_cons_self, rfl, ['i', 't'], by simp, rfl⟩

/-- An older `GO` is never returned. -/
theorem suggests_git : (typedG : App MiniVt).SuggestsBest (caseHistory 50) (.stable 0) := by
  refine (suggests_best_iff typedG (caseHistory 50) (by simp [typedG])).2 (fun _ r hr => ?_) (.stable 0)
    fun _ => ⟨rfl, rfl⟩
  have hpool : (caseHistory 50).pool (typedG : App MiniVt).context = (caseHistory 50).rows := by decide +kernel
  rw [hpool] at hr
  obtain ⟨hmem, hmax⟩ := hr
  rcases List.mem_cons.1 hmem with rfl | hmem
  · exact ⟨List.mem_cons_self, rfl, ['i', 't'], by simp, rfl⟩
  · obtain rfl := List.mem_singleton.1 hmem
    exact absurd (hmax _ List.mem_cons_self) (by decide)

/-- A newer `GO` hides `git`. -/
theorem suggestion_hidden : ¬ ∀ (app : App MiniVt) (history : History) (env : Env), env.Answers →
    app.shadowInput ≠ [] → app.SuggestsBest history env := by
  intro h
  obtain ⟨app', happ, hsome, -⟩ := h typedG (caseHistory 200) (.stable 0) (fun _ => ⟨rfl, rfl⟩) (by simp [typedG])
  have hrun : ((typedG : App MiniVt).refreshSuggestion (caseHistory 200) (.stable 0)).map (·.suggestion) =
      some none := by decide +kernel
  rw [happ, Option.map_some, Option.some.injEq] at hrun
  have := hsome.2 (completes_git 200)
  rw [hrun] at this
  cases this

end App

end TinySsh
