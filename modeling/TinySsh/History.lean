import TinySsh.Lib.Text
import Mathlib.Algebra.Group.Int.Defs
import Mathlib.Algebra.Group.Nat.Defs
import Mathlib.Data.Rat.Defs
import Mathlib.Data.List.Infix
import Mathlib.Data.List.Sort

/-!
# Command history

The history database (`history.rs`) and the suggestion engine over it (`suggest.rs`). The table is the list of its rows
in insertion order. What SQLite and the clock answer is an `Env`: the statement `SELECT … ORDER BY timestamp DESC` gives
the matching rows in some order of non-increasing timestamp (`Query`), and every statement may fail.
-/

namespace TinySsh

open Text

/-- A computation succeeds when its first part does and the rest does from there. -/
theorem except_bind_ok {ε α β : Type} {x : Except ε α} {f : α → Except ε β} {b : β} :
    (x >>= f) = .ok b ↔ ∃ a, x = .ok a ∧ f a = .ok b := by
  cases x <;> simp [bind, Except.bind]

/-! ## Rows and entries -/

/-- Where a record came from. -/
inductive HistorySource
  | user | suggestHistory | suggestKnowledge | suggestLlm
deriving DecidableEq

def HistorySource.asStr : HistorySource → String
  | .user => "user"
  | .suggestHistory => "suggest_history"
  | .suggestKnowledge => "suggest_knowledge"
  | .suggestLlm => "suggest_llm"

def HistorySource.parse (s : String) : HistorySource :=
  if s = "suggest_history" then .suggestHistory
  else if s = "suggest_knowledge" then .suggestKnowledge
  else if s = "suggest_llm" then .suggestLlm
  else .user

/-- Every source reads back as itself. -/
theorem HistorySource.parse_asStr (s : HistorySource) : parse s.asStr = s := by cases s <;> rfl

abbrev HistoryId := Int

structure HistoryEntry where
  id : Option HistoryId := none
  host : Str
  user : Str
  cwd : Option Str
  command : Str
  timestamp : Int
  exitCode : Option Int
  /-- `u64` -/
  durationMs : Option Nat
  source : HistorySource

/-- A row of the table `history`. -/
structure Row where
  id : HistoryId
  host : Str
  user : Str
  cwd : Option Str
  command : Str
  timestamp : Int
  exitCode : Option Int
  /-- `i64` -/
  durationMs : Option Int
  source : String

/-- `d as i64` for a `u64` -/
def asI64 (d : Nat) : Int := if d < 2 ^ 63 then d else d - 2 ^ 64

/-- `v as u64` for an `i64` -/
def asU64 (v : Int) : Nat := (v % 2 ^ 64).toNat

inductive HistoryError
  | sqlite | badClock
deriving DecidableEq

/-! ## The environment -/

/-- A `SELECT … ORDER BY timestamp DESC`, on the rows that its `WHERE` clause admits: all of them, in some order of
non-increasing timestamp, or an error. -/
structure Query where
  rows : List Row → Option (List Row)
  perm : ∀ {m l}, rows m = some l → l.Perm m
  sorted : ∀ {m l}, rows m = some l → l.Pairwise fun a b => b.timestamp ≤ a.timestamp

/-- What the outside world answers during one call: the clock in seconds since the epoch (`none` before it), whether an
`INSERT` or `UPDATE` succeeds, and the statements of the two passes of `suggest` and of `recent`. -/
structure Env where
  now : Option Nat
  writeOk : Bool
  cwdQuery : Query
  hostQuery : Query
  recentQuery : Query

/-- A stable sort. -/
def Query.stable : Query where
  rows m := some (m.insertionSort fun a b => b.timestamp ≤ a.timestamp)
  perm h := by cases h; exact List.perm_insertionSort _ _
  sorted h := by
    cases h
    exact List.pairwise_insertionSort (fun a b : Row => b.timestamp ≤ a.timestamp) _

/-- A world where nothing fails. -/
def Env.stable (now : Nat) : Env := ⟨some now, true, .stable, .stable, .stable⟩

/-- `query_row(…).optional()` under `LIMIT 1`. -/
def Query.first (q : Query) (m : List Row) : Except HistoryError (Option Row) :=
  match q.rows m with
  | some l => .ok l.head?
  | none => .error .sqlite

/-- The row of a query is one of those admitted. -/
theorem Query.first_mem {q : Query} {m : List Row} {r : Row} (h : q.first m = .ok (some r)) : r ∈ m := by
  unfold first at h
  cases hl : q.rows m with
  | none => simp [hl] at h
  | some l =>
    simp only [hl, Except.ok.injEq] at h
    exact (q.perm hl).mem_iff.1 (List.mem_of_head? h)

/-! ## LIKE -/

def likeEscape : Str → Str
  | [] => []
  | ch :: s => if ch = '\\' ∨ ch = '%' ∨ ch = '_' then '\\' :: ch :: likeEscape s else ch :: likeEscape s

/-- A token of a LIKE pattern; `never` is an escape character at the end of the pattern. -/
inductive LikeToken
  | any | one
  | lit (c : Char)
  | never

/-- The tokens of a pattern under `ESCAPE '\'`. -/
def likeTokens : Str → List LikeToken
  | [] => []
  | '\\' :: c :: p => .lit c :: likeTokens p
  | ['\\'] => [.never]
  | '%' :: p => .any :: likeTokens p
  | '_' :: p => .one :: likeTokens p
  | c :: p => .lit c :: likeTokens p

/-- Matching, where ASCII letters compare without case. -/
def likeMatch : List LikeToken → Str → Bool
  | [], s => s.isEmpty
  | .any :: p, s => s.tails.any (likeMatch p)
  | .one :: p, _ :: s => likeMatch p s
  | .lit a :: p, c :: s => a.toLower = c.toLower && likeMatch p s
  | _, _ => false

/-- `text LIKE pattern ESCAPE '\'` -/
def like (pattern text : Str) : Bool := likeMatch (likeTokens pattern) text

/-- An escaped text stands for its characters. -/
theorem likeTokens_escape (s : Str) : likeTokens (likeEscape s ++ ['%']) = s.map .lit ++ [.any] := by
  induction s with
  | nil => rfl
  | cons ch s ih =>
    by_cases hch : ch = '\\' ∨ ch = '%' ∨ ch = '_'
    · have hesc : likeEscape (ch :: s) = '\\' :: ch :: likeEscape s := if_pos hch
      rw [hesc]
      exact congrArg (LikeToken.lit ch :: ·) ih
    · have hplain : likeEscape (ch :: s) = ch :: likeEscape s := if_neg hch
      simp only [not_or] at hch
      rw [hplain, List.map_cons, List.cons_append, List.cons_append, likeTokens, ih] <;> simp [hch]

/-- **A pattern of an escaped text and `%` admits the texts that begin with it, up to the case of ASCII letters.** -/
theorem like_escape (s t : Str) :
    like (likeEscape s ++ ['%']) t = true ↔ s.map Char.toLower <+: t.map Char.toLower := by
  unfold like
  rw [likeTokens_escape]
  induction s generalizing t with
  | nil =>
    have hany : likeMatch [.any] t = true := by
      simp only [likeMatch, List.any_eq_true, List.mem_tails]
      exact ⟨[], List.nil_suffix, rfl⟩
    simpa using hany
  | cons a s ih =>
    cases t with
    | nil => simp [likeMatch]
    | cons b t =>
      have hcons : likeMatch ((a :: s).map .lit ++ [.any]) (b :: t) =
          (a.toLower = b.toLower && likeMatch (s.map .lit ++ [.any]) t) := rfl
      rw [hcons, Bool.and_eq_true, decide_eq_true_eq, ih, List.map_cons, List.map_cons, List.cons_prefix_cons]

/-! ## `History` -/

/-- The table, and the largest id it has given out (`AUTOINCREMENT`). -/
structure History where
  rows : List Row := []
  lastId : HistoryId := 0

structure SuggestContext where
  host : Str
  cwd : Option Str
  typed : Str

structure Suggestion where
  command : Str
  sourceId : HistoryId
  score : Rat

def score (sameCwd : Bool) : Rat := if sameCwd then 9 / 10 else 4 / 10

namespace History

def nowUnixSecs (env : Env) : Except HistoryError Int :=
  match env.now with
  | some secs => .ok (asI64 secs)
  | none => .error .badClock

/-- The timestamp an entry is stored under: a zero is replaced by the clock. -/
def stamp (env : Env) (entry : HistoryEntry) : Except HistoryError Int :=
  if entry.timestamp = 0 then nowUnixSecs env else .ok entry.timestamp

/-- Append a new entry: its id, and the table after it. -/
def record (h : History) (env : Env) (entry : HistoryEntry) : Except HistoryError (HistoryId × History) := do
  let timestamp ← stamp env entry
  if env.writeOk then
    let id := h.lastId + 1
    let row : Row :=
      { id, host := entry.host, user := entry.user, cwd := entry.cwd, command := entry.command, timestamp,
        exitCode := entry.exitCode, durationMs := entry.durationMs.map asI64, source := entry.source.asStr }
    .ok (id, { rows := h.rows ++ [row], lastId := id })
  else .error .sqlite

/-- `UPDATE history SET exit_code = ? WHERE id = ?` -/
def setExitCode (h : History) (env : Env) (id : HistoryId) (exitCode : Int) : Except HistoryError History :=
  if env.writeOk then
    .ok { h with rows := h.rows.map fun r => if r.id = id then { r with exitCode := some exitCode } else r }
  else .error .sqlite

/-- The rows of the second pass of `suggest`: same host, any cwd. -/
def hostRows (h : History) (ctx : SuggestContext) : List Row :=
  let likeArg := likeEscape ctx.typed ++ ['%']
  h.rows.filter fun r => r.host = ctx.host && like likeArg r.command && r.command ≠ ctx.typed

/-- The rows of the first pass of `suggest`: same host and cwd. -/
def cwdRows (h : History) (ctx : SuggestContext) (cwd : Str) : List Row :=
  let likeArg := likeEscape ctx.typed ++ ['%']
  h.rows.filter fun r => r.host = ctx.host && r.cwd = some cwd && like likeArg r.command && r.command ≠ ctx.typed

def suggestHost (h : History) (env : Env) (ctx : SuggestContext) : Except HistoryError (Option Suggestion) := do
  let row ← env.hostQuery.first (h.hostRows ctx)
  .ok (row.map fun r => { command := r.command, sourceId := r.id, score := score false })

/-- The best suggestion: the most recent command that completes what is typed, from the current cwd if there is one. -/
def suggest (h : History) (env : Env) (ctx : SuggestContext) : Except HistoryError (Option Suggestion) :=
  if ctx.typed = [] then .ok none
  else
    match ctx.cwd with
    | none => h.suggestHost env ctx
    | some cwd => do
      match ← env.cwdQuery.first (h.cwdRows ctx cwd) with
      | some r => .ok (some { command := r.command, sourceId := r.id, score := score true })
      | none => h.suggestHost env ctx

def rowToEntry (r : Row) : HistoryEntry :=
  { id := some r.id, host := r.host, user := r.user, cwd := r.cwd, command := r.command, timestamp := r.timestamp,
    exitCode := r.exitCode, durationMs := r.durationMs.map asU64, source := .parse r.source }

/-- The most recent entries of a host, newest first. A limit that is negative as an `i64` means none. -/
def recent (h : History) (env : Env) (host : Str) (limit : Nat) : Except HistoryError (List HistoryEntry) :=
  match env.recentQuery.rows (h.rows.filter fun r => r.host = host) with
  | some l => .ok ((if asI64 limit < 0 then l else l.take limit).map rowToEntry)
  | none => .error .sqlite

/-! ## What is recorded and what is suggested -/

variable {h h' : History} {env : Env} {ctx : SuggestContext} {entry : HistoryEntry} {id : HistoryId} {s : Suggestion}

/-- Recording appends one row with the entry's fields. -/
theorem record_ok (hr : h.record env entry = .ok (id, h')) : ∃ r, h'.rows = h.rows ++ [r] ∧ r.id = id ∧
    r.host = entry.host ∧ r.user = entry.user ∧ r.cwd = entry.cwd ∧ r.command = entry.command ∧
    r.source = entry.source.asStr := by
  obtain ⟨ts, -, hr⟩ := except_bind_ok.1 hr
  split at hr
  · cases hr
    exact ⟨_, rfl, rfl, rfl, rfl, rfl, rfl, rfl⟩
  · cases hr

/-- When neither the clock nor the statement fails, the entry is recorded. -/
theorem record_isOk (hw : env.writeOk = true) (hn : env.now.isSome) : ∃ id h', h.record env entry = .ok (id, h') := by
  obtain ⟨secs, hsecs⟩ := Option.isSome_iff_exists.1 hn
  obtain ⟨ts, hts⟩ : ∃ ts, stamp env entry = .ok ts := by
    unfold stamp nowUnixSecs
    rw [hsecs]
    split <;> exact ⟨_, rfl⟩
  exact ⟨_, _, except_bind_ok.2 ⟨ts, hts, by rw [if_pos hw]⟩⟩

theorem suggestHost_mem (hs : h.suggestHost env ctx = .ok (some s)) :
    ∃ r ∈ h.rows, r.host = ctx.host ∧ r.command = s.command ∧ r.id = s.sourceId := by
  obtain ⟨row, hq, hs⟩ := except_bind_ok.1 hs
  simp only [Except.ok.injEq, Option.map_eq_some_iff] at hs
  obtain ⟨r, rfl, rfl⟩ := hs
  have hm := Query.first_mem hq
  simp only [hostRows, List.mem_filter, Bool.and_eq_true, decide_eq_true_eq] at hm
  exact ⟨r, hm.1, hm.2.1.1, rfl, rfl⟩

/-- A suggestion is a row of the host that was asked for. -/
theorem suggest_mem (hs : h.suggest env ctx = .ok (some s)) :
    ∃ r ∈ h.rows, r.host = ctx.host ∧ r.command = s.command ∧ r.id = s.sourceId := by
  unfold suggest at hs
  split at hs
  · cases hs
  split at hs
  · exact suggestHost_mem hs
  obtain ⟨row, hq, hs⟩ := except_bind_ok.1 hs
  cases row with
  | none => exact suggestHost_mem hs
  | some r =>
    cases hs
    have hm := Query.first_mem hq
    simp only [cwdRows, List.mem_filter, Bool.and_eq_true, decide_eq_true_eq] at hm
    exact ⟨r, hm.1, hm.2.1.1.1, rfl, rfl⟩

end History

/-! ## The suggestion engine -/

inductive Provenance
  | history | knowledge | llm
deriving DecidableEq

structure EngineSuggestion where
  command : Str
  provenance : Provenance
  score : Rat

def EngineSuggestion.fromHistory (s : Suggestion) : EngineSuggestion :=
  { command := s.command, provenance := .history, score := s.score }

/-- `SuggestEngine::suggest`: delegates to the history. -/
def SuggestEngine.suggest (h : History) (env : Env) (ctx : SuggestContext) :
    Except HistoryError (Option EngineSuggestion) := do
  let s ← h.suggest env ctx
  .ok (s.map EngineSuggestion.fromHistory)

/-- The engine only suggests commands of the host. -/
theorem SuggestEngine.suggest_mem {h : History} {env : Env} {ctx : SuggestContext} {s : EngineSuggestion}
    (hs : SuggestEngine.suggest h env ctx = .ok (some s)) :
    ∃ r ∈ h.rows, r.host = ctx.host ∧ r.command = s.command := by
  obtain ⟨o, hq, hs⟩ := except_bind_ok.1 hs
  simp only [Except.ok.injEq, Option.map_eq_some_iff] at hs
  obtain ⟨s', rfl, rfl⟩ := hs
  obtain ⟨r, hm, hh, hc, -⟩ := History.suggest_mem hq
  exact ⟨r, hm, hh, hc⟩

end TinySsh
