import TinySsh.History
import TinySsh.Lib.Lts
import Mathlib.Data.List.Nodup

/-!
# Runs of calls

A history in use: calls of `record` and `set_exit_code` in any order, each with answers of SQLite and the clock of its
own. A call that fails leaves the table as it is.

The log of a run (`log`) has what was recorded, in order: each entry under the id that `record` returned, with the clock
for a zero timestamp and the exit code that was set last. Read back, the table is the log (`rows_run`), and `recent`
returns the newest of its entries (`recent_readBack`).
-/

namespace TinySsh

open Text Lts

/-! ## Calls -/

/-- A call of `record`. -/
structure Recording where
  env : Env
  entry : HistoryEntry
  /-- `u64` -/
  duration : ∀ d ∈ entry.durationMs, d < 2 ^ 64
  /-- The seconds of a `SystemTime` are an `i64`. -/
  clock : ∀ s ∈ env.now, s < 2 ^ 63

inductive Call
  | record (c : Recording)
  | setExitCode (env : Env) (id : HistoryId) (exitCode : Int)

/-- The clock that a call reads. -/
def Call.now : Call → Option Nat
  | .record c => c.env.now
  | .setExitCode _ _ _ => none

/-- The time that a recorded entry has: the clock instead of a zero. -/
def Recording.time (c : Recording) : Int :=
  if c.entry.timestamp = 0 then (c.env.now.getD 0 : Nat) else c.entry.timestamp

namespace History

/-- The table after a call. An id is an `i64`, so no `INSERT` succeeds beyond it. -/
def call (h : History) : Call → Option History
  | .record c =>
    match h.record c.env c.entry with
    | .ok (id, h') => if id < 2 ^ 63 then some h' else none
    | .error _ => some h
  | .setExitCode env id exitCode =>
    match h.setExitCode env id exitCode with
    | .ok h' => some h'
    | .error _ => some h

/-- The exit code that the calls set last for an id. -/
def lastCode (id : HistoryId) : List Call → Option Int
  | [] => none
  | .record _ :: l => lastCode id l
  | .setExitCode env i exitCode :: l =>
    (lastCode id l).or (if env.writeOk = true ∧ i = id then some exitCode else none)

/-- The entry that a call records, as it is after the later calls `l`. -/
def entryOf (h : History) (l : List Call) : Call → Option HistoryEntry
  | .record c =>
    match h.record c.env c.entry with
    | .ok (id, _) =>
      some { c.entry with id := some id, timestamp := c.time, exitCode := (lastCode id l).or c.entry.exitCode }
    | .error _ => none
  | .setExitCode _ _ _ => none

/-- **What the calls record, in order.** -/
def log (h : History) : List Call → List HistoryEntry
  | [] => []
  | c :: l => (h.entryOf l c).toList ++ ((h.call c).map (log · l)).getD []

/-! ## One call -/

variable {h h' : History} {c : Call} {l : List Call} {env : Env} {r : Row}

theorem asU64_asI64 {d : Nat} (hd : d < 2 ^ 64) : asU64 (asI64 d) = d := by
  unfold asU64 asI64
  split <;> omega

theorem map_asU64 {o : Option Nat} (ho : ∀ d ∈ o, d < 2 ^ 64) : (o.map asI64).map asU64 = o := by
  cases o with
  | none => rfl
  | some d => exact congrArg some (asU64_asI64 (ho d rfl))

theorem stamp_ok {c : Recording} {t : Int} (h : stamp c.env c.entry = .ok t) :
    t = c.time ∧ (c.entry.timestamp = 0 → c.env.now.isSome) := by
  unfold stamp nowUnixSecs at h
  unfold Recording.time
  split at h
  · rename_i hzero
    rw [if_pos hzero]
    cases hnow : c.env.now with
    | none => simp [hnow] at h
    | some secs =>
      have hsecs := c.clock secs hnow
      simp only [hnow, asI64, if_pos hsecs, Except.ok.injEq] at h
      exact ⟨h.symm, fun _ => rfl⟩
  · rename_i hzero
    rw [if_neg hzero]
    exact ⟨(Except.ok.inj h).symm, fun h0 => absurd h0 hzero⟩

/-- An entry after the calls `l`. -/
def codeAfter (l : List Call) (e : HistoryEntry) : HistoryEntry :=
  { e with exitCode := (e.id.bind (lastCode · l)).or e.exitCode }

@[simp] theorem codeAfter_nil (e : HistoryEntry) : codeAfter [] e = e := by
  cases e with
  | mk id => cases id <;> rfl

/-- What a row becomes when an exit code is set. -/
def withCode (id : HistoryId) (exitCode : Int) (r : Row) : Row :=
  if r.id = id then { r with exitCode := some exitCode } else r

@[simp] theorem withCode_id (id : HistoryId) (exitCode : Int) (r : Row) : (withCode id exitCode r).id = r.id := by
  unfold withCode
  split <;> rfl

@[simp] theorem withCode_timestamp (id : HistoryId) (exitCode : Int) (r : Row) :
    (withCode id exitCode r).timestamp = r.timestamp := by
  unfold withCode
  split <;> rfl

/-- A row that is read back after its code was set and other calls were made. -/
theorem codeAfter_withCode {id : HistoryId} {exitCode : Int} (hw : env.writeOk = true) (l : List Call) (r : Row) :
    codeAfter l (rowToEntry (withCode id exitCode r)) =
      codeAfter (.setExitCode env id exitCode :: l) (rowToEntry r) := by
  by_cases hid : r.id = id
  · simp [codeAfter, withCode, rowToEntry, lastCode, hw, hid]
  · simp [codeAfter, withCode, rowToEntry, lastCode, hw, hid, Ne.symm hid]

/-- **What a call does**: nothing, when it fails; or it sets the code of a row; or it appends a row that reads back as
the entry recorded. -/
theorem call_cases (hc : h.call c = some h') :
    (h' = h ∧ (∀ l, h.entryOf l c = none) ∧ ∀ id l, lastCode id (c :: l) = lastCode id l) ∨
      (∃ env id exitCode, c = .setExitCode env id exitCode ∧ env.writeOk = true ∧
        h' = { h with rows := h.rows.map (withCode id exitCode) }) ∨
      ∃ rec r, c = .record rec ∧ h' = { rows := h.rows ++ [r], lastId := r.id } ∧ r.id = h.lastId + 1 ∧ r.id < 2 ^ 63 ∧
        r.timestamp = rec.time ∧ (rec.entry.timestamp = 0 → rec.env.now.isSome) ∧
        ∀ l, h.entryOf l c = some (codeAfter l (rowToEntry r)) := by
  cases c with
  | setExitCode env id exitCode =>
    by_cases hw : env.writeOk = true
    · simp only [call, setExitCode, hw, if_true, Option.some.injEq] at hc
      exact .inr (.inl ⟨env, id, exitCode, rfl, hw, hc.symm⟩)
    · simp only [call, setExitCode, hw, Bool.false_eq_true, if_false, Option.some.injEq] at hc
      exact .inl ⟨hc.symm, fun _ => rfl, by simp [lastCode, hw]⟩
  | record c =>
    cases hrec : h.record c.env c.entry with
    | error e =>
      simp only [call, hrec, Option.some.injEq] at hc
      exact .inl ⟨hc.symm, fun _ => by simp [entryOf, hrec], fun _ _ => rfl⟩
    | ok p =>
      obtain ⟨id, h₁⟩ := p
      simp only [call, hrec, Option.ite_none_right_eq_some, Option.some.injEq] at hc
      obtain ⟨hid, rfl⟩ := hc
      obtain ⟨ts, hts, hok⟩ := except_bind_ok.1 hrec
      obtain ⟨rfl, hsome⟩ := stamp_ok hts
      split at hok
      · cases hok
        refine .inr (.inr ⟨c, _, rfl, rfl, rfl, hid, rfl, hsome, fun l => ?_⟩)
        simp [entryOf, hrec, codeAfter, rowToEntry, map_asU64 c.duration, HistorySource.parse_asStr]
      · cases hok

/-! ## Runs -/

/-- **Read back, the table is the log**, behind the rows that were there. -/
theorem rows_run (hr : run call h l = some h') :
    h'.rows.map rowToEntry = h.rows.map (fun r => codeAfter l (rowToEntry r)) ++ h.log l := by
  induction l generalizing h with
  | nil =>
    cases hr
    simp [log]
  | cons c l ih =>
    obtain ⟨h₁, hc, hr⟩ := run_cons_some hr
    have hlog : h.log (c :: l) = (h.entryOf l c).toList ++ h₁.log l := by simp [log, hc]
    rw [ih hr, hlog]
    obtain ⟨rfl, hnone, hcode⟩ | ⟨env, id, exitCode, rfl, hw, rfl⟩ | ⟨rec, r, rfl, rfl, -, -, -, -, hentry⟩ :=
      call_cases hc
    · simp [hnone, codeAfter, hcode]
    · have hmap : ∀ r, codeAfter l (rowToEntry (withCode id exitCode r)) =
          codeAfter (.setExitCode env id exitCode :: l) (rowToEntry r) := codeAfter_withCode hw l
      simp [entryOf, hmap]
    · rw [hentry]
      simp [codeAfter, lastCode]

/-- The table hands out its ids in ascending order, and they are `i64`s. -/
structure Wf (h : History) : Prop where
  ascending : h.rows.Pairwise fun a b => a.id < b.id
  le : ∀ r ∈ h.rows, r.id ≤ h.lastId
  length : (h.rows.length : Int) ≤ h.lastId
  bound : (h.lastId : Int) < 2 ^ 63

theorem wf_new : Wf {} := ⟨.nil, by simp, by simp, by simp⟩

theorem Wf.call (hw : Wf h) (hc : h.call c = some h') : Wf h' := by
  obtain ⟨rfl, -, -⟩ | ⟨env, id, exitCode, rfl, -, rfl⟩ | ⟨rec, r, rfl, rfl, hid, hbound, -, -, -⟩ := call_cases hc
  · exact hw
  · refine ⟨?_, ?_, by simpa using hw.length, hw.bound⟩
    · rw [List.pairwise_map]
      simpa using hw.ascending
    · simpa using hw.le
  · have hlt : ∀ x ∈ h.rows, x.id < r.id := fun x hx => hid ▸ Int.lt_add_one_of_le (hw.le x hx)
    refine ⟨?_, ?_, ?_, hbound⟩
    · rw [List.pairwise_append]
      exact ⟨hw.ascending, List.pairwise_singleton _ _, fun x hx y hy => List.mem_singleton.1 hy ▸ hlt x hx⟩
    · intro x hx
      rcases List.mem_append.1 hx with hx | hx
      · exact (hlt x hx).le
      · exact List.mem_singleton.1 hx ▸ le_refl _
    · rw [List.length_append, List.length_singleton, hid]
      exact Int.add_le_add_right hw.length 1

theorem wf_run (hr : run History.call {} l = some h) : Wf h :=
  run_inv (fun hw hc => hw.call hc) wf_new hr

theorem Wf.nodup (hw : Wf h) : (h.rows.map (·.id)).Nodup :=
  List.pairwise_map.2 (hw.ascending.imp fun hlt => ne_of_lt hlt)

/-- A row is known by its id. -/
theorem Wf.eq_of_id {x y : Row} (hw : Wf h) (hx : x ∈ h.rows) (hy : y ∈ h.rows) (hid : x.id = y.id) : x = y := by
  exact List.inj_on_of_nodup_map hw.nodup hx hy hid

/-- From the empty table, the rows are the log. -/
theorem rows_new (hr : run History.call {} l = some h) : h.rows.map rowToEntry = log {} l := by
  simpa using rows_run hr

/-- The entries of a host, from its rows. -/
theorem filter_log (hr : run History.call {} l = some h) (host : Str) :
    (log {} l).filter (·.host = host) = (h.rows.filter (·.host = host)).map rowToEntry := by
  rw [← rows_new hr, List.filter_map]
  rfl

/-! ## Reading back -/

/-- The newest of the entries of a host, as many as the limit allows. -/
structure ReadBack (recorded : List HistoryEntry) (host : Str) (limit : Nat) (out : List HistoryEntry) : Prop where
  length : out.length = min limit (recorded.filter (·.host = host)).length
  mem : ∀ e ∈ out, e ∈ recorded ∧ e.host = host
  distinct : (out.map (·.id)).Nodup
  sorted : out.Pairwise fun a b => b.timestamp ≤ a.timestamp
  newest : ∀ x ∈ recorded, x.host = host → x ∉ out → ∀ e ∈ out, x.timestamp ≤ e.timestamp

theorem Wf.length_lt (hw : Wf h) : h.rows.length < 2 ^ 63 := by
  have hlen := hw.length.trans_lt hw.bound
  omega

/-- A limit that is negative as an `i64` is no limit, but then the table has no row beyond it. -/
theorem recent_eq (hw : Wf h) {host : Str} {l : List Row}
    (hl : env.recentQuery.rows (h.rows.filter fun r => r.host = host) = some l) (limit : UInt64) :
    h.recent env host limit.toNat = .ok ((l.take limit.toNat).map rowToEntry) := by
  have hlen : l.length < 2 ^ 63 := by
    rw [(env.recentQuery.perm hl).length_eq]
    exact (List.length_filter_le _ _).trans_lt hw.length_lt
  have hlimit := limit.toNat_lt
  unfold recent
  rw [hl]
  dsimp only
  by_cases hneg : asI64 limit.toNat < 0
  · have hle : l.length ≤ limit.toNat := by
      unfold asI64 at hneg
      split at hneg <;> omega
    rw [if_pos hneg, List.take_of_length_le hle]
  · rw [if_neg hneg]

/-- **What is recorded is what is read back.** -/
theorem recent_readBack (hr : run History.call {} l = some h) (ha : ∀ m, (env.recentQuery.rows m).isSome) (host : Str)
    (limit : UInt64) :
    ((log {} l).map (·.id)).Nodup ∧
      ∃ out, h.recent env host limit.toNat = .ok out ∧ ReadBack (log {} l) host limit.toNat out := by
  have hw := wf_run hr
  obtain ⟨rows, hrows⟩ := Option.isSome_iff_exists.1 (ha (h.rows.filter fun r => r.host = host))
  have hperm := env.recentQuery.perm hrows
  have hsorted := env.recentQuery.sorted hrows
  have hmem : ∀ r ∈ rows, r ∈ h.rows ∧ r.host = host := fun r hr => by
    simpa using hperm.mem_iff.1 hr
  have hids : ∀ {m : List Row}, (m.map (·.id)).Nodup → ((m.map rowToEntry).map (·.id)).Nodup := fun {m} hm => by
    rw [List.map_map]
    exact List.pairwise_map.2 ((List.pairwise_map.1 hm).imp fun hne heq => hne (Option.some.inj heq))
  refine ⟨?_, _, recent_eq hw hrows limit, ?_, ?_, ?_, ?_, ?_⟩
  · rw [← rows_new hr]
    exact hids hw.nodup
  · rw [filter_log hr, List.length_map, List.length_map, List.length_take, hperm.length_eq]
  · intro e he
    obtain ⟨r, hr', rfl⟩ := List.mem_map.1 he
    obtain ⟨hrows', hhost⟩ := hmem r (List.mem_of_mem_take hr')
    exact ⟨rows_new hr ▸ List.mem_map_of_mem hrows', hhost⟩
  · refine hids ?_
    have hall : (rows.map (·.id)).Nodup :=
      ((hperm.map _).nodup_iff).2 (hw.nodup.sublist ((List.filter_sublist).map _))
    exact hall.sublist ((List.take_sublist _ _).map _)
  · exact List.pairwise_map.2 (hsorted.sublist (List.take_sublist _ _))
  · intro x hx hhost hout e he
    rw [← rows_new hr] at hx
    obtain ⟨r, hr', rfl⟩ := List.mem_map.1 hx
    obtain ⟨q, hq, rfl⟩ := List.mem_map.1 he
    -- a row that is left out comes after the ones returned
    have hdrop : r ∈ rows.drop limit.toNat := by
      have hin : r ∈ rows := hperm.mem_iff.2 (by simpa using ⟨hr', hhost⟩)
      rw [← List.take_append_drop limit.toNat rows, List.mem_append] at hin
      exact hin.resolve_left fun htake => hout (List.mem_map_of_mem htake)
    rw [← List.take_append_drop limit.toNat rows, List.pairwise_append] at hsorted
    exact hsorted.2.2 q hq r hdrop

/-- A command that is entered on a host in a directory, at the given second. -/
def enteredIn (host : Str) (cwd : Option Str) (command : Str) (now : Nat) (hnow : now < 2 ^ 63) : Recording where
  env := .stable now
  entry := { host, user := ['u'], cwd, command, timestamp := 0, exitCode := none, durationMs := some (2 ^ 63),
             source := .user }
  duration := by simp
  clock := by simpa [Env.stable] using hnow

/-- A command that is entered at the seventh second. -/
def entered (command : Str) : Recording := enteredIn ['h'] none command 7 (by decide)

/-- Its row. -/
def enteredRow (id : HistoryId) (command : Str) (exitCode : Option Int) : Row :=
  { id, host := ['h'], user := ['u'], cwd := none, command, timestamp := 7, exitCode, durationMs := some (-2 ^ 63),
    source := "user" }

/-- Commands on two hosts, the first in a directory; it fails. The code of another is not set, for the call fails. -/
def usedCalls : List Call :=
  [.record (enteredIn ['h'] (some ['/']) ['l', 's'] 7 (by decide)), .record (enteredIn ['k'] none ['l'] 8 (by decide)),
   .setExitCode (.stable 8) 1 2, .record (enteredIn ['h'] none ['p', 's'] 9 (by decide)),
   .setExitCode { Env.stable 9 with writeOk := false } 3 1,
   .record (enteredIn ['h'] none ['l', 's', 'b'] 12 (by decide))]

/-- The table that they build. -/
def usedHistory : History :=
  ⟨[{ enteredRow 1 ['l', 's'] (some 2) with cwd := some ['/'] },
    { enteredRow 2 ['l'] none with host := ['k'], timestamp := 8 },
    { enteredRow 3 ['p', 's'] none with timestamp := 9 },
    { enteredRow 4 ['l', 's', 'b'] none with timestamp := 12 }], 4⟩

/-- The two newest of three. -/
theorem recent_readBack_used : ((log {} usedCalls).map (·.id)).Nodup ∧
    ∃ out, usedHistory.recent (.stable 13) ['h'] (UInt64.toNat 2) = .ok out ∧
      ReadBack (log {} usedCalls) ['h'] (UInt64.toNat 2) out :=
  recent_readBack rfl (fun _ => rfl) ['h'] 2

end History

end TinySsh
