import TinySsh.History.Calls
import TinySsh.Lib.Ranked

/-!
# What is suggested, and in which order entries are read

`suggest` asks for the newest row of a pool: the rows of the current directory that complete what is typed if there are
any, and otherwise those of the host (`pool`, `suggestedRow_newest`). Every newest row of the pool is returned by some
world (`suggestedRow_prefer`).

* `suggest_ranks`: so a suggestion is one of the best rows of the host, and there is one whenever a row completes what
  is typed.
* `last_recorded_iff`: the row recorded last, and the entries in the reverse order of their recording, are returned
  only where the seconds tell them apart.
-/

namespace TinySsh

open Text Lts

/-! ## What the statements return -/

/-- One of the newest rows with a property. -/
def Newest (p : Row → Prop) (r : Row) : Prop := p r ∧ ∀ x, p x → x.timestamp ≤ r.timestamp

/-- The statements of `suggest` do not fail. -/
def Env.Answers (env : Env) : Prop := ∀ m, (env.cwdQuery.rows m).isSome ∧ (env.hostQuery.rows m).isSome

/-- `LIMIT 1` returns a row if there is one, and then a newest one. -/
theorem Query.first_newest {q : Query} {m : List Row} (h : (q.rows m).isSome) :
    ∃ o, q.first m = .ok o ∧ (o = none ↔ m = []) ∧ ∀ r, o = some r → Newest (· ∈ m) r := by
  obtain ⟨l, hl⟩ := Option.isSome_iff_exists.1 h
  have hperm := q.perm hl
  refine ⟨l.head?, by simp [first, hl], ?_, fun r hr => ⟨hperm.mem_iff.1 (List.mem_of_head? hr), fun x hx => ?_⟩⟩
  · rw [List.head?_eq_none_iff]
    exact ⟨fun h => (h ▸ hperm).nil_eq.symm, fun h => (h ▸ hperm).eq_nil⟩
  · obtain ⟨l', rfl⟩ := List.head?_eq_some_iff.1 hr
    rcases List.mem_cons.1 (hperm.mem_iff.2 hx) with rfl | hx
    · exact le_refl _
    · exact (List.pairwise_cons.1 (q.sorted hl)).1 x hx

deriving instance DecidableEq for Row

/-- A stable sort that puts the row first where it is a newest one. -/
def Query.prefer (r : Row) : Query where
  rows m :=
    if r ∈ m ∧ ∀ x ∈ m, x.timestamp ≤ r.timestamp then
      some (r :: (m.erase r).insertionSort fun a b => b.timestamp ≤ a.timestamp)
    else some (m.insertionSort fun a b => b.timestamp ≤ a.timestamp)
  perm {m l} h := by
    split at h <;> cases h
    · rename_i hr
      exact ((List.perm_insertionSort _ _).cons r).trans (List.perm_cons_erase hr.1).symm
    · exact List.perm_insertionSort _ _
  sorted {m l} h := by
    have hsort : ∀ m : List Row, (m.insertionSort fun a b => b.timestamp ≤ a.timestamp).Pairwise
        fun a b => b.timestamp ≤ a.timestamp := fun m =>
      List.pairwise_insertionSort (fun a b : Row => b.timestamp ≤ a.timestamp) m
    split at h <;> cases h
    · rename_i hr
      refine List.pairwise_cons.2 ⟨fun x hx => hr.2 x ?_, hsort _⟩
      exact List.mem_of_mem_erase ((List.perm_insertionSort _ _).mem_iff.1 hx)
    · exact hsort _

/-- A world where nothing fails and the statements prefer the row. -/
def Env.prefer (r : Row) : Env := ⟨some 0, true, .prefer r, .prefer r, .stable⟩

theorem Env.prefer_answers (r : Row) : (Env.prefer r).Answers := by
  have hsome : ∀ m, ((Query.prefer r).rows m).isSome := fun m => by
    unfold Query.prefer
    dsimp only
    split <;> rfl
  exact fun m => ⟨hsome m, hsome m⟩

theorem Query.first_prefer {r : Row} {m : List Row} (h : Newest (· ∈ m) r) :
    (Query.prefer r).first m = .ok (some r) := by
  have hrows : (Query.prefer r).rows m =
      some (r :: (m.erase r).insertionSort fun a b => b.timestamp ≤ a.timestamp) := if_pos h
  simp [first, hrows]

/-- A statement that answers for some rows with the given order of them. -/
def Query.give {m l : List Row} (hperm : l.Perm m) (hsorted : l.Pairwise fun a b => b.timestamp ≤ a.timestamp) :
    Query where
  rows x := if x = m then some l else Query.stable.rows x
  perm {x y} h := by
    split at h
    · rename_i hx
      cases h
      exact hx ▸ hperm
    · exact Query.stable.perm h
  sorted {x y} h := by
    split at h
    · cases h
      exact hsorted
    · exact Query.stable.sorted h

theorem Query.give_isSome {m l : List Row} (hperm : l.Perm m)
    (hsorted : l.Pairwise fun a b => b.timestamp ≤ a.timestamp) (x : List Row) :
    ((Query.give hperm hsorted).rows x).isSome := by
  unfold Query.give
  dsimp only
  split <;> rfl

namespace History

variable {h : History} {env : Env} {ctx : SuggestContext} {r : Row}

/-- The rows that the answer of `suggest` is taken from. -/
def pool (h : History) (ctx : SuggestContext) : List Row :=
  match ctx.cwd with
  | some cwd => if h.cwdRows ctx cwd = [] then h.hostRows ctx else h.cwdRows ctx cwd
  | none => h.hostRows ctx

/-- The row that the answer of `suggest` is made of. -/
def suggestedRow (h : History) (env : Env) (ctx : SuggestContext) : Except HistoryError (Option Row) :=
  match ctx.cwd with
  | none => env.hostQuery.first (h.hostRows ctx)
  | some cwd => do
    match ← env.cwdQuery.first (h.cwdRows ctx cwd) with
    | some r => .ok (some r)
    | none => env.hostQuery.first (h.hostRows ctx)

/-- `suggest` answers with the row. -/
theorem suggest_row (hne : ctx.typed ≠ []) :
    (h.suggest env ctx).map (Option.map fun s => (s.sourceId, s.command)) =
      (h.suggestedRow env ctx).map (Option.map fun r => (r.id, r.command)) := by
  have hhost : (h.suggestHost env ctx).map (Option.map fun s => (s.sourceId, s.command)) =
      (env.hostQuery.first (h.hostRows ctx)).map (Option.map fun r => (r.id, r.command)) := by
    unfold suggestHost
    cases env.hostQuery.first (h.hostRows ctx) with
    | error e => rfl
    | ok o => cases o <;> rfl
  unfold suggest suggestedRow
  rw [if_neg hne]
  cases ctx.cwd with
  | none => exact hhost
  | some cwd =>
    dsimp only
    cases env.cwdQuery.first (h.cwdRows ctx cwd) with
    | error e => rfl
    | ok o =>
      cases o with
      | none => exact hhost
      | some r => rfl

theorem suggest_ok (hne : ctx.typed ≠ []) {o : Option Row} (ho : h.suggestedRow env ctx = .ok o) :
    ∃ s, h.suggest env ctx = .ok s ∧
      s.map (fun s => (s.sourceId, s.command)) = o.map fun r => (r.id, r.command) := by
  have hrow := @suggest_row h env ctx hne
  rw [ho] at hrow
  cases hs : h.suggest env ctx with
  | error e =>
    rw [hs] at hrow
    cases hrow
  | ok s =>
    rw [hs] at hrow
    exact ⟨s, rfl, Except.ok.inj hrow⟩

/-- So does the engine. -/
theorem suggest_suggestedRow (hne : ctx.typed ≠ []) :
    (SuggestEngine.suggest h env ctx).map (Option.map (·.command)) =
      (h.suggestedRow env ctx).map (Option.map (·.command)) := by
  calc
    (SuggestEngine.suggest h env ctx).map (Option.map (·.command))
    _ = ((h.suggest env ctx).map (Option.map fun s => (s.sourceId, s.command))).map (Option.map Prod.snd) := by
      unfold SuggestEngine.suggest
      cases h.suggest env ctx with
      | error e => rfl
      | ok o => cases o <;> rfl
    _ = ((h.suggestedRow env ctx).map (Option.map fun r => (r.id, r.command))).map (Option.map Prod.snd) := by
      rw [suggest_row hne]
    _ = (h.suggestedRow env ctx).map (Option.map (·.command)) := by
      cases h.suggestedRow env ctx with
      | error e => rfl
      | ok o => cases o <;> rfl

/-- **The row is a newest one of the pool**, if the statements do not fail. -/
theorem suggestedRow_newest (ha : env.Answers) :
    ∃ o, h.suggestedRow env ctx = .ok o ∧ (o = none ↔ h.pool ctx = []) ∧
      ∀ r, o = some r → Newest (· ∈ h.pool ctx) r := by
  have hhost := Query.first_newest (ha (h.hostRows ctx)).2
  unfold suggestedRow pool
  cases ctx.cwd with
  | none => exact hhost
  | some cwd =>
    obtain ⟨o, ho, hnone, hnewest⟩ := Query.first_newest (ha (h.cwdRows ctx cwd)).1
    dsimp only
    rw [ho]
    cases o with
    | none =>
      rw [if_pos (hnone.1 rfl)]
      exact hhost
    | some r =>
      have hrows : h.cwdRows ctx cwd ≠ [] := fun hnil => nomatch hnone.2 hnil
      rw [if_neg hrows]
      exact ⟨some r, rfl, hnone, hnewest⟩

/-- Every newest row of the pool is the row in some world. -/
theorem suggestedRow_prefer (hr : Newest (· ∈ h.pool ctx) r) : h.suggestedRow (.prefer r) ctx = .ok (some r) := by
  unfold suggestedRow
  unfold pool at hr
  cases hc : ctx.cwd with
  | none =>
    rw [hc] at hr
    exact Query.first_prefer hr
  | some cwd =>
    simp only [hc] at hr ⊢
    by_cases hnil : h.cwdRows ctx cwd = []
    · rw [if_pos hnil] at hr
      obtain ⟨o, ho, hnone, -⟩ := Query.first_newest (Env.prefer_answers r (h.cwdRows ctx cwd)).1
      rw [ho, hnone.2 hnil]
      exact Query.first_prefer hr
    · rw [if_neg hnil] at hr
      have hfirst : (Env.prefer r).cwdQuery.first (h.cwdRows ctx cwd) = .ok (some r) := Query.first_prefer hr
      rw [hfirst]
      rfl

/-! ## The ranking -/

/-- A row completes what is typed: every character stands for itself, up to the case of ASCII letters. -/
def Matches (ctx : SuggestContext) (r : Row) : Prop :=
  r.host = ctx.host ∧ r.command ≠ ctx.typed ∧ ctx.typed.map Char.toLower <+: r.command.map Char.toLower

theorem mem_hostRows : r ∈ h.hostRows ctx ↔ r ∈ h.rows ∧ Matches ctx r := by
  simp only [hostRows, Matches, List.mem_filter, Bool.and_eq_true, decide_eq_true_eq, like_escape]
  tauto

theorem mem_cwdRows {cwd : Str} : r ∈ h.cwdRows ctx cwd ↔ r ∈ h.rows ∧ Matches ctx r ∧ r.cwd = some cwd := by
  simp only [cwdRows, Matches, List.mem_filter, Bool.and_eq_true, decide_eq_true_eq, like_escape]
  tauto

/-- The two pools: the rows of the directory, if there are any, or all of the host. -/
theorem pool_cases (h : History) (ctx : SuggestContext) :
    (∃ cwd, ctx.cwd = some cwd ∧ h.cwdRows ctx cwd ≠ [] ∧ h.pool ctx = h.cwdRows ctx cwd) ∨
      (∀ cwd, ctx.cwd = some cwd → h.cwdRows ctx cwd = []) ∧ h.pool ctx = h.hostRows ctx := by
  unfold pool
  cases ctx.cwd with
  | none => exact .inr ⟨by simp, rfl⟩
  | some cwd =>
    by_cases hnil : h.cwdRows ctx cwd = []
    · exact .inr ⟨by simp [hnil], if_pos hnil⟩
    · exact .inl ⟨cwd, rfl, hnil, if_neg hnil⟩

theorem mem_of_pool (hr : r ∈ h.pool ctx) : r ∈ h.rows ∧ Matches ctx r := by
  obtain ⟨cwd, -, -, hpool⟩ | ⟨-, hpool⟩ := pool_cases h ctx
  · obtain ⟨hrows, hmatches, -⟩ := mem_cwdRows.1 (hpool ▸ hr)
    exact ⟨hrows, hmatches⟩
  · exact mem_hostRows.1 (hpool ▸ hr)

theorem pool_eq_nil : h.pool ctx = [] ↔ ∀ r ∈ h.rows, ¬ Matches ctx r := by
  constructor
  · intro hnil r hr hmatches
    obtain ⟨cwd, -, hne, hpool⟩ | ⟨-, hpool⟩ := pool_cases h ctx
    · exact hne (hpool.symm.trans hnil)
    · have hmem := mem_hostRows.2 ⟨hr, hmatches⟩
      rw [← hpool, hnil] at hmem
      cases hmem
  · intro hnone
    refine List.eq_nil_iff_forall_not_mem.2 fun r hr => ?_
    obtain ⟨hrows, hmatches⟩ := mem_of_pool hr
    exact hnone r hrows hmatches

theorem pool_sublist : (h.pool ctx).Sublist h.rows := by
  obtain ⟨cwd, -, -, hpool⟩ | ⟨-, hpool⟩ := pool_cases h ctx
  · exact hpool ▸ List.filter_sublist
  · exact hpool ▸ List.filter_sublist

/-- One of the best rows: a newest one of the directory if any matches there, and otherwise of the host. -/
structure Best (h : History) (ctx : SuggestContext) (r : Row) : Prop where
  mem : r ∈ h.rows
  completes : Matches ctx r
  here : ∀ cwd, ctx.cwd = some cwd → (∃ x ∈ h.rows, Matches ctx x ∧ x.cwd = some cwd) →
    Newest (fun x => x ∈ h.rows ∧ Matches ctx x ∧ x.cwd = some cwd) r
  anywhere : (∀ cwd, ctx.cwd = some cwd → ¬ ∃ x ∈ h.rows, Matches ctx x ∧ x.cwd = some cwd) →
    Newest (fun x => x ∈ h.rows ∧ Matches ctx x) r

/-- The newest rows of the pool are the best ones. -/
theorem best_of_newest (hr : Newest (· ∈ h.pool ctx) r) : Best h ctx r := by
  obtain ⟨hrows, hmatches⟩ := mem_of_pool hr.1
  obtain ⟨cwd, hcwd, hne, hpool⟩ | ⟨hnil, hpool⟩ := pool_cases h ctx <;> rw [hpool] at hr
  · have hn : Newest (fun x => x ∈ h.rows ∧ Matches ctx x ∧ x.cwd = some cwd) r := by
      simpa [Newest, mem_cwdRows] using hr
    refine ⟨hrows, hmatches, fun cwd' hcwd' _ => ?_, fun hnone => ?_⟩
    · obtain rfl : cwd = cwd' := Option.some.inj (hcwd.symm.trans hcwd')
      exact hn
    · exact absurd ⟨r, hn.1⟩ (hnone cwd hcwd)
  · have hn : Newest (fun x => x ∈ h.rows ∧ Matches ctx x) r := by
      simpa [Newest, mem_hostRows] using hr
    refine ⟨hrows, hmatches, fun cwd hcwd => ?_, fun _ => hn⟩
    rintro ⟨x, hx, hxmatches, hxcwd⟩
    have hmem := mem_cwdRows.2 ⟨hx, hxmatches, hxcwd⟩
    rw [hnil cwd hcwd] at hmem
    cases hmem

/-- `suggest` sees the rows of its host only. -/
theorem suggest_congr {h' : History} (hrows : h'.rows.filter (·.host = ctx.host) = h.rows.filter (·.host = ctx.host)) :
    h'.suggest env ctx = h.suggest env ctx := by
  have hhost : ∀ k : History, k.hostRows ctx = (k.rows.filter (·.host = ctx.host)).filter fun r =>
      like (likeEscape ctx.typed ++ ['%']) r.command && r.command ≠ ctx.typed := fun k => by
    rw [hostRows, List.filter_filter]
    exact List.filter_congr fun r _ => by ac_rfl
  have hcwd : ∀ (k : History) (cwd : Str), k.cwdRows ctx cwd = (k.rows.filter (·.host = ctx.host)).filter fun r =>
      r.cwd = some cwd && like (likeEscape ctx.typed ++ ['%']) r.command && r.command ≠ ctx.typed := fun k cwd => by
    rw [cwdRows, List.filter_filter]
    exact List.filter_congr fun r _ => by ac_rfl
  simp only [suggest, suggestHost, hhost, hcwd, hrows]

/-- **The ranking**: a best row of the host, whatever the others hold, and one whenever a row matches. -/
def Ranks (h : History) (env : Env) (ctx : SuggestContext) : Prop :=
  ∃ o, h.suggest env ctx = .ok o ∧
    (o = none ↔ ctx.typed = [] ∨ ∀ r ∈ h.rows, ¬ Matches ctx r) ∧
    (∀ s, o = some s → ∃ r, Best h ctx r ∧ r.command = s.command ∧ r.id = s.sourceId ∧
      ∀ x ∈ h.rows, x.id = s.sourceId → x = r) ∧
    ∀ h' : History, h'.rows.filter (·.host = ctx.host) = h.rows.filter (·.host = ctx.host) →
      h'.suggest env ctx = h.suggest env ctx

variable {l : List Call}

/-- **`suggest` ranks**, on every table that calls build. -/
theorem suggest_ranks (hr : run call {} l = some h) (ha : env.Answers) (ctx : SuggestContext) : h.Ranks env ctx := by
  by_cases hne : ctx.typed = []
  · exact ⟨none, if_pos hne, iff_of_true rfl (.inl hne), fun s hs => (by cases hs), fun h' => suggest_congr⟩
  obtain ⟨o, ho, hnone, hnewest⟩ := @suggestedRow_newest h env ctx ha
  obtain ⟨o', ho', hsame⟩ := suggest_ok hne ho
  refine ⟨o', ho', ?_, ?_, fun h' => suggest_congr⟩
  · rw [← pool_eq_nil, ← hnone, or_iff_right hne, ← Option.map_eq_none_iff, hsame, Option.map_eq_none_iff]
  · rintro s rfl
    obtain ⟨r, rfl, heq⟩ := Option.map_eq_some_iff.1 hsame.symm
    obtain ⟨hid, hcommand⟩ := Prod.mk.inj heq
    have hbest := best_of_newest (hnewest r rfl)
    exact ⟨r, hbest, hcommand, hid, fun x hx hxid => (wf_run hr).eq_of_id hx hbest.mem (hxid.trans hid.symm)⟩

/-- `L` in the directory of `ls`. -/
theorem suggest_ranks_used : usedHistory.Ranks (.stable 13) ⟨['h'], some ['/'], ['L']⟩ :=
  suggest_ranks (l := usedCalls) rfl (fun _ => ⟨rfl, rfl⟩) ⟨['h'], some ['/'], ['L']⟩

/-! ## The order of recording -/

/-- The entries are stamped by a clock that never goes backwards. -/
structure Stamped (l : List Call) : Prop where
  stamped : ∀ c, Call.record c ∈ l → c.entry.timestamp = 0
  forwards : (l.filterMap Call.now).Pairwise (· ≤ ·)

theorem Stamped.init {a : List Call} (hs : Stamped (l ++ a)) : Stamped l := by
  refine ⟨fun c hc => hs.stamped c (List.mem_append_left _ hc), ?_⟩
  have hall := hs.forwards
  rw [List.filterMap_append, List.pairwise_append] at hall
  exact hall.1

/-- The rows are in the order of their timestamps, all of which are readings of the clock. -/
structure Forwards (l : List Call) (h : History) : Prop where
  pairwise : h.rows.Pairwise fun a b => a.timestamp ≤ b.timestamp
  read : ∀ r ∈ h.rows, ∃ secs : Nat, secs ∈ l.filterMap Call.now ∧ r.timestamp = secs

theorem Forwards.call {h' : History} {c : Call} (hf : Stamped l → Forwards l h) (hc : h.call c = some h')
    (hs : Stamped (l ++ [c])) : Forwards (l ++ [c]) h' := by
  obtain ⟨hpair, hread⟩ := hf hs.init
  have hmore : ∀ r ∈ h.rows, ∃ secs : Nat, secs ∈ (l ++ [c]).filterMap Call.now ∧ r.timestamp = secs := fun r hr => by
    obtain ⟨secs, hmem, heq⟩ := hread r hr
    exact ⟨secs, by rw [List.filterMap_append]; exact List.mem_append_left _ hmem, heq⟩
  obtain ⟨rfl, -, -⟩ | ⟨env, id, exitCode, rfl, -, rfl⟩ | ⟨rec, r, rfl, rfl, -, -, htime, hsome, -⟩ := call_cases hc
  · exact ⟨hpair, hmore⟩
  · refine ⟨?_, by simpa using hmore⟩
    rw [List.pairwise_map]
    simpa using hpair
  · have hzero := hs.stamped rec (by simp)
    obtain ⟨secs, hsecs⟩ := Option.isSome_iff_exists.1 (hsome hzero)
    have hstamp : r.timestamp = (secs : Nat) := by
      rw [htime, Recording.time, if_pos hzero, hsecs]
      rfl
    have hnow : (l ++ [Call.record rec]).filterMap Call.now = l.filterMap Call.now ++ [secs] := by
      simp [Call.now, hsecs]
    have hforwards := hs.forwards
    rw [hnow, List.pairwise_append] at hforwards
    refine ⟨List.pairwise_append.2 ⟨hpair, List.pairwise_singleton _ _, fun x hx y hy => ?_⟩, fun x hx => ?_⟩
    · obtain rfl := List.mem_singleton.1 hy
      obtain ⟨t, ht, heq⟩ := hread x hx
      have hle : t ≤ secs := hforwards.2.2 t ht secs (by simp)
      rw [heq, hstamp]
      exact_mod_cast hle
    · rcases List.mem_append.1 hx with hx | hx
      · exact hmore x hx
      · exact ⟨secs, by rw [hnow]; simp, List.mem_singleton.1 hx ▸ hstamp⟩

theorem forwards_run (hr : run call {} l = some h) (hs : Stamped l) : Forwards l h :=
  run_trace (I := fun l h => Stamped l → Forwards l h) (Q := fun _ => True) (fun hf _ hc hs => Forwards.call hf hc hs)
    (fun _ => ⟨.nil, by simp⟩) (fun _ _ => trivial) hr hs

/-- The last elements of a list have different timestamps. -/
def Apart {α : Type} (time : α → Int) (l : List α) (n : Nat) : Prop :=
  (l.reverse.take n).Pairwise fun a b => time a ≠ time b

/-- `recent` returns the entries of the host in the reverse order of their recording, whatever the database answers. -/
def RecentReversed (h : History) (l : List Call) (host : Str) (limit : UInt64) : Prop :=
  ∀ env : Env, (∀ m, (env.recentQuery.rows m).isSome) →
    h.recent env host limit.toNat = .ok (((log {} l).filter (·.host = host)).reverse.take limit.toNat)

/-- The rows that are eligible in the first pass that finds any, in the order of their recording. -/
def eligible (h : History) (ctx : SuggestContext) : List Row := if ctx.typed = [] then [] else h.pool ctx

/-- `suggest` returns the eligible row that was recorded last, whatever the database answers. -/
def SuggestsLast (h : History) (ctx : SuggestContext) : Prop :=
  ∀ env : Env, env.Answers → ∃ o, h.suggest env ctx = .ok o ∧
    o.map (fun s => (s.sourceId, s.command)) = (h.eligible ctx).getLast?.map fun r => (r.id, r.command)

/-- Newest first, the rows are ranked by their timestamps. -/
theorem Forwards.ranked (hf : Forwards l h) {m : List Row} (hm : m.Sublist h.rows) :
    Ranked Row.timestamp m.reverse :=
  List.pairwise_reverse.2 (hf.pairwise.sublist hm)

theorem Wf.ids_reverse (hw : Wf h) {m : List Row} (hm : m.Sublist h.rows) : (m.reverse.map (·.id)).Nodup := by
  rw [List.map_reverse, List.nodup_reverse]
  exact hw.nodup.sublist (hm.map _)

/-- **Entries are read in the reverse order of their recording exactly when the last of them, one more than the limit,
have different seconds.** -/
theorem recentReversed_iff (hr : run call {} l = some h) (hs : Stamped l) (host : Str) (limit : UInt64) :
    h.RecentReversed l host limit ↔
      Apart (·.timestamp) ((log {} l).filter (·.host = host)) (limit.toNat + 1) := by
  have hw := wf_run hr
  have hsub : (h.rows.filter (·.host = host)).Sublist h.rows := List.filter_sublist
  have hranked := (forwards_run hr hs).ranked hsub
  have hids := hw.ids_reverse hsub
  unfold RecentReversed Apart
  rw [filter_log hr, ← List.map_reverse, ← List.map_take, ← List.map_take, List.pairwise_map]
  constructor
  · intro hall
    by_contra hn
    obtain ⟨p, a, b, q, hl, hlen, hkey⟩ := hranked.exists_tie hn
    rw [hl] at hranked hids
    obtain ⟨hsorted, hperm⟩ := hranked.swap hkey
    -- a world that returns the two rows of the same second the other way round
    have hperm := hperm.trans (hl ▸ List.reverse_perm _)
    have hrecent := hall ⟨some 0, true, .stable, .stable, .give hperm hsorted⟩ (Query.give_isSome hperm hsorted)
    rw [recent_eq hw (if_pos rfl) limit, hl] at hrecent
    have hat := congrArg (fun o => o[p.length]?.bind (·.id)) (Except.ok.inj hrecent)
    have hlt : p.length < limit.toNat := by omega
    simp only [List.getElem?_map, List.getElem?_take_of_lt hlt, List.getElem?_append_right (le_refl _), Nat.sub_self,
      List.getElem?_cons_zero, Option.map_some, Option.bind_some, rowToEntry, Option.some.injEq] at hat
    rw [List.map_append, List.map_cons, List.map_cons, List.nodup_append] at hids
    exact (List.nodup_cons.1 hids.2.1).1 (hat ▸ List.mem_cons_self)
  · intro hapart env ha
    obtain ⟨rows, hrows⟩ := Option.isSome_iff_exists.1 (ha (h.rows.filter fun r => r.host = host))
    have hperm := (env.recentQuery.perm hrows).trans (List.reverse_perm _).symm
    rw [recent_eq hw hrows limit, Ranked.take_of_perm (env.recentQuery.sorted hrows) hranked hperm hapart]

/-- A newest row is the last one, if that is alone with its second. -/
theorem Forwards.newest_last (hf : Forwards l h) {m : List Row} (hm : m.Sublist h.rows)
    (hapart : Apart Row.timestamp m 2) {o : Option Row} (hnone : o = none ↔ m = [])
    (hnewest : ∀ r, o = some r → Newest (· ∈ m) r) : o = m.getLast? := by
  rw [List.getLast?_eq_head?_reverse]
  have hranked := hf.ranked hm
  unfold Apart at hapart
  cases hl : m.reverse with
  | nil => exact hnone.2 (List.reverse_eq_nil_iff.1 hl)
  | cons a q =>
    rw [hl] at hranked hapart
    have hmem : ∀ x, x ∈ m ↔ x ∈ a :: q := fun x => by rw [← List.mem_reverse, hl]
    cases o with
    | none =>
      rw [hnone.1 rfl] at hl
      cases hl
    | some r =>
      obtain ⟨hr, hmax⟩ := hnewest r rfl
      have hra : r = a := hranked.eq_of_le hapart ((hmem r).1 hr) (hmax a ((hmem a).2 List.mem_cons_self))
      rw [hra]
      rfl

/-- **The row recorded last is suggested exactly when no other eligible one has its second.** -/
theorem suggestsLast_iff (hr : run call {} l = some h) (hs : Stamped l) (ctx : SuggestContext) :
    h.SuggestsLast ctx ↔ Apart (·.timestamp) (h.eligible ctx) 2 := by
  have hranked := (forwards_run hr hs).ranked (@pool_sublist h ctx)
  have hids := (wf_run hr).ids_reverse (@pool_sublist h ctx)
  unfold SuggestsLast eligible
  by_cases hne : ctx.typed = []
  · simp only [hne, if_true, Apart, List.reverse_nil, List.take_nil, List.Pairwise.nil, iff_true]
    exact fun env _ => ⟨none, if_pos hne, rfl⟩
  simp only [hne, if_false]
  constructor
  · intro hall
    by_contra hn
    obtain ⟨p, a, b, q, hl, hlen, hkey⟩ := hranked.exists_tie hn
    obtain rfl : p = [] := List.eq_nil_of_length_eq_zero (by omega)
    rw [hl] at hranked hids
    -- a world that returns the other row of the same second
    have hnewest : Newest (· ∈ h.pool ctx) b := by
      have hmem : ∀ x, x ∈ h.pool ctx ↔ x ∈ a :: b :: q := fun x => by rw [← List.mem_reverse, hl]; rfl
      exact ⟨(hmem b).2 (by simp), fun x hx => hkey ▸ hranked.le ((hmem x).1 hx)⟩
    obtain ⟨o, ho, hlast⟩ := hall (.prefer b) (Env.prefer_answers b)
    obtain ⟨o', ho', hsame⟩ := suggest_ok hne (suggestedRow_prefer hnewest)
    rw [ho, Except.ok.injEq] at ho'
    rw [← ho', hlast, List.getLast?_eq_head?_reverse, hl] at hsame
    have hid : a.id = b.id := congrArg Prod.fst (Option.some.inj hsame)
    exact (List.nodup_cons.1 hids).1 (List.mem_map.2 ⟨b, List.mem_cons_self, hid.symm⟩)
  · intro hapart env ha
    obtain ⟨o, ho, hnone, hnewest⟩ := @suggestedRow_newest h env ctx ha
    obtain ⟨s, hok, hsame⟩ := suggest_ok hne ho
    exact ⟨s, hok, (forwards_run hr hs).newest_last pool_sublist hapart hnone hnewest ▸ hsame⟩

/-- **The most recent is the last recorded exactly where the seconds tell**, on every table that stamped calls build. -/
theorem last_recorded_iff (hr : run call {} l = some h) (hs : Stamped l) :
    (∀ host limit, h.RecentReversed l host limit ↔
      Apart (·.timestamp) ((log {} l).filter (·.host = host)) (limit.toNat + 1)) ∧
    ∀ ctx, h.SuggestsLast ctx ↔ Apart (·.timestamp) (h.eligible ctx) 2 :=
  ⟨recentReversed_iff hr hs, suggestsLast_iff hr hs⟩

/-- Two commands in one second. -/
theorem same_second : Stamped [.record (entered ['l', 's']), .record (entered ['p', 's'])] :=
  ⟨by simp [entered, enteredIn], by simp [entered, enteredIn, Call.now, Env.stable]⟩

theorem stamped_used : Stamped usedCalls where
  stamped := by simp [usedCalls, enteredIn]
  forwards := by
    have hnow : usedCalls.filterMap Call.now = [7, 8, 9, 12] := rfl
    rw [hnow]
    decide

theorem last_recorded_used : usedHistory.RecentReversed usedCalls ['h'] 2 ∧
    usedHistory.SuggestsLast ⟨['h'], none, ['L']⟩ := by
  obtain ⟨hrecent, hsuggest⟩ := last_recorded_iff (l := usedCalls) (h := usedHistory) rfl stamped_used
  refine ⟨(hrecent ['h'] 2).2 ?_, (hsuggest ⟨['h'], none, ['L']⟩).2 ?_⟩
  · unfold Apart
    decide +kernel
  · unfold Apart
    decide +kernel

/-- Of two commands in one second, the first may be returned. -/
theorem last_recorded_tie : ¬ ∀ (l : List Call) (h : History), run call {} l = some h → Stamped l →
    (∀ host limit, h.RecentReversed l host limit) ∧ ∀ ctx, h.SuggestsLast ctx := by
  intro hall
  obtain ⟨hrecent, -⟩ := hall [.record (entered ['l', 's']), .record (entered ['p', 's'])]
    ⟨[enteredRow 1 ['l', 's'] none, enteredRow 2 ['p', 's'] none], 2⟩ rfl same_second
  have hids := congrArg (Except.map (List.map (·.id))) (hrecent ['h'] 2 (.stable 9) fun _ => rfl)
  revert hids
  decide +kernel

end History

end TinySsh
