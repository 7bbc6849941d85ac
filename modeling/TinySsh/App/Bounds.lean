import TinySsh.App.Events

/-!
# Offsets and indices

Every byte offset and every index that handling a key uses, with the text it is used on (`accesses`), in the order of
the source. A key panics only at an access that is out of range (`onKey_isSome`), and along every run all of them are
in range (`accesses_inRange`).
-/

namespace TinySsh.App

open Text

/-! ## Accesses -/

/-- A use of a byte offset or of an index that panics out of range. -/
inductive Access
  /-- `String::insert` -/
  | insert (s : Str) (offset : Nat)
  /-- `String::remove` -/
  | remove (s : Str) (offset : Nat)
  /-- `String::truncate` -/
  | truncate (s : Str) (offset : Nat)
  /-- `s[offset..]` -/
  | slice (s : Str) (offset : Nat)
  /-- `chars[i]` -/
  | index (chars : Str) (i : Nat)
  /-- `chars[..i]` -/
  | indexTo (chars : Str) (i : Nat)
  /-- `chars[i..]` -/
  | indexFrom (chars : Str) (i : Nat)

/-- The offset is on the boundary of a character, and of one that is there for `String::remove`; the index is in range.
-/
def Access.InRange : Access → Prop
  | .insert s offset | .truncate s offset | .slice s offset => IsBoundary s offset
  | .remove s offset => IsBoundary s offset ∧ offset < byteLen s
  | .index chars i => i < chars.length
  | .indexTo chars i | .indexFrom chars i => i ≤ chars.length

variable {V : Type}

def insertCharAccesses (app : App V) : List Access := [.insert app.shadowInput (app.charToByte app.shadowCursor)]

/-- The indices that a loop of `kill_word_backward` reads, from `i` down. -/
def skipBackReads (p : Char → Bool) (chars : Str) : Nat → List Nat
  | 0 => []
  | i + 1 =>
    i :: match chars[i]? with
      | some c => if p c then skipBackReads p chars i else []
      | none => []

def killWordAccesses (app : App V) : List Access :=
  let chars := app.shadowInput
  let isWord := fun c => !isWhitespace c
  if app.shadowCursor = 0 then []
  else
    (skipBackReads isWhitespace chars app.shadowCursor).map (.index chars) ++
      match skipBack isWhitespace chars app.shadowCursor with
      | none => []
      | some i =>
        (skipBackReads isWord chars i).map (.index chars) ++
          match skipBack isWord chars i with
          | none => []
          | some i => if i = app.shadowCursor then [] else [.indexTo chars i, .indexFrom chars app.shadowCursor]

/-- The slice of the suggestion. -/
def refreshAccesses (app : App V) (history : History) (env : Env) : List Access :=
  if app.shadowInput = [] then []
  else
    match SuggestEngine.suggest history env { host := app.host, cwd := app.cwd, typed := app.shadowInput } with
    | .ok (some s) =>
      if app.shadowInput.isPrefixOf s.command && byteLen s.command > byteLen app.shadowInput then
        [.slice s.command (byteLen app.shadowInput)]
      else []
    | _ => []

def ctrlAccesses (app : App V) (c : Char) : List Access :=
  match c.toLower with
  | 'k' => [.truncate app.shadowInput (app.charToByte app.shadowCursor)]
  | 'w' => app.killWordAccesses
  | _ => []

def backspaceAccesses (app : App V) : List Access :=
  if app.shadowCursor > 0 then [.remove app.shadowInput (app.charToByte (app.shadowCursor - 1))] else []

/-- The accesses of an edit, and of recomputing the suggestion after it. -/
def thenRefresh (accesses : List Access) (app' : Option (App V)) (history : History) (env : Env) : List Access :=
  accesses ++ (app'.map fun app => app.refreshAccesses history env).getD []

def shadowAccesses (app : App V) (key : KeyEvent) (history : History) (env : Env) : List Access :=
  match key.code with
  | .char c =>
    if key.modifiers.control then thenRefresh (app.ctrlAccesses c) (app.applyCtrl c) history env
    else thenRefresh app.insertCharAccesses (app.insertChar c) history env
  | .backspace => thenRefresh app.backspaceAccesses app.applyBackspace history env
  | _ => []

def acceptAccesses (app : App V) (history : History) (env : Env) : List Access :=
  match app.suggestion with
  | some rest => { app with shadowInput := app.shadowInput ++ rest }.refreshAccesses history env
  | none => []

/-- The accesses of `on_key`. -/
def accesses [Vt V] (app : App V) (key : KeyEvent) (history : History) (env : Env) : List Access :=
  if captured key then []
  else if app.accepts key then app.acceptAccesses history env
  else if encode key app.terminal.mode = [] then []
  else app.shadowAccesses key history env

/-! ## Panics are accesses out of range -/

variable {app : App V} {history : History} {env : Env} {key : KeyEvent}

theorem skipBack_isSome {p : Char → Bool} {chars : Str} {i : Nat}
    (h : ∀ j ∈ skipBackReads p chars i, j < chars.length) : (skipBack p chars i).isSome := by
  induction i with
  | zero => rfl
  | succ i ih =>
    have hi : i < chars.length := h i List.mem_cons_self
    simp only [skipBackReads, skipBack, List.getElem?_eq_getElem hi] at h ⊢
    split
    · rename_i hp
      rw [if_pos hp] at h
      exact ih fun j hj => h j (List.mem_cons_of_mem _ hj)
    · rfl

theorem insertChar_isSome (h : ∀ a ∈ app.insertCharAccesses, a.InRange) (c : Char) : (app.insertChar c).isSome := by
  have hb : IsBoundary app.shadowInput (app.charToByte app.shadowCursor) := h _ List.mem_cons_self
  obtain ⟨p, hp⟩ := Option.isSome_iff_exists.1 (splitByte_isSome.2 hb)
  simp [insertChar, insertByte, hp]

theorem killWordBackward_isSome (h : ∀ a ∈ app.killWordAccesses, a.InRange) : app.killWordBackward.isSome := by
  unfold killWordBackward
  unfold killWordAccesses at h
  split
  · rfl
  · rename_i h0
    simp only [if_neg h0, List.forall_mem_append, List.forall_mem_map] at h
    obtain ⟨i, hi⟩ := Option.isSome_iff_exists.1 (skipBack_isSome h.1)
    have h := h.2
    simp only [hi, List.forall_mem_append, List.forall_mem_map] at h
    obtain ⟨j, hj⟩ := Option.isSome_iff_exists.1 (skipBack_isSome h.1)
    have h := h.2
    simp only [hj] at h
    simp only [hi, hj, Option.bind_eq_bind, Option.bind_some]
    split
    · rfl
    · rename_i hne
      simp only [if_neg hne, List.forall_mem_cons] at h
      rw [if_pos ⟨h.1, h.2.1⟩]
      rfl

theorem applyCtrl_isSome {c : Char} (h : ∀ a ∈ app.ctrlAccesses c, a.InRange) : (app.applyCtrl c).isSome := by
  unfold ctrlAccesses at h
  unfold applyCtrl
  split
  case h_4 hk =>
    simp only [hk, List.forall_mem_cons] at h
    have hb : IsBoundary app.shadowInput (app.charToByte app.shadowCursor) := h.1
    obtain ⟨p, hp⟩ := Option.isSome_iff_exists.1 (splitByte_isSome.2 hb)
    obtain ⟨rest, hrest⟩ : ∃ rest, truncateByte app.shadowInput (app.charToByte app.shadowCursor) = some rest := by
      unfold truncateByte
      split
      · exact ⟨_, rfl⟩
      · exact ⟨p.1, by rw [hp]; rfl⟩
    simp [hrest]
  case h_5 hw =>
    rw [hw] at h
    exact killWordBackward_isSome h
  all_goals rfl

theorem applyBackspace_isSome (h : ∀ a ∈ app.backspaceAccesses, a.InRange) : app.applyBackspace.isSome := by
  unfold backspaceAccesses at h
  unfold applyBackspace
  split
  · rename_i hpos
    rw [if_pos hpos] at h
    obtain ⟨hb, hlt⟩ := h _ List.mem_cons_self
    obtain ⟨⟨a, b⟩, hp⟩ := Option.isSome_iff_exists.1 (splitByte_isSome.2 hb)
    obtain ⟨hsplit, hlen⟩ := splitByte_some hp
    -- there is a character at the offset
    cases b with
    | nil =>
      rw [List.append_nil] at hsplit
      rw [← hlen, hsplit] at hlt
      exact absurd hlt (Nat.lt_irrefl _)
    | cons c b =>
      have hrem : removeByte app.shadowInput (app.charToByte (app.shadowCursor - 1)) = some (a ++ b) := by
        unfold removeByte
        rw [hp]
      have hrem' : removeByte app.shadowInput (charToByte { app with shadowCursor := app.shadowCursor - 1 }
          (app.shadowCursor - 1)) = some (a ++ b) := hrem
      simp [hrem']
  · rfl

theorem isSome_bind_refresh {x : Option (App V)} {history' : History} (h : x.isSome) :
    (do
      let app ← x
      let app ← app.refreshSuggestion history env
      some (app, history')).isSome := by
  obtain ⟨app', rfl⟩ := Option.isSome_iff_exists.1 h
  simp [refreshSuggestion_eq]

theorem applyToShadow_isSome (h : ∀ a ∈ app.shadowAccesses key history env, a.InRange) :
    (app.applyToShadow key history env).isSome := by
  unfold shadowAccesses at h
  unfold applyToShadow
  cases hk : key.code with
  | char c =>
    simp only [hk] at h ⊢
    cases hctrl : key.modifiers.control with
    | true =>
      simp only [hctrl, if_true, thenRefresh, List.forall_mem_append] at h ⊢
      exact isSome_bind_refresh (applyCtrl_isSome h.1)
    | false =>
      simp only [hctrl, Bool.false_eq_true, if_false, thenRefresh, List.forall_mem_append] at h ⊢
      exact isSome_bind_refresh (insertChar_isSome h.1 c)
  | backspace =>
    simp only [hk, thenRefresh, List.forall_mem_append] at h ⊢
    exact isSome_bind_refresh (applyBackspace_isSome h.1)
  | _ => rfl

/-! ## All accesses are in range -/

/-- A loop reads below the index it starts from. -/
theorem skipBackReads_lt {p : Char → Bool} {chars : Str} {i j : Nat} (h : j ∈ skipBackReads p chars i) : j < i := by
  induction i with
  | zero => cases h
  | succ i ih =>
    rcases List.mem_cons.1 h with rfl | h
    · exact Nat.lt_succ_self _
    · split at h
      · split at h
        · exact Nat.lt_succ_of_lt (ih h)
        · cases h
      · cases h

theorem skipBack_le {p : Char → Bool} {chars : Str} {i j : Nat} (h : skipBack p chars i = some j) : j ≤ i := by
  induction i with
  | zero => cases h; exact Nat.le_refl _
  | succ i ih =>
    unfold skipBack at h
    split at h
    · cases h
    · split at h
      · exact Nat.le_succ_of_le (ih h)
      · cases h
        exact Nat.le_refl _

theorem killWordAccesses_inRange (h : app.Wf) : ∀ a ∈ app.killWordAccesses, a.InRange := by
  have hreads : ∀ {p i}, i ≤ app.shadowInput.length → ∀ j ∈ skipBackReads p app.shadowInput i,
      (Access.index app.shadowInput j).InRange := fun hi _ hj => Nat.lt_of_lt_of_le (skipBackReads_lt hj) hi
  unfold killWordAccesses
  dsimp only
  split
  · simp
  · rw [List.forall_mem_append, List.forall_mem_map]
    refine ⟨hreads h, ?_⟩
    split
    · simp
    · rename_i i hi
      have hi : i ≤ app.shadowInput.length := Nat.le_trans (skipBack_le hi) h
      rw [List.forall_mem_append, List.forall_mem_map]
      refine ⟨hreads hi, ?_⟩
      split
      · simp
      · rename_i j hj
        split
        · simp
        · simp only [List.forall_mem_cons]
          exact ⟨Nat.le_trans (skipBack_le hj) hi, h, by simp⟩

theorem refreshAccesses_inRange (app : App V) (history : History) (env : Env) :
    ∀ a ∈ app.refreshAccesses history env, a.InRange := by
  unfold refreshAccesses
  split
  · simp
  split
  · rename_i s _
    split
    · rename_i hp
      obtain ⟨rest, hrest⟩ := List.isPrefixOf_iff_prefix.1 (Bool.and_eq_true_iff.1 hp).1
      rw [List.forall_mem_singleton]
      exact ⟨app.shadowInput, rest, hrest.symm, rfl⟩
    · simp
  · simp

theorem thenRefresh_inRange {accesses : List Access} (h : ∀ a ∈ accesses, a.InRange) (app' : Option (App V))
    (history : History) (env : Env) : ∀ a ∈ thenRefresh accesses app' history env, a.InRange := by
  rw [thenRefresh, List.forall_mem_append]
  refine ⟨h, ?_⟩
  cases app' with
  | none => simp
  | some app' => exact refreshAccesses_inRange app' history env

theorem ctrlAccesses_inRange (h : app.Wf) (c : Char) : ∀ a ∈ app.ctrlAccesses c, a.InRange := by
  unfold ctrlAccesses
  split
  · rw [List.forall_mem_singleton]
    exact isBoundary_charToByte _ _
  · exact killWordAccesses_inRange h
  · simp

theorem backspaceAccesses_inRange (h : app.Wf) : ∀ a ∈ app.backspaceAccesses, a.InRange := by
  unfold backspaceAccesses
  split
  · rename_i hpos
    have hlt : app.shadowCursor - 1 < app.shadowInput.length := by unfold Wf at h; omega
    rw [List.forall_mem_singleton]
    exact ⟨isBoundary_charToByte _ _, charToByte_lt hlt⟩
  · simp

/-! ## Keys and runs -/

variable [Vt V]

/-- **A key panics only at an access that is out of range.** -/
theorem onKey_isSome (h : ∀ a ∈ app.accesses key history env, a.InRange) : (app.onKey key history env).isSome := by
  unfold accesses at h
  unfold onKey
  dsimp only
  split
  · rfl
  rename_i hq
  split
  · rfl
  rename_i hm
  split
  · rfl
  rename_i hy
  have hc : captured key = false := by simp only [captured, hq, hm, hy, Bool.or_self]
  simp only [hc, Bool.false_eq_true, if_false] at h
  split
  · rename_i ha
    obtain ⟨rest, hs⟩ : ∃ rest, app.suggestion = some rest := by
      simp only [accepts, Bool.and_eq_true] at ha
      exact Option.isSome_iff_exists.1 ha.1.2
    rw [accept_eq hs]
    rfl
  · rename_i ha
    rw [if_neg ha] at h
    split
    · rfl
    · rename_i he
      rw [if_neg he] at h
      obtain ⟨r, hr⟩ := Option.isSome_iff_exists.1 (applyToShadow_isSome h)
      simp [hr]

/-- **With the shadow cursor within the line, every access of a key is in range.** -/
theorem accesses_inRange (h : app.Wf) (key : KeyEvent) (history : History) (env : Env) :
    ∀ a ∈ app.accesses key history env, a.InRange := by
  unfold accesses
  split
  · simp
  split
  · unfold acceptAccesses
    split
    · exact refreshAccesses_inRange _ _ _
    · simp
  split
  · simp
  unfold shadowAccesses
  cases key.code with
  | char c =>
    dsimp only
    split
    · exact thenRefresh_inRange (ctrlAccesses_inRange h _) _ _ _
    · refine thenRefresh_inRange ?_ _ _ _
      rw [insertCharAccesses, List.forall_mem_singleton]
      exact isBoundary_charToByte _ _
  | backspace => exact thenRefresh_inRange (backspaceAccesses_inRange h) _ _ _
  | _ => simp

/-- **No key and no session event panics**: every run goes on to its end with the shadow cursor within the shadow line,
and there every offset and index that a key uses is in range. -/
theorem no_panic (host user : Str) (cols rows : Nat) (history₀ : History) (l : List Input) :
    ∃ (app : App V) (history : History), runNew host user cols rows history₀ l = some (app, history) ∧
      app.shadowCursor ≤ app.shadowInput.length ∧
      ∀ key env, (∀ a ∈ app.accesses key history env, a.InRange) ∧ (app.onKey key history env).isSome := by
  obtain ⟨app, history, hr, hok⟩ := @exists_runNew V _ host user cols rows history₀ l
  have hwf : app.Wf := hok.wf
  refine ⟨app, history, hr, hwf, fun key env => ?_⟩
  have hall := accesses_inRange hwf key history env
  exact ⟨hall, onKey_isSome hall⟩

end TinySsh.App
