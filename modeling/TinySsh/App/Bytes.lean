import TinySsh.App.Reference
import TinySsh.App.Suggestion
import TinySsh.Lib.Readline

/-!
# The shadow buffer against the bytes

`on_key` chooses the bytes of a key and the operation on the shadow line in two separate tables. `opOf` is the second
one. The bytes stand for the operation but in two places, which are all the disagreements there are:

* text is inserted without Ctrl, and sent as text without Alt, or under Ctrl where the character has no control byte
  (`text_as_sent_iff`);
* a Ctrl combination without an operation (`Ctrl.other`) may send what a key with an operation sends, and then only
  recomputes the suggestion (`alike_iff`).
-/

namespace TinySsh.App

open Text

/-! ## Operations -/

/-- The arms of `apply_to_shadow`. -/
inductive Op
  | text (c : Char)
  | ctrl (x : Ctrl)
  | backspace | enter
  /-- Tab and BackTab. -/
  | complete
  /-- Up, Down, PageUp and PageDown. -/
  | navigate
  | left | right | home | toEnd
  /-- The keys without an arm. -/
  | pass
deriving DecidableEq

def opOf (key : KeyEvent) : Op :=
  match key.code with
  | .char c => if key.modifiers.control then .ctrl (ctrlOf c) else .text c
  | .backspace => .backspace
  | .enter => .enter
  | .tab | .backTab => .complete
  | .up | .down | .pageUp | .pageDown => .navigate
  | .left => .left
  | .right => .right
  | .home => .home
  | .end => .toEnd
  | _ => .pass

namespace Op

/-- What the operation does to the line. -/
def edit : Op → Edit
  | .text c => .insert c
  | .ctrl x => x.edit
  | .backspace => .deleteBefore
  | .enter | .navigate => .clear
  | .left => .left
  | .right => .right
  | .home => .home
  | .toEnd => .toEnd
  | .complete | .pass => .keep

/-- What the operation does to the cached suggestion. -/
def cached : Op → Cached
  | .text _ | .ctrl _ | .backspace => .refresh
  | .enter | .complete | .navigate => .drop
  | .left | .right | .home | .toEnd | .pass => .keep

/-- What the operation does to the flag of the newline heuristic. -/
def lastEnter (op : Op) (old : Bool) : Bool :=
  match op with
  | .enter => true
  | .navigate | .ctrl .abort => false
  | _ => old

end Op

section Operations

variable (key : KeyEvent)

theorem keyEdit_opOf : keyEdit key = (opOf key).edit := by
  unfold keyEdit opOf
  cases key.code with
  | char c => cases key.modifiers.control <;> rfl
  | _ => rfl

theorem keyCached_opOf : keyCached key = (opOf key).cached := by
  unfold keyCached opOf
  cases key.code with
  | char c => cases key.modifiers.control <;> rfl
  | _ => rfl

theorem keyEnter_opOf {V : Type} (app : App V) : app.keyEnter key = (opOf key).lastEnter app.lastInputWasEnter := by
  unfold keyEnter opOf
  cases key.code with
  | char c =>
    cases key.modifiers.control with
    | true => cases hx : ctrlOf c <;> simp [hx, Op.lastEnter]
    | false => rfl
  | _ => rfl

theorem code_eq_enter : key.code = .enter ↔ opOf key = .enter := by
  unfold opOf
  cases key.code with
  | char c => cases key.modifiers.control <;> simp
  | _ => simp

end Operations

/-- Only text makes the line longer. -/
theorem Op.sublist {op : Op} (h : ∀ c, op ≠ .text c) (z : Zipper Char) : (op.edit.apply z).text.Sublist z.text := by
  cases op with
  | text c => exact absurd rfl (h c)
  | ctrl x =>
    cases x with
    | toEnd => exact (Zipper.text_toEnd z).symm ▸ List.Sublist.refl _
    | killAfter => exact (Zipper.text_killAfter z).symm ▸ List.sublist_append_left _ _
    | killWord => exact ((Zipper.prefix_dropWord _ _).sublist).append_right _
    | killLine | abort => exact List.nil_sublist _
    | _ => exact List.Sublist.refl _
  | backspace => exact (List.dropLast_sublist _).append_right _
  | enter | navigate => exact List.nil_sublist _
  | left => exact (Zipper.text_left z).symm ▸ List.Sublist.refl _
  | right => exact (Zipper.text_right z).symm ▸ List.Sublist.refl _
  | toEnd => exact (Zipper.text_toEnd z).symm ▸ List.Sublist.refl _
  | _ => exact List.Sublist.refl _

/-! ## Text -/

/-- A control byte is one. -/
theorem isControlByte_ctrlByte {c : Char} {b : UInt8} (h : ctrlByte c = some b) : Readline.isControlByte b = true := by
  unfold ctrlByte at h
  dsimp only at h
  split at h
  · rename_i hlower
    have hlo : 'a'.toNat ≤ c.toLower.toNat := hlower.1
    have hhi : c.toLower.toNat ≤ 'z'.toNat := hlower.2
    have hsmall : ∀ n, n < 0x20 → Readline.isControlByte (UInt8.ofNat n) = true := by decide
    cases h
    refine hsmall _ ?_
    simp only [Char.reduceToNat] at hlo hhi ⊢
    omega
  · split at h <;> first | (cases h; rfl) | cases h

/-- The encoding of a character that is no control character starts with no control byte. -/
theorem utf8EncodeChar_ne_cons {c : Char} (hc : isControl c = false) {b : UInt8} {bytes : List UInt8}
    (hb : Readline.isControlByte b = true) : b :: bytes ≠ String.utf8EncodeChar c := fun h => by
  rw [Readline.isControlByte_head hc (b := b) (by rw [← h]; rfl)] at hb
  cases hb

/-- The character is sent as text. -/
def SentAsText (c : Char) (mods : KeyModifiers) : Prop :=
  mods.alt = false ∧ (mods.control = true → ctrlByte c = none)

theorem encodeChar_eq_utf8 {c : Char} (hc : isControl c = false) (mods : KeyModifiers) :
    encodeChar c mods = String.utf8EncodeChar c ↔ SentAsText c mods := by
  have hesc : ∀ bytes, 0x1b :: bytes ≠ String.utf8EncodeChar c := fun bytes => utf8EncodeChar_ne_cons hc rfl
  unfold encodeChar encodeText SentAsText
  cases mods.control with
  | false => cases mods.alt <;> simp [hesc]
  | true =>
    cases hb : ctrlByte c with
    | none => cases mods.alt <;> simp [hesc]
    | some b =>
      have hne : [b] ≠ String.utf8EncodeChar c := utf8EncodeChar_ne_cons hc (isControlByte_ctrlByte hb)
      cases mods.alt <;> simp [hesc, hne]

variable {V : Type} {app : App V} {history : History} {env : Env} {key key' : KeyEvent} {c : Char}

theorem accepts_char (hk : key.code = .char c) : app.accepts key = false := by simp [accepts, hk]

theorem shadowCursor_shadowStep (app : App V) (key : KeyEvent) (history : History) (env : Env) :
    (app.shadowStep key history env).shadowCursor = ((keyEdit key).apply app.zip).cursor := by
  rw [← zip_shadowStep app key history env, zip_cursor (wf_shadowStep _ _ _)]

/-- The line with the character at the shadow cursor. -/
def Inserts (app app' : App V) (c : Char) : Prop :=
  app'.shadowInput = app.shadowInput.take app.shadowCursor ++ c :: app.shadowInput.drop app.shadowCursor ∧
    app'.shadowCursor = app.shadowCursor + 1

/-- Without Ctrl, a character enters the line. -/
theorem inserts_text (h : app.Wf) (hk : key.code = .char c) (hctrl : key.modifiers.control = false)
    (history : History) (env : Env) : Inserts app (app.shadowStep key history env) c := by
  have hop : opOf key = .text c := by simp [opOf, hk, hctrl]
  refine ⟨?_, ?_⟩
  · rw [shadowInput_shadowStep, keyEdit_opOf, hop]
    simp [Op.edit, Edit.apply, Zipper.insert, Zipper.text, zip, Zipper.ofCursor]
  · rw [shadowCursor_shadowStep, keyEdit_opOf, hop]
    simp [Op.edit, Edit.apply, Zipper.insert, Zipper.cursor, zip_before_length h]

/-- Under Ctrl, the line gains no character. -/
theorem sublist_ctrl (hk : key.code = .char c) (hctrl : key.modifiers.control = true) (history : History) (env : Env) :
    (app.shadowStep key history env).shadowInput.Sublist app.shadowInput := by
  have hop : opOf key = .ctrl (ctrlOf c) := by simp [opOf, hk, hctrl]
  rw [shadowInput_shadowStep, keyEdit_opOf, hop, ← @zip_text V app]
  exact Op.sublist (by simp) _

theorem not_inserts_of_sublist {app' : App V} (h : app.Wf) (hsub : app'.shadowInput.Sublist app.shadowInput) :
    ¬Inserts app app' c := fun hins => by
  have hlen := hsub.length_le
  rw [hins.1] at hlen
  simp only [List.length_append, List.length_take, List.length_cons, List.length_drop] at hlen
  unfold Wf at h
  omega

/-! ## Keys that send the same bytes -/

/-- The sequences of the operations that have some of their own, after `ESC` too for those of control bytes. -/
def namedBytes : List (List UInt8 × Op) :=
  [([0x0d], .enter), ([0x09], .complete), ([0x1b, 0x5b, 0x5a], .complete), ([0x7f], .backspace), ([0x1b], .pass),
   ([0x01], .ctrl .home), ([0x1b, 0x01], .ctrl .home), ([0x05], .ctrl .toEnd), ([0x1b, 0x05], .ctrl .toEnd),
   ([0x15], .ctrl .killLine), ([0x1b, 0x15], .ctrl .killLine), ([0x0b], .ctrl .killAfter),
   ([0x1b, 0x0b], .ctrl .killAfter), ([0x17], .ctrl .killWord), ([0x1b, 0x17], .ctrl .killWord),
   ([0x03], .ctrl .abort), ([0x1b, 0x03], .ctrl .abort), ([0x04], .ctrl .abort), ([0x1b, 0x04], .ctrl .abort),
   ([0x1b, 0x5b, 0x41], .navigate), ([0x1b, 0x4f, 0x41], .navigate), ([0x1b, 0x5b, 0x42], .navigate),
   ([0x1b, 0x4f, 0x42], .navigate), ([0x1b, 0x5b, 0x35, 0x7e], .navigate), ([0x1b, 0x5b, 0x36, 0x7e], .navigate),
   ([0x1b, 0x5b, 0x44], .left), ([0x1b, 0x4f, 0x44], .left), ([0x1b, 0x5b, 0x43], .right),
   ([0x1b, 0x4f, 0x43], .right), ([0x1b, 0x5b, 0x48], .home), ([0x1b, 0x4f, 0x48], .home),
   ([0x1b, 0x5b, 0x46], .toEnd), ([0x1b, 0x4f, 0x46], .toEnd),
   ([0x1b, 0x5b, 0x32, 0x7e], .pass), ([0x1b, 0x5b, 0x33, 0x7e], .pass),
   ([0x1b, 0x4f, 0x50], .pass), ([0x1b, 0x4f, 0x51], .pass), ([0x1b, 0x4f, 0x52], .pass), ([0x1b, 0x4f, 0x53], .pass),
   ([0x1b, 0x5b, 0x31, 0x35, 0x7e], .pass), ([0x1b, 0x5b, 0x31, 0x37, 0x7e], .pass),
   ([0x1b, 0x5b, 0x31, 0x38, 0x7e], .pass), ([0x1b, 0x5b, 0x31, 0x39, 0x7e], .pass),
   ([0x1b, 0x5b, 0x32, 0x30, 0x7e], .pass), ([0x1b, 0x5b, 0x32, 0x31, 0x7e], .pass),
   ([0x1b, 0x5b, 0x32, 0x33, 0x7e], .pass), ([0x1b, 0x5b, 0x32, 0x34, 0x7e], .pass)]

/-- A control character with an operation has a control byte, and its sequences stand for the operation. -/
theorem ctrlByte_ctrlOf (h : ctrlOf c ≠ .other) : ∃ b, ctrlByte c = some b ∧
    namedBytes.lookup [b] = some (.ctrl (ctrlOf c)) ∧ namedBytes.lookup [0x1b, b] = some (.ctrl (ctrlOf c)) := by
  unfold ctrlOf at h ⊢
  unfold ctrlByte
  split at h
  case h_8 => exact absurd rfl h
  all_goals
    rename_i hlower
    rw [hlower]
    exact ⟨_, rfl, by decide, by decide⟩

/-- **What a key sends names its operation**, unless it is text or a Ctrl combination without an operation. -/
theorem lookup_encode {mode : TermMode} (he : encode key mode ≠ []) : (∃ c, opOf key = .text c) ∨
    opOf key = .ctrl .other ∨ namedBytes.lookup (encode key mode) = some (opOf key) := by
  unfold opOf encode at *
  cases hk : key.code with
  | char c =>
    cases hctrl : key.modifiers.control with
    | false => exact .inl ⟨c, by simp⟩
    | true =>
      by_cases hx : ctrlOf c = .other
      · exact .inr (.inl (by simp [hx]))
      · obtain ⟨b, hb, hplain, halt⟩ := ctrlByte_ctrlOf hx
        right
        right
        simp only [encodeChar, hctrl, hb, if_true]
        cases key.modifiers.alt
        · exact hplain
        · exact halt
  | left | right | up | down | home | «end» => cases mode.appCursor <;> exact .inr (.inr rfl)
  | f n =>
    simp only [hk] at he ⊢
    right
    right
    unfold fKey at he ⊢
    split at he <;> first | rfl | exact absurd rfl he
  | enter | tab | backTab | backspace | esc | insert | delete | pageUp | pageDown => exact .inr (.inr rfl)
  | _ => simp [hk] at he

/-! ## What is left of a key -/

/-- The state that the keys of a line edit, and the history rows. -/
structure Shadow where
  shadowInput : Str
  shadowCursor : Nat
  suggestion : Option Str
  lastInputWasEnter : Bool
  rows : List Row

def Shadow.of (app : App V) (history : History) : Shadow :=
  ⟨app.shadowInput, app.shadowCursor, app.suggestion, app.lastInputWasEnter, history.rows⟩

/-- What an operation leaves. -/
def Op.shadow (app : App V) (history : History) (env : Env) (op : Op) : Shadow where
  shadowInput := (op.edit.apply app.zip).text
  shadowCursor := (op.edit.apply app.zip).cursor
  suggestion :=
    match op.cached with
    | .keep => app.suggestion
    | .drop => none
    | .refresh => { app with shadowInput := (op.edit.apply app.zip).text }.completion history env
  lastInputWasEnter := op.lastEnter app.lastInputWasEnter
  rows := if op = .enter then (app.recordEnter history env).rows else history.rows

/-- A key leaves what its operation does. -/
theorem shadow_key (app : App V) (key : KeyEvent) (history : History) (env : Env) :
    Shadow.of (app.shadowStep key history env) (app.historyStep key history env) =
      (opOf key).shadow app history env := by
  have hrows : (app.historyStep key history env).rows = ((opOf key).shadow app history env).rows := by
    simp only [historyStep, Op.shadow, code_eq_enter]
    split <;> rfl
  unfold Shadow.of
  rw [hrows]
  simp only [shadowStep, Op.shadow, keyEdit_opOf, keyCached_opOf, keyEnter_opOf]
  cases (opOf key).cached <;> rfl

/-- The operation has nothing to do but to recompute the suggestion. -/
def Idle (app : App V) (history : History) (env : Env) : Op → Prop
  | .text _ => False
  | .ctrl .other => True
  | .backspace | .ctrl .home | .ctrl .killWord => app.shadowCursor = 0
  | .ctrl .toEnd | .ctrl .killAfter => app.shadowCursor = app.shadowInput.length
  | .ctrl .killLine => app.shadowInput = []
  | .navigate | .ctrl .abort => app.shadowInput = [] ∧ app.lastInputWasEnter = false
  | .enter => app.shadowInput = [] ∧ app.lastInputWasEnter = true
  | .complete => app.completion history env = none
  | .pass => app.suggestion = app.completion history env
  | .left | .home => app.shadowCursor = 0 ∧ app.suggestion = app.completion history env
  | .right | .toEnd => app.shadowCursor = app.shadowInput.length ∧ app.suggestion = app.completion history env

/-- A Ctrl combination without an operation only recomputes the suggestion. -/
theorem shadow_other (h : app.Wf) : (Op.ctrl .other).shadow app history env =
    ⟨app.shadowInput, app.shadowCursor, app.completion history env, app.lastInputWasEnter, history.rows⟩ := by
  simp [Op.shadow, Op.edit, Ctrl.edit, Edit.apply, Op.cached, Op.lastEnter, zip_cursor h]

theorem completion_empty (h : app.shadowInput = []) : app.completion history env = none := by
  unfold completion
  rw [if_pos h]

/-- What the operation changes besides the line: nothing, if it leaves the flag alone, records nothing, and leaves the
suggestion that recomputing gives. -/
theorem shadow_eq_other_iff (h : app.Wf) (op : Op) :
    op.shadow app history env = (Op.ctrl .other).shadow app history env ↔ op.edit.apply app.zip = app.zip ∧
      (op.cached = .keep → app.suggestion = app.completion history env) ∧
      (op.cached = .drop → app.completion history env = none) ∧
      op.lastEnter app.lastInputWasEnter = app.lastInputWasEnter ∧
      (op = .enter → (app.recordEnter history env).rows = history.rows) := by
  have hline : (op.edit.apply app.zip).text = app.shadowInput ∧ (op.edit.apply app.zip).cursor = app.shadowCursor ↔
      op.edit.apply app.zip = app.zip := by
    constructor
    · rintro ⟨htext, hcursor⟩
      rw [← Zipper.ofCursor_text (op.edit.apply app.zip), htext, hcursor]
      rfl
    · intro hz
      rw [hz]
      exact ⟨zip_text, zip_cursor h⟩
  rw [shadow_other h]
  simp only [Op.shadow, Shadow.mk.injEq, ← and_assoc, hline]
  simp only [and_assoc]
  refine and_congr_right fun hz => ?_
  have htext : (op.edit.apply app.zip).text = app.shadowInput := by rw [hz, zip_text]
  have hrows : (if op = .enter then (app.recordEnter history env).rows else history.rows) = history.rows ↔
      (op = .enter → (app.recordEnter history env).rows = history.rows) := by
    by_cases he : op = .enter <;> simp [he]
  rw [htext, hrows]
  cases op.cached <;> simp [eq_comm]

/-- **The operation has nothing to do exactly where it is idle.** -/
theorem idle_iff (h : app.Wf) (op : Op) :
    op.shadow app history env = (Op.ctrl .other).shadow app history env ↔ app.Idle history env op := by
  have hstart : app.zip.before = [] ↔ app.shadowCursor = 0 := by
    rw [← zip_before_length h, List.length_eq_zero_iff]
  have hend := (cursor_eq_length h).symm
  rw [shadow_eq_other_iff h]
  cases op with
  | text c => exact iff_of_false (fun hz => Zipper.insert_ne_self c hz.1) id
  | ctrl x =>
    cases x <;> simp [Op.edit, Ctrl.edit, Edit.apply, Op.cached, Op.lastEnter, Idle, Zipper.home_eq_self,
      Zipper.toEnd_eq_self, Zipper.clear_eq_self, Zipper.killAfter_eq_self, Zipper.killWord_eq_self, hstart, hend]
  | enter =>
    simp only [Op.edit, Edit.apply, Op.cached, Op.lastEnter, Idle, Zipper.clear_eq_self, zip_text]
    constructor
    · rintro ⟨hline, -, -, henter, -⟩
      exact ⟨hline, henter.symm⟩
    · rintro ⟨hline, henter⟩
      refine ⟨hline, (fun h => by cases h), fun _ => completion_empty hline, henter.symm, fun _ => ?_⟩
      rw [recordEnter, if_neg (by simp [hline])]
  | navigate =>
    simp only [Op.edit, Edit.apply, Op.cached, Op.lastEnter, Idle, Zipper.clear_eq_self, zip_text]
    constructor
    · rintro ⟨hline, -, -, henter, -⟩
      exact ⟨hline, henter.symm⟩
    · rintro ⟨hline, henter⟩
      exact ⟨hline, (fun h => by cases h), fun _ => completion_empty hline, henter.symm, fun h => by cases h⟩
  | _ => simp [Op.edit, Edit.apply, Op.cached, Op.lastEnter, Idle, Zipper.deleteBefore_eq_self, Zipper.left_eq_self,
      Zipper.right_eq_self, Zipper.home_eq_self, Zipper.toEnd_eq_self, hstart, hend]

/-- The operations make no difference: they are the same, or one has no operation and the other nothing to do. -/
def Indistinct (app : App V) (history : History) (env : Env) (op op' : Op) : Prop :=
  op = op' ∨ (op = .ctrl .other ∧ app.Idle history env op') ∨ (op' = .ctrl .other ∧ app.Idle history env op)

/-- No other operation leaves what inserting a character does. -/
theorem shadow_text_iff {op : Op} : (Op.text c).shadow app history env = op.shadow app history env ↔ op = .text c := by
  refine ⟨fun h => ?_, fun h => by rw [h]⟩
  have hline : ((Op.text c).edit.apply app.zip).text = (op.edit.apply app.zip).text := congrArg (·.shadowInput) h
  by_cases htext : ∀ d, op ≠ .text d
  · have hlen := (Op.sublist htext app.zip).length_le
    rw [← hline] at hlen
    simp only [Op.edit, Edit.apply, Zipper.insert, Zipper.length_text, List.length_append,
      List.length_singleton] at hlen
    omega
  · obtain ⟨d, hd⟩ := not_forall.1 htext
    obtain rfl := not_not.1 hd
    simpa [Op.edit, Edit.apply, Zipper.insert, Zipper.text, eq_comm] using hline

/-- **Keys that send the same bytes leave the same exactly where their operations make no difference.** -/
theorem shadow_eq_iff (h : app.Wf) {mode : TermMode} (he : encode key mode = encode key' mode)
    (hne : encode key mode ≠ []) :
    (opOf key).shadow app history env = (opOf key').shadow app history env ↔
      app.Indistinct history env (opOf key) (opOf key') := by
  unfold Indistinct
  rcases lookup_encode hne with ⟨c, hc⟩ | ho | hnamed
  · rw [hc, shadow_text_iff, @eq_comm _ (Op.text c)]
    simp [Idle]
  · rw [ho, eq_comm, idle_iff h]
    refine ⟨fun hi => .inr (.inl ⟨rfl, hi⟩), ?_⟩
    rintro (ho' | ⟨-, hi⟩ | ⟨ho', -⟩)
    · rw [← ho']
      trivial
    · exact hi
    · rw [ho']
      trivial
  · have hne' : encode key' mode ≠ [] := he ▸ hne
    rcases lookup_encode hne' with ⟨c, hc⟩ | ho | hnamed'
    · rw [hc, eq_comm, shadow_text_iff]
      simp [Idle]
    · rw [ho, idle_iff h]
      refine ⟨fun hi => .inr (.inr ⟨rfl, hi⟩), ?_⟩
      rintro (ho' | ⟨ho', hi⟩ | ⟨-, hi⟩)
      · rw [ho']
        trivial
      · rw [ho']
        trivial
      · exact hi
    · have hop : opOf key = opOf key' := by
        rw [he, hnamed'] at hnamed
        exact (Option.some.inj hnamed).symm
      simp [hop]

variable [Vt V]

/-! ## Text is what is sent as text -/

/-- **Text enters the line exactly when it is sent as text**, and otherwise the line gains no character. -/
def TextAsSent (app : App V) (key : KeyEvent) (c : Char) (history : History) (env : Env) : Prop :=
  ∃ app' history' bytes, app.onKey key history env = some (app', history', .send bytes) ∧
    (Inserts app app' c ↔ bytes = String.utf8EncodeChar c) ∧
    (bytes ≠ String.utf8EncodeChar c → app'.shadowInput.Sublist app.shadowInput)

/-- Without Ctrl, Alt is not held; under Ctrl, Alt is held or the character has a control byte. -/
def TextKey (key : KeyEvent) (c : Char) : Prop :=
  if key.modifiers.control then key.modifiers.alt = true ∨ (ctrlByte c).isSome else key.modifiers.alt = false

/-- **Text enters the shadow line exactly when it is sent as text, but for text under Alt and Ctrl with a character that
has no control byte.** -/
theorem text_as_sent_iff {host user : Str} {cols rows : Nat} {history₀ : History} {l : List Input}
    (hr : runNew host user cols rows history₀ l = some (app, history)) (hk : key.code = .char c)
    (hc : isControl c = false) (hcap : captured key = false) (env : Env) :
    TextAsSent app key c history env ↔ TextKey key c := by
  have hwf : app.Wf := (run_ok (ok_new host user cols rows) hr).wf
  have henc : encode key app.terminal.mode = encodeChar c key.modifiers := by simp [encode, hk]
  have hsent := onKey_sent hwf hcap (accepts_char hk) (by rw [henc]; exact encodeChar_ne_nil _ _) history env
  rw [henc] at hsent
  -- what the property says of the only result
  have hiff : TextAsSent app key c history env ↔
      (Inserts app (app.shadowStep key history env) c ↔ SentAsText c key.modifiers) ∧
        (¬SentAsText c key.modifiers →
          (app.shadowStep key history env).shadowInput.Sublist app.shadowInput) := by
    rw [← encodeChar_eq_utf8 hc]
    constructor
    · rintro ⟨app', history', bytes, hres, hprop⟩
      rw [hsent] at hres
      cases hres
      exact hprop
    · exact fun hprop => ⟨_, _, _, hsent, hprop⟩
  rw [hiff, TextKey, SentAsText]
  cases hctrl : key.modifiers.control with
  | false =>
    simp only [inserts_text hwf hk hctrl history env, true_iff, Bool.false_eq_true, false_imp_iff, and_true, if_false]
    exact ⟨fun h => h.1, fun h => ⟨h, fun hn => absurd h hn⟩⟩
  | true =>
    have hsub := @sublist_ctrl V app key c hk hctrl history env
    simp only [not_inserts_of_sublist hwf hsub, hsub, false_iff, imp_true_iff, and_true, if_true, forall_const]
    cases key.modifiers.alt <;> cases ctrlByte c <;> simp

/-- A letter in the middle of a line. -/
theorem text_as_sent_letter : ∃ (app : App MiniVt) (history : History),
    runNew ['h'] ['u'] 80 24 {} [pressed (.char 'l'), pressed .left] = some (app, history) ∧
      TextAsSent app { code := .char 'ä' } 'ä' history (.stable 0) := by
  obtain ⟨app, history, hr, -⟩ := @exists_runNew MiniVt _ ['h'] ['u'] 80 24 {} [pressed (.char 'l'), pressed .left]
  exact ⟨app, history, hr, (text_as_sent_iff hr rfl (by decide) (by decide) _).2 rfl⟩

/-- Under Alt, a letter is sent after `ESC` and enters the line all the same. -/
theorem text_not_as_sent : ¬ ∀ (l : List Input) (app : App MiniVt) (history : History),
    runNew ['h'] ['u'] 80 24 {} l = some (app, history) → ∀ key c, key.code = .char c → isControl c = false →
      captured key = false → ∀ env, TextAsSent app key c history env := by
  intro h
  obtain ⟨app', history', bytes, hres, hiff, -⟩ :=
    h [] _ _ rfl { code := .char 'b', modifiers := { alt := true } } 'b' rfl (by decide) (by decide) (.stable 0)
  have hrun : ((App.new ['h'] ['u'] 80 24 : App MiniVt).onKey { code := .char 'b', modifiers := { alt := true } } {}
      (.stable 0)).map (fun r => (r.1.shadowInput, r.1.shadowCursor, r.2.2)) =
      some (['b'], 1, .send [0x1b, 0x62]) := by decide +kernel
  rw [hres] at hrun
  simp only [Option.map_some, Option.some.injEq, Prod.mk.injEq, Action.send.injEq] at hrun
  obtain ⟨hinput, hcursor, rfl⟩ := hrun
  exact absurd (hiff.1 ⟨hinput, hcursor⟩) (by decide)

/-! ## Keys that the remote cannot tell apart -/

/-- **Handling either key leaves the same line, cursor, suggestion, flag and rows.** -/
def Alike (app : App V) (key key' : KeyEvent) (history : History) (env : Env) : Prop :=
  ∃ app₁ history₁ action₁ app₂ history₂ action₂, app.onKey key history env = some (app₁, history₁, action₁) ∧
    app.onKey key' history env = some (app₂, history₂, action₂) ∧ Shadow.of app₁ history₁ = Shadow.of app₂ history₂

/-- **Keys that send the same bytes leave the same shadow line exactly where their operations make no difference.** -/
theorem alike_iff {host user : Str} {cols rows : Nat} {history₀ : History} {l : List Input}
    (hr : runNew host user cols rows history₀ l = some (app, history)) (hc : captured key = false)
    (hc' : captured key' = false) (ha : app.accepts key = false) (ha' : app.accepts key' = false)
    (he : encode key app.terminal.mode = encode key' app.terminal.mode) (hne : encode key app.terminal.mode ≠ [])
    (env : Env) : Alike app key key' history env ↔ app.Indistinct history env (opOf key) (opOf key') := by
  have hwf : app.Wf := (run_ok (ok_new host user cols rows) hr).wf
  have hsent := onKey_sent hwf hc ha hne history env
  have hsent' := onKey_sent hwf hc' ha' (he ▸ hne) history env
  rw [← shadow_eq_iff hwf he hne, ← shadow_key, ← shadow_key]
  constructor
  · rintro ⟨app₁, history₁, action₁, app₂, history₂, action₂, h₁, h₂, heq⟩
    rw [hsent] at h₁
    rw [hsent'] at h₂
    cases h₁
    cases h₂
    exact heq
  · exact fun heq => ⟨_, _, _, _, _, _, hsent, hsent', heq⟩

/-- Ctrl-K at the end of a line, and the control character of its byte under Ctrl. -/
theorem alike_ctrlK : ∃ (app : App MiniVt) (history : History),
    runNew ['h'] ['u'] 80 24 {} [pressed (.char 'l')] = some (app, history) ∧
      Alike app { code := .char 'k', modifiers := { control := true } }
        { code := .char '\x0b', modifiers := { control := true } } history (.stable 0) := by
  obtain ⟨app, history, hr, -⟩ := @exists_runNew MiniVt _ ['h'] ['u'] 80 24 {} [pressed (.char 'l')]
  have hrun : (runNew (V := MiniVt) ['h'] ['u'] 80 24 {} [pressed (.char 'l')]).map
      (fun s => (s.1.shadowCursor, s.1.shadowInput)) = some (1, ['l']) := by decide +kernel
  rw [hr, Option.map_some, Option.some.injEq, Prod.mk.injEq] at hrun
  refine ⟨app, history, hr, (alike_iff hr (by decide) (by decide) (by simp [accepts]) (by simp [accepts]) ?_ ?_ _).2
    (.inr (.inr ⟨by decide, ?_⟩))⟩
  · exact show encodeChar 'k' { control := true } = encodeChar '\x0b' { control := true } by decide
  · exact encodeChar_ne_nil 'k' { control := true }
  · have hop : opOf { code := .char 'k', modifiers := { control := true } } = .ctrl .killAfter := by decide
    rw [hop, Idle, hrun.1, hrun.2]
    rfl

/-- Enter and Ctrl-M both send a carriage return, and only Enter submits the shadow line. -/
theorem not_alike : ¬ ∀ (l : List Input) (app : App MiniVt) (history : History),
    runNew ['h'] ['u'] 80 24 {} l = some (app, history) → ∀ key key', captured key = false → captured key' = false →
      app.accepts key = false → app.accepts key' = false →
      encode key app.terminal.mode = encode key' app.terminal.mode → encode key app.terminal.mode ≠ [] →
      ∀ env, Alike app key key' history env := by
  intro h
  obtain ⟨app, history, hr, -⟩ := @exists_runNew MiniVt _ ['h'] ['u'] 80 24 {} [pressed (.char 'l')]
  obtain ⟨app₁, history₁, action₁, app₂, history₂, action₂, h₁, h₂, heq⟩ :=
    h _ app history hr { code := .enter } { code := .char 'm', modifiers := { control := true } } (by decide)
      (by decide) (by simp [accepts]) (by simp [accepts])
      (show [0x0d] = encodeChar 'm' { control := true } by decide) (by simp [encode]) (.stable 0)
  have hrun : (runNew (V := MiniVt) ['h'] ['u'] 80 24 {} [pressed (.char 'l')]).map (fun s =>
      ((s.1.onKey { code := .enter } s.2 (.stable 0)).map (·.1.shadowInput),
        (s.1.onKey { code := .char 'm', modifiers := { control := true } } s.2 (.stable 0)).map (·.1.shadowInput))) =
      some (some [], some ['l']) := by decide +kernel
  rw [hr, Option.map_some, h₁, h₂] at hrun
  have hline : app₁.shadowInput = app₂.shadowInput := congrArg (·.shadowInput) heq
  simp only [Option.map_some, Option.some.injEq, Prod.mk.injEq] at hrun
  rw [hrun.1, hrun.2] at hline
  cases hline

end TinySsh.App
