import TinySsh.App.Gate
import TinySsh.App.Record

/-!
# The gate and the echo

The gate compares the number of characters of the line with the distance in columns from the prompt to the cursor of the
terminal. A text typed at a prompt and echoed leaves the cursor as many columns after the prompt as the text is wide, so
the gate finds the end of the line exactly for texts whose characters all take one column (`gate_tracks_iff`).
-/

namespace TinySsh.App

open Text

/-! ## Widths -/

/-- The columns that a text takes. -/
def textWidth (width : Char → Nat) : Str → Nat
  | [] => 0
  | c :: text => width c + textWidth width text

section Width

variable {width : Char → Nat}

theorem textWidth_narrow {text : Str} (h : ∀ c ∈ text, width c = 1) : textWidth width text = text.length := by
  induction text with
  | nil => rfl
  | cons c text ih =>
    obtain ⟨hc, hrest⟩ := List.forall_mem_cons.1 h
    have := ih hrest
    simp only [textWidth, List.length_cons]
    omega

theorem length_le_textWidth {text : Str} (h : ∀ c ∈ text, width c = 1 ∨ width c = 2) :
    text.length ≤ textWidth width text := by
  induction text with
  | nil => exact Nat.le_refl 0
  | cons c text ih =>
    obtain ⟨hc, hrest⟩ := List.forall_mem_cons.1 h
    have := ih hrest
    simp only [textWidth, List.length_cons]
    omega

/-- A text is as wide as it is long only if no character is wide. -/
theorem textWidth_eq_length {text : Str} (h : ∀ c ∈ text, width c = 1 ∨ width c = 2) :
    textWidth width text = text.length ↔ ∀ c ∈ text, width c = 1 := by
  constructor
  · intro heq
    induction text with
    | nil => simp
    | cons c text ih =>
      obtain ⟨hc, hrest⟩ := List.forall_mem_cons.1 h
      have := length_le_textWidth hrest
      simp only [textWidth, List.length_cons] at heq
      exact List.forall_mem_cons.2 ⟨by omega, ih hrest (by omega)⟩
  · exact textWidth_narrow

end Width

/-! ## The emulator and the echo -/

section Emulator

variable {V : Type} [Vt V]

/-- The emulator prints the text on the line of the cursor: each character takes its width, and the line does not wrap
(columns are `u16`). -/
structure Prints (width : Char → Nat) (v : V) (text : Str) : Prop where
  point : Vt.point (Vt.advance v (utf8 text)) = ((Vt.point v).1 + textWidth width text, (Vt.point v).2)
  altScreen : (Vt.mode (Vt.advance v (utf8 text))).altScreen = (Vt.mode v).altScreen
  fits : (Vt.point v).1 + textWidth width text < 2 ^ 16

/-- Chunks leave the emulator with the cursor and the mode that their bytes leave it with. -/
theorem foldl_advance (hvt : Vt.Chunked V) (v : V) (bytes : List UInt8) (chunks : List (List UInt8)) :
    Vt.point (chunks.foldl Vt.advance (Vt.advance v bytes)) = Vt.point (Vt.advance v (bytes ++ chunks.flatten)) ∧
      Vt.mode (chunks.foldl Vt.advance (Vt.advance v bytes)) = Vt.mode (Vt.advance v (bytes ++ chunks.flatten)) := by
  induction chunks generalizing v bytes with
  | nil => simp
  | cons chunk chunks ih =>
    obtain ⟨hpoint, hmode, -⟩ := hvt v bytes (chunk ++ chunks.flatten)
    rw [List.foldl_cons, List.flatten_cons, hpoint, hmode]
    exact ih (Vt.advance v bytes) chunk

/-- The cursor after the echo of a text, whatever its chunks. -/
theorem Prints.foldl (hvt : Vt.Chunked V) {width : Char → Nat} {v : V} {text : Str} (h : Prints width v text)
    {chunks : List (List UInt8)} (hecho : chunks.flatten = utf8 text) :
    Vt.point (chunks.foldl Vt.advance v) = ((Vt.point v).1 + textWidth width text, (Vt.point v).2) ∧
      (Vt.mode (chunks.foldl Vt.advance v)).altScreen = (Vt.mode v).altScreen := by
  cases chunks with
  | nil =>
    obtain rfl : text = [] := utf8_eq_nil.1 hecho.symm
    exact ⟨rfl, rfl⟩
  | cons chunk chunks =>
    obtain ⟨hpoint, hmode⟩ := foldl_advance hvt v chunk chunks
    rw [List.flatten_cons] at hecho
    rw [List.foldl_cons, hpoint, hmode, hecho]
    exact ⟨h.point, h.altScreen⟩

end Emulator

/-- The bytes of a text without control characters are no control bytes. -/
theorem le_of_mem_utf8 {text : Str} (h : ∀ c ∈ text, isControl c = false) {b : UInt8} (hb : b ∈ utf8 text) :
    0x20 ≤ b.toNat := by
  obtain ⟨c, hc, hb⟩ := List.mem_flatMap.1 hb
  by_cases hascii : IsAscii c
  · have hlt : c.toNat < 0x80 := hascii
    have hplain := h c hc
    simp only [isControl, Bool.or_eq_false_iff, decide_eq_false_iff_not] at hplain
    rw [utf8EncodeChar_ascii hascii, List.mem_singleton] at hb
    rw [hb, UInt8.toNat_ofNat', Nat.mod_eq_of_lt (by omega)]
    omega
  · exact le_trans (by decide) (utf8EncodeChar_nonascii hascii hb)

/-- Bytes that are no control bytes complete no marker, unless the scanner expects the end of one. -/
theorem events_plain {s : OscScanner} (hs : s.state ≠ .oscMaybeSt) {bytes : List UInt8}
    (h : ∀ b ∈ bytes, 0x20 ≤ b.toNat) : s.events bytes = [] ∧ (s.after bytes).state ≠ .oscMaybeSt := by
  induction bytes generalizing s with
  | nil => exact ⟨rfl, hs⟩
  | cons b bytes ih =>
    obtain ⟨hb, hrest⟩ := List.forall_mem_cons.1 h
    have hne : ∀ x : UInt8, x.toNat < 0x20 → b ≠ x := fun x hx heq => by
      rw [heq] at hb
      omega
    have hbyte : (s.scanByte b).2 = none ∧ (s.scanByte b).1.state ≠ .oscMaybeSt := by
      unfold OscScanner.scanByte
      cases hst : s.state with
      | plain => simp [hne 0x1b (by decide), hst]
      | esc => by_cases hbr : b = 0x5d <;> simp [hbr]
      | inOsc =>
        simp only [hne 0x07 (by decide), hne 0x1b (by decide), if_false]
        split <;> simp [hst]
      | oscMaybeSt => exact absurd hst hs
    have hone : s.events [b] = [] ∧ s.after [b] = (s.scanByte b).1 := by
      simp [OscScanner.events, OscScanner.after, OscScanner.scan, hbyte.1]
    obtain ⟨hafter, hevents⟩ := @OscScanner.scan_append s [b] bytes
    rw [List.singleton_append] at hafter hevents
    rw [hafter, hevents, hone.1, hone.2]
    exact ih hbyte.2 hrest

/-! ## Output without markers -/

section Quiet

variable {V : Type} {app : App V}

/-- The two applications have the line, its suggestion and the prompt position in common. -/
structure SameGate (app app' : App V) : Prop where
  shadowInput : app'.shadowInput = app.shadowInput
  suggestion : app'.suggestion = app.suggestion
  promptPos : app'.promptPos = app.promptPos

theorem SameGate.trans {app app' app'' : App V} (h : SameGate app app') (h' : SameGate app' app'') :
    SameGate app app'' :=
  ⟨h'.shadowInput.trans h.shadowInput, h'.suggestion.trans h.suggestion, h'.promptPos.trans h.promptPos⟩

variable [Vt V]

/-- The chunk completes no marker and is not taken for a prompt. -/
def Quiet (app : App V) (bytes : List UInt8) : Prop := app.outEvents bytes = [] ∧ app.heuristic bytes = false

/-- A quiet chunk goes to the terminal only. -/
theorem sameGate_onOutput {bytes : List UInt8} (h : app.Quiet bytes) :
    SameGate app (app.onOutput bytes) ∧ (app.onOutput bytes).shadowCursor = app.shadowCursor := by
  obtain ⟨hevents, hheuristic⟩ := h
  rw [onOutput_eq]
  refine ⟨⟨?_, ?_, ?_⟩, ?_⟩ <;> simp [hevents, hheuristic, lastMark, place]

end Quiet

/-! ## Typing and echo -/

section Typing

variable {V : Type} [Vt V] {s t : App V × History}

/-- A text typed while output comes in these chunks. -/
inductive Echo : List Input → Str → List (List UInt8) → Prop
  | nil : Echo [] [] []
  | typed {i : Input} {c : Char} {l : List Input} {text : Str} {chunks : List (List UInt8)} (hi : Types i c)
      (h : Echo l text chunks) : Echo (i :: l) (c :: text) chunks
  | output {bytes : List UInt8} {l : List Input} {text : Str} {chunks : List (List UInt8)} (h : Echo l text chunks) :
      Echo (.event (.output bytes) :: l) text (bytes :: chunks)

/-- At the end of the line, with a scanner that is not waiting for the end of a marker. -/
structure Ready (s : App V × History) (text : Str) : Prop where
  holds : Holds s text []
  scanner : s.1.terminal.oscScanner.state ≠ .oscMaybeSt

/-- A chunk of an echo goes to the terminal only. -/
theorem Ready.output {text : Str} (h : Ready s text) {bytes : List UInt8} (hb : ∀ b ∈ bytes, 0x20 ≤ b.toNat) :
    Ready (s.1.onSessionEvent (.output bytes), s.2) text ∧
      (s.1.onSessionEvent (.output bytes)).terminal.inner = Vt.advance s.1.terminal.inner bytes ∧
      (s.1.onSessionEvent (.output bytes)).promptPos = s.1.promptPos := by
  obtain ⟨hevents, hafter⟩ := events_plain h.scanner hb
  have hquiet : s.1.Quiet bytes := by
    have hnl : (0x0a : UInt8) ∉ bytes := fun hmem => absurd (hb _ hmem) (by decide)
    exact ⟨(h.holds.ok.outEvents_eq bytes).trans hevents, by simp [heuristic, hnl]⟩
  obtain ⟨hsame, hcursor⟩ := sameGate_onOutput hquiet
  have hterminal : (s.1.onOutput bytes).terminal = { (s.1.terminal.feed bytes) with pendingOsc := [] } := by
    rw [onOutput_eq]
  refine ⟨⟨⟨h.holds.ok.onSessionEvent (.output bytes), ?_⟩, ?_⟩, ?_, hsame.promptPos⟩
  · rw [← h.holds.zip]
    simp only [onSessionEvent, zip, hsame.shadowInput, hcursor]
  · simpa only [onSessionEvent, hterminal, Terminal.feed_eq] using hafter
  · simp only [onSessionEvent, hterminal, Terminal.feed_eq]

/-- **The line after a text typed and echoed**: the line holds the text, and the terminal has seen the echo. -/
theorem Ready.echo {text text' : Str} (h : Ready s text) {l : List Input} {chunks : List (List UInt8)}
    (he : Echo l text' chunks) (hb : ∀ b ∈ chunks.flatten, 0x20 ≤ b.toNat) :
    ∃ t, Lts.run App.step s l = some t ∧ Ready t (text ++ text') ∧
      t.1.terminal.inner = chunks.foldl Vt.advance s.1.terminal.inner ∧ t.1.promptPos = s.1.promptPos := by
  induction he generalizing s text with
  | nil => exact ⟨s, rfl, by simpa using h, rfl, rfl⟩
  | @typed i c l text' chunks hi _ ih =>
    obtain ⟨u, hu, hholds, -, hterm⟩ := h.holds.types hi
    have hready : Ready u (text ++ [c]) := ⟨hholds, by rw [hterm]; exact h.scanner⟩
    have hprompt : u.1.promptPos = s.1.promptPos := by
      obtain ⟨key, env, rfl, -⟩ := hi
      obtain ⟨r, hr, rfl⟩ := Option.map_eq_some_iff.1 hu
      exact (keyStep_of_onKey h.holds.ok.wf hr).promptPos
    obtain ⟨t, ht, hend, hinner, hpos⟩ := ih hready hb
    refine ⟨t, by rw [Lts.run_cons, hu]; exact ht, by simpa using hend, by rw [hinner, hterm], hpos.trans hprompt⟩
  | @output bytes l text' chunks _ ih =>
    rw [List.flatten_cons] at hb
    obtain ⟨hready, hinner, hprompt⟩ := h.output fun b hmem => hb b (List.mem_append_left _ hmem)
    obtain ⟨t, ht, hend, hinner', hpos⟩ := ih hready fun b hmem => hb b (List.mem_append_right _ hmem)
    exact ⟨t, ht, hend, by rw [hinner', hinner]; rfl, hpos.trans hprompt⟩

end Typing

/-! ## Moving in the line -/

section Moving

variable {V : Type} [Vt V] {s s' t : App V × History} {i : Input}

/-- A key that moves the cursor of the line and accepts nothing, or what the session says meanwhile, without markers. -/
def IsMove (s : App V × History) : Input → Prop
  | .key key _ =>
    (key.code = .left ∨ key.code = .right ∨ key.code = .home ∨ key.code = .end) ∧ s.1.accepts key = false
  | .event (.output bytes) | .event (.stderr bytes) => s.1.Quiet bytes
  | .event _ => True

/-- A move changes nothing that the gate looks at but the terminal. -/
theorem sameGate_move (hok : s.1.Ok) (hi : IsMove s i) (hs : App.step s i = some s') : SameGate s.1 s'.1 := by
  cases i with
  | key key env =>
    obtain ⟨hk, ha⟩ := hi
    obtain ⟨r, hr, rfl⟩ := Option.map_eq_some_iff.1 hs
    have hstep := keyStep_of_onKey hok.wf hr
    have hkeep : keyCached key = .keep := by rcases hk with hk | hk | hk | hk <;> simp [keyCached, hk]
    cases hstep with
    | accepted _ ha' =>
      rw [ha] at ha'
      cases ha'
    | sent =>
      have htext : (s.1.shadowStep key s.2 env).shadowInput = s.1.shadowInput := by
        rw [shadowInput_shadowStep, text_of_keep hkeep, zip_text]
      have hsuggestion : (s.1.shadowStep key s.2 env).suggestion = s.1.suggestion := by
        unfold shadowStep
        rw [hkeep]
        rfl
      exact ⟨htext, hsuggestion, promptPos_shadowStep _ _ _ _⟩
    | _ => exact ⟨rfl, rfl, rfl⟩
  | event ev =>
    cases hs
    cases ev with
    | output bytes | stderr bytes => exact (sameGate_onOutput hi).1
    | _ => exact ⟨rfl, rfl, rfl⟩

/-- Nor do moves. -/
theorem sameGate_run {l : List Input} (hok : s.1.Ok) (hl : Lts.Each App.step IsMove s l)
    (hr : Lts.run App.step s l = some t) : SameGate s.1 t.1 := by
  induction l generalizing s with
  | nil =>
    cases hr
    exact ⟨rfl, rfl, rfl⟩
  | cons i l ih =>
    obtain ⟨u, hu, hr⟩ := Lts.run_cons_some hr
    exact (sameGate_move hok hl.1 hu).trans (ih (hok.step hu) (hl.2 u hu) hr)

/-- The cursor of the terminal has moved along with the cursor of the line: it is as many columns after the prompt as
the text before the cursor is wide. -/
structure InStep (width : Char → Nat) (prompt : Nat × Nat) (app : App V) : Prop where
  normal : app.terminal.isAltScreen = false
  cursor : app.terminal.cursor = (prompt.1 + textWidth width (app.shadowInput.take app.shadowCursor), prompt.2)

/-- **The gate tracks the text**: however the cursor is moved in the line, once the terminal has followed, a suggestion
is shown exactly at the end. -/
def GateTracks (width : Char → Nat) (prompt : Nat × Nat) (s : App V × History) : Prop :=
  ∀ moves t, Lts.Each App.step IsMove s moves → Lts.run App.step s moves = some t → t.1.InStep width prompt →
    t.1.suggestion.isSome = true → (t.1.canShowSuggestion = true ↔ t.1.shadowCursor = t.1.shadowInput.length)

/-- The gate where the terminal has followed. -/
theorem InStep.canShowSuggestion_iff {width : Char → Nat} {prompt : Nat × Nat} {app : App V}
    (h : app.InStep width prompt) (hp : app.promptPos = some prompt) (hs : app.suggestion.isSome = true) :
    app.canShowSuggestion = true ↔
      textWidth width (app.shadowInput.take app.shadowCursor) = app.shadowInput.length := by
  rw [App.canShowSuggestion_iff hs, CursorAfterLine, h.cursor, hp]
  constructor
  · rintro ⟨col, row, hpos, -, hcur⟩
    cases hpos
    have := congrArg Prod.fst hcur
    exact Nat.add_left_cancel this
  · intro heq
    exact ⟨prompt.1, prompt.2, rfl, h.normal, by rw [heq]⟩

end Moving

/-! ## The gate after the echo -/

section Gate

variable {V : Type} [Vt V] {s₀ s : App V × History}

/-- Output whose last marker is a prompt end places the prompt at the cursor and empties the line. -/
theorem ready_prompt (hok : s₀.1.Ok) {bytes : List UInt8}
    (hm : lastMark (s₀.1.terminal.oscScanner.events bytes) = some .prompt)
    (hs : App.step s₀ (.event (.output bytes)) = some s) :
    Holds s [] [] ∧ s.1.promptPos = some s.1.terminal.cursor := by
  cases hs
  have hmem : OscEvent.promptEnd ∈ s₀.1.terminal.oscScanner.events bytes := promptEnd_mem hm
  refine ⟨holds_output hok hmem, ?_⟩
  have hcursor : (s₀.1.onOutput bytes).terminal.cursor = s₀.1.outCursor bytes := by
    rw [onOutput_eq]
    rfl
  change (s₀.1.onOutput bytes).promptPos = some (s₀.1.onOutput bytes).terminal.cursor
  rw [hcursor, onOutput_eq]
  simp [hok.outEvents_eq, hm, place]

/-- The terminal is in step with the line when the echo has arrived. -/
theorem inStep_echo (hvt : Vt.Chunked V) {width : Char → Nat} {t : App V × History} {text : Str}
    {chunks : List (List UInt8)} (hnormal : s.1.terminal.isAltScreen = false)
    (hprint : Prints width s.1.terminal.inner text) (hecho : chunks.flatten = utf8 text) (hend : Ready t text)
    (hinner : t.1.terminal.inner = chunks.foldl Vt.advance s.1.terminal.inner) :
    t.1.InStep width s.1.terminal.cursor := by
  obtain ⟨hpoint, halt⟩ := hprint.foldl hvt hecho
  have hline : t.1.shadowInput.take t.1.shadowCursor = text := congrArg Zipper.before hend.holds.zip
  refine ⟨?_, ?_⟩
  · rw [← hinner] at halt
    exact halt.trans hnormal
  · have hfits := hprint.fits
    rw [hline, Terminal.cursor, hinner, hpoint, Terminal.cursor]
    simp only [Prod.mk.injEq, and_true]
    omega

/-- **The gate tracks a text that is typed at a prompt and echoed exactly if nothing completes it or all its characters
take one column.** -/
theorem gate_tracks_iff (hvt : Vt.Chunked V) (width : Char → Nat) {host user : Str} {cols rows : Nat}
    {history₀ : History} {l₀ : List Input} (hr : runNew host user cols rows history₀ l₀ = some s₀)
    {bytes : List UInt8} (hm : lastMark (s₀.1.terminal.oscScanner.events bytes) = some .prompt)
    (hs : App.step s₀ (.event (.output bytes)) = some s) (hnormal : s.1.terminal.isAltScreen = false)
    (hscan : s.1.terminal.oscScanner.state ≠ .oscMaybeSt) {l : List Input} {text : Str}
    {chunks : List (List UInt8)} (he : Echo l text chunks) (hecho : chunks.flatten = utf8 text)
    (htext : ∀ c ∈ text, isControl c = false) (hwidth : ∀ c ∈ text, width c = 1 ∨ width c = 2)
    (hprint : Prints width s.1.terminal.inner text) :
    ∃ t, Lts.run App.step s l = some t ∧ t.1.shadowInput = text ∧ t.1.InStep width s.1.terminal.cursor ∧
      (GateTracks width s.1.terminal.cursor t ↔ t.1.suggestion = none ∨ ∀ c ∈ text, width c = 1) := by
  have hok : s₀.1.Ok := run_ok (ok_new host user cols rows) hr
  obtain ⟨hholds, hprompt⟩ := ready_prompt hok hm hs
  have hstart : Ready s [] := ⟨hholds, hscan⟩
  obtain ⟨t, ht, hend, hinner, hpos⟩ := hstart.echo he fun b hb => le_of_mem_utf8 htext (hecho ▸ hb)
  rw [List.nil_append] at hend
  have hstep := inStep_echo hvt hnormal hprint hecho hend hinner
  have hpt : t.1.promptPos = some s.1.terminal.cursor := hpos.trans hprompt
  have hline : t.1.shadowInput = text := by
    rw [← zip_text, hend.holds.zip, Zipper.text, List.append_nil]
  have hcursor : t.1.shadowCursor = t.1.shadowInput.length := by
    rw [cursor_eq_length hend.holds.ok.wf, hend.holds.zip]
  refine ⟨t, ht, hline, hstep, ?_, ?_⟩
  · -- at the end of the line
    intro htracks
    by_cases hnone : t.1.suggestion = none
    · exact .inl hnone
    · have hsome := Option.isSome_iff_ne_none.2 hnone
      have hshown := (htracks [] t trivial rfl hstep hsome).2 hcursor
      rw [hstep.canShowSuggestion_iff hpt hsome, hcursor, List.take_length, hline] at hshown
      exact .inr ((textWidth_eq_length hwidth).1 hshown)
  · rintro hcase moves u hmoves hu hin hsome
    have hsame := sameGate_run hend.holds.ok hmoves hu
    have hwf : u.1.Wf := (run_ok hend.holds.ok hu).wf
    rcases hcase with hnone | hnarrow
    · rw [hsame.suggestion, hnone] at hsome
      cases hsome
    · rw [hin.canShowSuggestion_iff (hsame.promptPos.trans hpt) hsome, textWidth_narrow fun c hc => ?_,
        List.length_take, min_eq_left hwf]
      exact hnarrow c (hline ▸ hsame.shadowInput ▸ List.mem_of_mem_take hc)

end Gate

/-! ## Narrow and wide characters -/

/-- The prompt end marker. -/
def promptMark : List UInt8 := [0x1b, 0x5d, 0x31, 0x33, 0x33, 0x3b, 0x42, 0x07]

def gitPrompt : App MiniVt × History :=
  ((App.new ['h'] ['u'] 80 24).onSessionEvent (.output promptMark), gitHistory)

theorem gate_tracks_git : ∃ t, Lts.run App.step gitPrompt [pressed (.char 'g'), .event (.output [0x67])] = some t ∧
    GateTracks (fun _ => 1) (0, 0) t := by
  have hstart : runNew ['h'] ['u'] 80 24 gitHistory [] = some ((App.new ['h'] ['u'] 80 24 : App MiniVt), gitHistory) :=
    rfl
  have hs : App.step ((App.new ['h'] ['u'] 80 24 : App MiniVt), gitHistory) (.event (.output promptMark)) =
      some gitPrompt := rfl
  have hecho : Echo [pressed (.char 'g'), .event (.output [0x67])] ['g'] [[0x67]] :=
    .typed ⟨_, _, rfl, rfl, rfl⟩ (.output .nil)
  obtain ⟨t, ht, -, -, hiff⟩ := gate_tracks_iff MiniVt.chunked (fun _ => 1) hstart (by decide) hs (by decide)
    (by decide) hecho rfl (List.forall_mem_singleton.2 rfl) (fun _ _ => .inl rfl) ⟨by decide, by decide, by decide⟩
  exact ⟨t, ht, hiff.2 (.inr fun _ _ => rfl)⟩

/-- A terminal whose characters of three bytes and more are wide. -/
structure WideVt where
  mini : MiniVt

namespace WideVt

/-- The first byte of a character outside ASCII moves the cursor by the width of the character. -/
def advanceByte (v : WideVt) (b : UInt8) : WideVt :=
  if v.mini.state = .ground ∧ 0xc0 ≤ b then
    { mini := { v.mini with col := min (v.mini.col + if b < 0xe0 then 1 else 2) (v.mini.cols - 1) } }
  else { mini := v.mini.advanceByte b }

instance : Vt WideVt where
  new cols rows := { mini := Vt.new cols rows }
  advance v bytes := bytes.foldl advanceByte v
  resize v cols rows := { mini := Vt.resize v.mini cols rows }
  point v := Vt.point v.mini
  mode v := Vt.mode v.mini
  scrollDisplay v n := { mini := Vt.scrollDisplay v.mini n }
  displayIter v := Vt.displayIter v.mini

theorem chunked : Vt.Chunked WideVt := fun _ _ _ => by simp [Vt.advance]

end WideVt

def wideWidth (c : Char) : Nat := if c.toNat < 0x800 then 1 else 2

/-- A history with one command of two wide characters. -/
def wideHistory : History :=
  { gitHistory with rows := gitHistory.rows.map fun r => { r with command := ['日', '本'] } }

def widePrompt : App WideVt × History :=
  ((App.new ['h'] ['u'] 80 24).onSessionEvent (.output promptMark), wideHistory)

/-- A wide character, typed and echoed. -/
def wideRun : List Input := [pressed (.char '日'), .event (.output [0xe6, 0x97, 0xa5])]

/-- The suggestion is not shown behind a wide character. -/
theorem gate_lost : Echo wideRun ['日'] [[0xe6, 0x97, 0xa5]] ∧ [[0xe6, 0x97, 0xa5]].flatten = utf8 ['日'] ∧
    Prints wideWidth widePrompt.1.terminal.inner ['日'] ∧ widePrompt.1.promptPos = some (0, 0) ∧
    ∃ t, Lts.run App.step widePrompt wideRun = some t ∧ ¬ GateTracks wideWidth (0, 0) t := by
  refine ⟨.typed ⟨_, _, rfl, rfl, rfl⟩ (.output .nil), by decide, ⟨by decide, by decide, by decide⟩, by decide, ?_⟩
  obtain ⟨t, ht, heq⟩ : ∃ t, Lts.run App.step widePrompt wideRun = some t ∧
      (t.1.shadowInput, t.1.shadowCursor, t.1.suggestion, t.1.canShowSuggestion) = (['日'], 1, some ['本'], false) :=
    Option.map_eq_some_iff.1 (by decide +kernel)
  have hterminal : (Lts.run App.step widePrompt wideRun).map
      (fun t => (t.1.terminal.isAltScreen, t.1.terminal.cursor)) = some (false, (2, 0)) := by decide +kernel
  rw [ht, Option.map_some, Option.some.injEq] at hterminal
  simp only [Prod.mk.injEq] at heq
  obtain ⟨hline, hpos, hsome, hclosed⟩ := heq
  obtain ⟨hnormal, hcursor⟩ := Prod.mk.inj hterminal
  refine ⟨t, ht, fun h => ?_⟩
  have hin : t.1.InStep wideWidth (0, 0) := ⟨hnormal, by rw [hcursor, hline, hpos]; decide⟩
  have hshown := (h [] t trivial rfl hin (by rw [hsome]; rfl)).2 (by rw [hpos, hline]; rfl)
  rw [hclosed] at hshown
  cases hshown

end TinySsh.App
