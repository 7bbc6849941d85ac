import TinySsh.Term.Grammar

/-!
# Arbitrary streams

What the scanner reports of output that need not be well formed.

* `recognises_iff`: it sees a marker exactly when it is in its initial state; an escape or an OSC string left open
  swallows the `ESC` that opens the next one.
* `never_invents`: it reports only what stands in the stream. Every event has an OSC string of its own, whose last byte
  is the one that the event is pushed at.
-/

namespace TinySsh.OscScanner

variable {s : OscScanner} {rest : List UInt8}

theorem scan_concat (s : OscScanner) (bytes : List UInt8) (b : UInt8) :
    s.after (bytes ++ [b]) = (scanByte (s.after bytes) b).1 ∧
      s.events (bytes ++ [b]) = s.events bytes ++ (scanByte (s.after bytes) b).2.toList := by
  obtain ⟨hafter, hevents⟩ := @scan_append s bytes [b]
  obtain ⟨hone, hout⟩ := scan_cons (s.after bytes) b []
  rw [hafter, hevents, hone, hout]
  exact ⟨rfl, by simp [events, scan]⟩

/-! ## Markers after arbitrary output -/

/-- The markers of OSC 133. -/
inductive Marker
  | promptStart | promptEnd | commandStart | commandEnd
deriving DecidableEq

namespace Marker

def letter : Marker → UInt8
  | .promptStart => 0x41
  | .promptEnd => 0x42
  | .commandStart => 0x43
  | .commandEnd => 0x44

def event : Marker → OscEvent
  | .promptStart => .promptStart
  | .promptEnd => .promptEnd
  | .commandStart => .commandStart
  | .commandEnd => .commandEnd

/-- The marker without the `BEL` at its end. -/
def opening (m : Marker) : List UInt8 := [0x1b, 0x5d, 0x31, 0x33, 0x33, 0x3b, m.letter]

end Marker

/-- **The scanner reports the marker at its final `BEL`.** -/
def Recognises (s : OscScanner) (m : Marker) : Prop := (scanByte (s.after m.opening) 0x07).2 = some m.event

/-- Where a marker leaves the scanner: inside of its string from the initial state, and there from any other one. -/
theorem after_opening (s : OscScanner) (m : Marker) : s.after m.opening =
    if s.state = .plain then ⟨.inOsc, [0x31, 0x33, 0x33, 0x3b, m.letter]⟩
    else ⟨.plain, if s.state = .esc then s.payload else []⟩ := by
  obtain ⟨state, payload⟩ := s
  cases state <;> cases m <;> simp [after, scan, scanByte, Marker.opening, Marker.letter, oscPayloadCap]

/-- **After any output, a marker is reported exactly when the scanner is in its initial state.** -/
theorem recognises_iff (output : List UInt8) (m : Marker) :
    Recognises (after {} output) m ↔ (after {} output).state = .plain := by
  unfold Recognises
  rw [after_opening]
  by_cases h : (after {} output).state = .plain
  · simp only [h, if_true, iff_true]
    cases m <;> decide
  · simp only [h, if_false, iff_false]
    simp [scanByte]

/-- The second `ESC` in a row is taken for the end of the first one's sequence. -/
theorem marker_swallowed : ¬ ∀ (output : List UInt8) (m : Marker), Recognises (after {} output) m := by
  intro h
  have hmarker := h [0x1b] .promptEnd
  revert hmarker
  unfold Recognises
  decide

/-! ## Events and the strings they come from -/

/-- An OSC string of the stream, with a payload of any length. -/
structure Osc where
  payload : List UInt8
  noBel : 0x07 ∉ payload
  noEsc : 0x1b ∉ payload
  terminator : Terminator

def Osc.bytes (o : Osc) : List UInt8 := [0x1b, 0x5d] ++ o.payload ++ o.terminator.bytes

/-- What the part of the payload that fits the buffer stands for. -/
def Osc.event (o : Osc) : Option OscEvent := dispatch (o.payload.take oscPayloadCap)

theorem scan_osc (q : List UInt8) (o : Osc) : events ⟨.plain, q⟩ o.bytes = o.event.toList :=
  (scan_string o.noBel o.noEsc o.terminator q).2

/-- A stream as OSC strings with the bytes skipped before each of them. -/
def spell (parts : List (List UInt8 × Osc)) : List UInt8 := parts.flatMap fun q => q.1 ++ q.2.bytes

/-- The state that the bytes since the last event leave. Behind an OSC string that is open, the buffer has the beginning
of its payload. -/
inductive Reads : OscScanner → List UInt8 → Prop
  | plain (rest : List UInt8) : Reads ⟨.plain, []⟩ rest
  | esc (gap : List UInt8) : Reads ⟨.esc, []⟩ (gap ++ [0x1b])
  | inOsc (gap : List UInt8) {p : List UInt8} (hbel : 0x07 ∉ p) (hesc : 0x1b ∉ p) :
      Reads ⟨.inOsc, p.take oscPayloadCap⟩ (gap ++ ([0x1b, 0x5d] ++ p))
  | oscMaybeSt (gap : List UInt8) {p : List UInt8} (hbel : 0x07 ∉ p) (hesc : 0x1b ∉ p) :
      Reads ⟨.oscMaybeSt, p.take oscPayloadCap⟩ (gap ++ ([0x1b, 0x5d] ++ p ++ [0x1b]))

/-- The last byte of an OSC string pushes its event, if it has one. -/
theorem Reads.of_osc {b : UInt8} (gap : List UInt8) (o : Osc) (hrest : rest ++ [b] = gap ++ o.bytes)
    (hstep : s.scanByte b = ({}, o.event)) :
    (s.scanByte b).2 = none ∧ Reads (s.scanByte b).1 (rest ++ [b]) ∨
      ∃ (gap : List UInt8) (o : Osc) (ev : OscEvent), rest ++ [b] = gap ++ o.bytes ∧ o.event = some ev ∧
        s.scanByte b = ({}, some ev) := by
  cases hev : o.event with
  | none =>
    rw [hev] at hstep
    rw [hstep]
    exact .inl ⟨rfl, .plain _⟩
  | some ev => exact .inr ⟨gap, o, ev, hrest, hev, hev ▸ hstep⟩

/-- **An event is pushed at the last byte of an OSC string** that the bytes since the last event end with. -/
theorem Reads.scanByte (h : Reads s rest) (b : UInt8) :
    (s.scanByte b).2 = none ∧ Reads (s.scanByte b).1 (rest ++ [b]) ∨
      ∃ (gap : List UInt8) (o : Osc) (ev : OscEvent), rest ++ [b] = gap ++ o.bytes ∧ o.event = some ev ∧
        s.scanByte b = ({}, some ev) := by
  cases h with
  | plain rest =>
    refine .inl ?_
    by_cases hb : b = 0x1b
    · subst hb
      exact ⟨rfl, .esc rest⟩
    · simp only [OscScanner.scanByte, hb, if_false]
      exact ⟨trivial, .plain _⟩
  | esc gap =>
    refine .inl ?_
    by_cases hb : b = 0x5d
    · subst hb
      simpa [OscScanner.scanByte] using Reads.inOsc gap (p := []) (by simp) (by simp)
    · simp only [OscScanner.scanByte, hb, if_false]
      exact ⟨trivial, .plain _⟩
  | @inOsc gap p hbel hesc =>
    by_cases hb : b = 0x07
    · subst hb
      exact Reads.of_osc gap ⟨p, hbel, hesc, .bel⟩ (by simp [Osc.bytes, Terminator.bytes]) rfl
    · by_cases hb' : b = 0x1b
      · subst hb'
        refine .inl ⟨rfl, ?_⟩
        simpa [OscScanner.scanByte] using Reads.oscMaybeSt gap hbel hesc
      · have hreads := Reads.inOsc gap (p := p ++ [b]) (by simp [hbel, Ne.symm hb]) (by simp [hesc, Ne.symm hb'])
        rw [scanByte_inOsc hb hb']
        exact .inl ⟨rfl, by simpa using hreads⟩
  | @oscMaybeSt gap p hbel hesc =>
    by_cases hb : b = 0x5c
    · subst hb
      exact Reads.of_osc gap ⟨p, hbel, hesc, .st⟩ (by simp [Osc.bytes, Terminator.bytes]) rfl
    · simp only [OscScanner.scanByte, hb, if_false]
      exact .inl ⟨trivial, .plain _⟩

/-- The parts of a stream that its events come from: the event of each is pushed at its last byte and no earlier. -/
structure Sources (bytes : List UInt8) (parts : List (List UInt8 × Osc)) : Prop where
  spelled : spell parts <+: bytes
  event : (events {} bytes).map some = parts.map fun q => q.2.event
  last : ∀ ps q, ps ++ [q] <+: parts →
    events {} (spell (ps ++ [q])).dropLast = (events {} bytes).take ps.length ∧
      events {} (spell (ps ++ [q])) = (events {} bytes).take (ps.length + 1)

variable {bytes gap : List UInt8} {parts : List (List UInt8 × Osc)} {o : Osc} {ev : OscEvent} {b : UInt8}

theorem spell_concat : spell (parts ++ [(gap, o)]) = spell parts ++ (gap ++ o.bytes) := by
  simp [spell]

/-- A byte without an event leaves the parts as they are. -/
theorem Sources.skip (h : Sources bytes parts) (hnone : ((after {} bytes).scanByte b).2 = none) :
    Sources (bytes ++ [b]) parts := by
  have hevents : events {} (bytes ++ [b]) = events {} bytes := by
    rw [(scan_concat _ _ _).2, hnone]
    simp
  exact ⟨h.spelled.trans (List.prefix_append _ _), hevents ▸ h.event, hevents ▸ h.last⟩

/-- A byte with an event adds a part. -/
theorem Sources.push (h : Sources bytes parts) {rest : List UInt8} (hbytes : bytes = spell parts ++ rest)
    (hrest : rest ++ [b] = gap ++ o.bytes) (hev : o.event = some ev)
    (hpush : ((after {} bytes).scanByte b).2 = some ev) : Sources (bytes ++ [b]) (parts ++ [(gap, o)]) := by
  have hspell : bytes ++ [b] = spell (parts ++ [(gap, o)]) := by
    rw [spell_concat, ← hrest, hbytes, List.append_assoc]
  have hevents : events {} (bytes ++ [b]) = events {} bytes ++ [ev] := by
    rw [(scan_concat _ _ _).2, hpush]
    rfl
  have hlen : (events {} bytes).length = parts.length := by simpa using congrArg List.length h.event
  refine ⟨hspell ▸ List.prefix_rfl, by simp [hevents, h.event, hev], fun ps q hq => ?_⟩
  obtain heq | hq := List.prefix_concat_iff.1 hq
  · -- the new part: its last byte is the last one of the stream
    have hps : ps = parts := (List.append_inj' heq rfl).1
    rw [heq, ← hspell, List.dropLast_concat, hevents, hps, ← hlen]
    exact ⟨by simp, (List.take_of_length_le (by simp)).symm⟩
  · -- an earlier part, whose events are not moved by the new one
    have hle : ps.length + 1 ≤ parts.length := by simpa using hq.length_le
    rw [hevents, List.take_append_of_le_length (by omega), List.take_append_of_le_length (by omega)]
    exact h.last ps q hq

/-- **The events of a stream come from parts of it**, and the bytes behind the last part are what the scanner reads. -/
theorem exists_sources (bytes : List UInt8) :
    ∃ parts rest, bytes = spell parts ++ rest ∧ Reads (after {} bytes) rest ∧ Sources bytes parts := by
  induction bytes using List.reverseRecOn with
  | nil => exact ⟨[], [], rfl, .plain [], by simp [spell], rfl, by simp⟩
  | append_singleton bytes b ih =>
    obtain ⟨parts, rest, hbytes, hreads, hsources⟩ := ih
    have hafter := (scan_concat {} bytes b).1
    obtain ⟨hnone, hreads⟩ | ⟨gap, o, ev, hrest, hev, hstep⟩ := hreads.scanByte b
    · exact ⟨parts, rest ++ [b], by rw [hbytes, List.append_assoc], hafter ▸ hreads, hsources.skip hnone⟩
    · refine ⟨parts ++ [(gap, o)], [], ?_, ?_, hsources.push hbytes hrest hev (by rw [hstep])⟩
      · rw [spell_concat, ← hrest, hbytes]
        simp
      · rw [hafter, hstep]
        exact .plain []

theorem Reads.payload_le (h : Reads s rest) : s.payload.length ≤ oscPayloadCap := by
  cases h with
  | inOsc | oscMaybeSt => exact List.length_take_le _ _
  | _ => exact Nat.zero_le _

/-- **The scanner reports only what stands in the stream, however it is cut**, and its buffer keeps its bound. -/
theorem never_invents (chunks : List (List UInt8)) :
    (∃ parts, Sources chunks.flatten parts ∧
      (scanChunks {} chunks).2.map some = parts.map fun q => q.2.event) ∧
      ∀ bytes, bytes <+: chunks.flatten → (after {} bytes).payload.length ≤ oscPayloadCap := by
  constructor
  · obtain ⟨parts, _, _, _, hsources⟩ := exists_sources chunks.flatten
    exact ⟨parts, hsources, by rw [scanChunks_flatten]; exact hsources.event⟩
  · intro bytes _
    obtain ⟨_, _, _, hreads, _⟩ := exists_sources bytes
    exact hreads.payload_le

end TinySsh.OscScanner
