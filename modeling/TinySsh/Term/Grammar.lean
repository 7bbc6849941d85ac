import TinySsh.Term

/-!
# Well-formed streams

The streams that the marker scanner is made for: text, escape sequences of two bytes, and OSC strings whose payload
fits the buffer (`Item`). An item leads the scanner from its initial state back to it and pushes the event of the
item's payload (`scan_item`), so a stream pushes the events of its payloads, however it is cut (`scanChunks_eq`).
-/

namespace TinySsh.OscScanner

open Text

/-! ## Streams -/

/-- A payload that the scanner reads in full. -/
structure Payload where
  bytes : List UInt8
  noBel : 0x07 ∉ bytes
  noEsc : 0x1b ∉ bytes
  fits : bytes.length ≤ oscPayloadCap

/-- The two ends of an OSC string: `BEL`, and `ST` as `ESC \`. -/
inductive Terminator
  | bel | st
deriving DecidableEq

def Terminator.bytes : Terminator → List UInt8
  | .bel => [0x07]
  | .st => [0x1b, 0x5c]

/-- A part of a well-formed stream. -/
inductive Item
  | text (b : UInt8) (hb : b ≠ 0x1b)
  | escape (b : UInt8) (hesc : b ≠ 0x1b) (hosc : b ≠ 0x5d)
  | osc (p : Payload) (t : Terminator)

namespace Item

def bytes : Item → List UInt8
  | .text b _ => [b]
  | .escape b _ _ => [0x1b, b]
  | .osc p t => [0x1b, 0x5d] ++ p.bytes ++ t.bytes

def payload : Item → Option Payload
  | .osc p _ => some p
  | _ => none

end Item

/-- The bytes of a stream. -/
def stream (items : List Item) : List UInt8 := items.flatMap Item.bytes

/-- The OSC payloads of a stream. -/
def payloads (items : List Item) : List Payload := items.filterMap Item.payload

/-! ## One item -/

variable {s : OscScanner} {b : UInt8} {bytes : List UInt8}

theorem scan_cons (s : OscScanner) (b : UInt8) (bytes : List UInt8) :
    s.after (b :: bytes) = (scanByte s b).1.after bytes ∧
      s.events (b :: bytes) = (scanByte s b).2.toList ++ (scanByte s b).1.events bytes := by
  have h : scan s (b :: bytes) [] = scan (scanByte s b).1 bytes (scanByte s b).2.toList := rfl
  rw [scan_out, scan_out] at h
  simpa [Prod.ext_iff] using h

/-- The buffer takes the next byte of the payload when it has room. -/
theorem take_concat_cap (p : List UInt8) (b : UInt8) : (p ++ [b]).take oscPayloadCap =
    if (p.take oscPayloadCap).length < oscPayloadCap then p.take oscPayloadCap ++ [b] else p.take oscPayloadCap := by
  rw [List.length_take]
  split
  · have hle : p.length + 1 ≤ oscPayloadCap := by omega
    rw [List.take_of_length_le (by simpa using hle), List.take_of_length_le (by omega)]
  · rw [List.take_append_of_le_length (by omega)]

theorem scanByte_inOsc (hbel : b ≠ 0x07) (hesc : b ≠ 0x1b) (p : List UInt8) :
    scanByte ⟨.inOsc, p.take oscPayloadCap⟩ b = (⟨.inOsc, (p ++ [b]).take oscPayloadCap⟩, none) := by
  rw [take_concat_cap]
  simp only [scanByte, hbel, hesc, if_false]
  split <;> rfl

/-- Inside of a string, the buffer has what fits of the payload, and nothing is reported on the way. -/
theorem scan_payload {p : List UInt8} (hbel : 0x07 ∉ p) (hesc : 0x1b ∉ p) (q : List UInt8) :
    after ⟨.inOsc, q.take oscPayloadCap⟩ p = ⟨.inOsc, (q ++ p).take oscPayloadCap⟩ ∧
      events ⟨.inOsc, q.take oscPayloadCap⟩ p = [] := by
  induction p generalizing q with
  | nil => simp [after, events, scan]
  | cons b p ih =>
    simp only [List.mem_cons, not_or] at hbel hesc
    obtain ⟨hafter, hevents⟩ := scan_cons ⟨.inOsc, q.take oscPayloadCap⟩ b p
    obtain ⟨ihafter, ihevents⟩ := ih hbel.2 hesc.2 (q ++ [b])
    rw [hafter, hevents, scanByte_inOsc (Ne.symm hbel.1) (Ne.symm hesc.1), ihafter, ihevents]
    simp

/-- A terminator dispatches the payload and resets the scanner. -/
theorem scan_terminator (t : Terminator) (p : List UInt8) :
    after ⟨.inOsc, p⟩ t.bytes = {} ∧ events ⟨.inOsc, p⟩ t.bytes = (dispatch p).toList := by
  cases t <;> simp [after, events, scan, scanByte, Terminator.bytes]

/-- **An OSC string pushes the event of what the buffer keeps of its payload.** -/
theorem scan_string {p : List UInt8} (hbel : 0x07 ∉ p) (hesc : 0x1b ∉ p) (t : Terminator) (q : List UInt8) :
    after ⟨.plain, q⟩ ([0x1b, 0x5d] ++ p ++ t.bytes) = {} ∧
      events ⟨.plain, q⟩ ([0x1b, 0x5d] ++ p ++ t.bytes) = (dispatch (p.take oscPayloadCap)).toList := by
  have hopen : after ⟨.plain, q⟩ [0x1b, 0x5d] = ⟨.inOsc, []⟩ ∧ events ⟨.plain, q⟩ [0x1b, 0x5d] = [] := by
    simp [after, events, scan, scanByte]
  obtain ⟨hbody, hnone⟩ := scan_payload hbel hesc []
  simp only [List.take_nil, List.nil_append] at hbody hnone
  obtain ⟨hend, hevent⟩ := scan_terminator t (p.take oscPayloadCap)
  simp only [List.append_assoc, scan_append, hopen, hbody, hnone, hend, hevent, List.nil_append, and_self]

/-- **An item leads from the initial state back to it and reports what its payload stands for.** -/
theorem scan_item (i : Item) :
    after {} i.bytes = {} ∧ events {} i.bytes = (i.payload.bind fun p => dispatch p.bytes).toList := by
  cases i with
  | text b hb => simp [after, events, scan, scanByte, Item.bytes, Item.payload, hb]
  | escape b hesc hosc => simp [after, events, scan, scanByte, Item.bytes, Item.payload, hosc]
  | osc p t =>
    obtain ⟨hend, hevent⟩ := scan_string p.noBel p.noEsc t []
    rw [List.take_of_length_le p.fits] at hevent
    exact ⟨hend, hevent⟩

/-! ## The whole stream -/

/-- **A stream reports its payloads in order.** -/
theorem scan_stream (items : List Item) :
    after {} (stream items) = {} ∧
      events {} (stream items) = (payloads items).filterMap fun p => dispatch p.bytes := by
  induction items with
  | nil => exact ⟨rfl, rfl⟩
  | cons i items ih =>
    obtain ⟨hafter, hevents⟩ := scan_item i
    have hcons : stream (i :: items) = i.bytes ++ stream items := rfl
    rw [hcons, scan_append.1, scan_append.2, hafter, hevents, ih.1, ih.2]
    refine ⟨rfl, ?_⟩
    cases hp : i.payload with
    | none => simp [payloads, hp]
    | some p => cases hd : dispatch p.bytes <;> simp [payloads, hp, hd]

/-- Successive calls of `scan`, one for each chunk, that push onto the same list. -/
def scanChunks (s : OscScanner) (chunks : List (List UInt8)) : OscScanner × List OscEvent :=
  chunks.foldl (fun p bytes => p.1.scan bytes p.2) (s, [])

theorem scanChunks_flatten (s : OscScanner) (chunks : List (List UInt8)) :
    scanChunks s chunks = (s.after chunks.flatten, s.events chunks.flatten) := by
  induction chunks using List.reverseRecOn with
  | nil => rfl
  | append_singleton chunks bytes ih =>
    have hconcat : scanChunks s (chunks ++ [bytes]) =
        (scanChunks s chunks).1.scan bytes (scanChunks s chunks).2 := by
      unfold scanChunks
      rw [List.foldl_append]
      rfl
    rw [hconcat, ih, scan_out]
    simp [scan_append]

/-- **The scanner reports exactly the markers of a well-formed stream, however it is cut**, and is then back in its
initial state. -/
theorem scanChunks_eq (items : List Item) (chunks : List (List UInt8)) (h : chunks.flatten = stream items) :
    (scanChunks {} chunks).2 = (payloads items).filterMap (fun p => dispatch p.bytes) ∧
      (scanChunks {} chunks).1 = { state := .plain, payload := [] } := by
  obtain ⟨hafter, hevents⟩ := scan_stream items
  rw [scanChunks_flatten, h, hafter, hevents]
  exact ⟨rfl, rfl⟩

/-- A report of `file:///a`. -/
def cwdPayload : Payload := ⟨0x37 :: 0x3b :: utf8 (fileScheme ++ ['/', 'a']), by decide, by decide, by decide⟩

theorem dispatch_cwdPayload : dispatch cwdPayload.bytes = some (.cwd ['/', 'a']) := by
  have hdispatch : dispatch cwdPayload.bytes = (parseFileUrl (utf8 (fileScheme ++ ['/', 'a']))).map OscEvent.cwd := by
    simp [dispatch, cwdPayload, List.dropPrefix?]
  have hpart : pathPart (fileScheme ++ ['/', 'a']) = some ['/', 'a'] := by decide
  have hdecode : percentDecode (utf8 ['/', 'a']) = some ['/', 'a'] := by decide
  rw [hdispatch, parseFileUrl, fromUtf8_eq_some.2 rfl]
  simp [hpart, hdecode]

/-- The prompt end. -/
def promptPayload : Payload := ⟨[0x31, 0x33, 0x33, 0x3b, 0x42], by decide, by decide, by decide⟩

/-- The report of the directory and a prompt, under `BEL` and `ST`. -/
def promptItems : List Item :=
  [.osc cwdPayload .bel, .text 0x24 (by decide), .osc promptPayload .st, .text 0x20 (by decide)]

/-- The same, with cuts inside a payload and a terminator. -/
def promptChunks : List (List UInt8) :=
  [[0x1b, 0x5d, 0x37, 0x3b, 0x66, 0x69, 0x6c, 0x65], [0x3a, 0x2f, 0x2f, 0x2f, 0x61, 0x07, 0x24, 0x1b],
   [0x5d, 0x31, 0x33, 0x33, 0x3b, 0x42, 0x1b], [0x5c, 0x20]]

theorem scanChunks_prompt : (scanChunks {} promptChunks).2 = [.cwd ['/', 'a'], .promptEnd] ∧
    (scanChunks {} promptChunks).1 = { state := .plain, payload := [] } := by
  obtain ⟨hevents, hend⟩ := scanChunks_eq promptItems promptChunks (by decide)
  have hpayloads : payloads promptItems = [cwdPayload, promptPayload] := rfl
  have hprompt : dispatch promptPayload.bytes = some .promptEnd := rfl
  refine ⟨hevents.trans ?_, hend⟩
  rw [hpayloads]
  simp [dispatch_cwdPayload, hprompt]

end TinySsh.OscScanner
