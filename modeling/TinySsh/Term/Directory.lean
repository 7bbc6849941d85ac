import TinySsh.Term.Reports

/-!
# Directory reports

OSC 7 carries the working directory as a file URL, whose path is percent-encoded UTF-8.

* `parseFileUrl_eq_some`: what the parser accepts, and the path that it reads there. A byte, escaped or not, becomes
  the character of its number.
* `decodes_iff`: so a path is read back when it is ASCII and its first slash is not escaped, and only then.
* `wholeOrNothing_iff`: of a report that does not fit the buffer, the beginning is believed, unless it is no URL by
  itself.
-/

namespace TinySsh

open Text

/-! ## Percent-encoding -/

/-- The digit of a number, in either case. -/
def HexDigit (h : UInt8) (n : Nat) : Prop :=
  n < 10 ∧ h.toNat = 0x30 + n ∨
    10 ≤ n ∧ n < 16 ∧ (h.toNat = 0x41 + (n - 10) ∨ h.toNat = 0x61 + (n - 10))

/-- A percent-encoding of some bytes: each is written as itself, unless it is the percent sign, or as an escape. -/
inductive Encodes : List UInt8 → List UInt8 → Prop
  | nil : Encodes [] []
  | raw {b : UInt8} {bytes enc : List UInt8} (hb : b ≠ 0x25) (h : Encodes bytes enc) : Encodes (b :: bytes) (b :: enc)
  | escape {b high low : UInt8} {m n : Nat} {bytes enc : List UInt8} (hhigh : HexDigit high m) (hlow : HexDigit low n)
      (hb : b.toNat = m * 16 + n) (h : Encodes bytes enc) : Encodes (b :: bytes) (0x25 :: high :: low :: enc)

/-- `char::from` -/
def latin1 (b : UInt8) : Char := Char.ofNat b.toNat

variable {bytes enc a b : List UInt8} {d : Str}

theorem hexDigit_eq_some {h : UInt8} {n : Nat} : hexDigit h = some n ↔ HexDigit h n := by
  unfold hexDigit HexDigit
  dsimp only
  split
  · simp only [Option.some.injEq]; omega
  · split
    · simp only [Option.some.injEq]; omega
    · split
      · simp only [Option.some.injEq]; omega
      · simp only [reduceCtorEq, false_iff]; omega

theorem HexDigit.lt {h : UInt8} {n : Nat} (hd : HexDigit h n) : n < 16 := by
  unfold HexDigit at hd
  omega

theorem percentDecode_raw {x : UInt8} (hx : x ≠ 0x25) (rest : List UInt8) :
    percentDecode (x :: rest) = (percentDecode rest).map (latin1 x :: ·) := by
  rw [percentDecode.eq_def]
  simp only [hx, if_false]
  rfl

theorem percentDecode_escape {x high low : UInt8} {m n : Nat} (hhigh : HexDigit high m) (hlow : HexDigit low n)
    (hx : x.toNat = m * 16 + n) (rest : List UInt8) :
    percentDecode (0x25 :: high :: low :: rest) = (percentDecode rest).map (latin1 x :: ·) := by
  rw [percentDecode.eq_def]
  simp only [if_true, hexDigit_eq_some.2 hhigh, hexDigit_eq_some.2 hlow, latin1, hx]
  cases percentDecode rest <;> rfl

/-- What is decoded is an encoding. -/
theorem exists_encodes (h : percentDecode enc = some d) : ∃ bytes, Encodes bytes enc ∧ d = bytes.map latin1 := by
  induction enc using percentDecode.induct generalizing d with
  | case1 =>
    obtain rfl := Option.some.inj h
    exact ⟨[], .nil, rfl⟩
  | case2 high low rest ih =>
    cases hm : hexDigit high with
    | none => simp [percentDecode, hm] at h
    | some m =>
      cases hn : hexDigit low with
      | none => simp [percentDecode, hm, hn] at h
      | some n =>
        have hhigh := hexDigit_eq_some.1 hm
        have hlow := hexDigit_eq_some.1 hn
        have hvalue : (UInt8.ofNat (m * 16 + n)).toNat = m * 16 + n := by
          have hmlt := hhigh.lt
          have hnlt := hlow.lt
          rw [UInt8.toNat_ofNat', Nat.mod_eq_of_lt (by omega)]
        rw [percentDecode_escape hhigh hlow hvalue] at h
        obtain ⟨d, hd, rfl⟩ := Option.map_eq_some_iff.1 h
        obtain ⟨bytes, henc, rfl⟩ := ih hd
        exact ⟨_ :: bytes, .escape hhigh hlow hvalue henc, rfl⟩
  | case3 rest hshort =>
    rw [percentDecode.eq_def] at h
    match rest, hshort with
    | [], _ => cases h
    | [_], _ => cases h
    | _ :: _ :: _, hshort => exact absurd rfl (hshort _ _ _)
  | case4 x rest hx ih =>
    rw [percentDecode_raw hx] at h
    obtain ⟨d, hd, rfl⟩ := Option.map_eq_some_iff.1 h
    obtain ⟨bytes, henc, rfl⟩ := ih hd
    exact ⟨x :: bytes, .raw hx henc, rfl⟩

/-- **Decoding undoes every encoding, byte by byte, and accepts nothing else.** -/
theorem percentDecode_eq_some : percentDecode enc = some d ↔ ∃ bytes, Encodes bytes enc ∧ d = bytes.map latin1 := by
  refine ⟨exists_encodes, ?_⟩
  rintro ⟨bytes, h, rfl⟩
  induction h with
  | nil => rfl
  | raw hb _ ih => rw [percentDecode_raw hb, ih]; rfl
  | escape hhigh hlow hb _ ih => rw [percentDecode_escape hhigh hlow hb, ih]; rfl

/-- Behind an encoding, decoding goes on. -/
theorem percentDecode_append (h : Encodes bytes a) : percentDecode (a ++ b) =
    (percentDecode b).map (bytes.map latin1 ++ ·) := by
  induction h with
  | nil => simp
  | raw hb _ ih => simp [percentDecode_raw hb, ih, Function.comp_def]
  | escape hhigh hlow hb _ ih => simp [percentDecode_escape hhigh hlow hb, ih, Function.comp_def]

/-- Bytes without a percent sign are an encoding of themselves. -/
theorem Encodes.of_raw (h : 0x25 ∉ bytes) : Encodes bytes bytes := by
  induction bytes with
  | nil => exact .nil
  | cons x bytes ih =>
    rw [List.mem_cons, not_or] at h
    exact .raw (Ne.symm h.1) (ih h.2)

/-- A slash divides an encoding: it is no digit. -/
theorem Encodes.split (h : Encodes bytes enc) (henc : enc = a ++ 0x2f :: b) :
    ∃ x y, bytes = x ++ y ∧ Encodes x a ∧ Encodes y (0x2f :: b) := by
  have hslash : ∀ n, ¬ HexDigit 0x2f n := fun n hd => by
    have hval : (0x2f : UInt8).toNat = 0x2f := rfl
    unfold HexDigit at hd
    omega
  induction h generalizing a with
  | nil => simp at henc
  | @raw x bytes enc hb h ih =>
    cases a with
    | nil =>
      have henc : x :: enc = 0x2f :: b := henc
      exact ⟨[], x :: bytes, rfl, .nil, henc ▸ .raw hb h⟩
    | cons y a =>
      obtain ⟨rfl, rfl⟩ := List.cons.inj henc
      obtain ⟨u, v, rfl, hu, hv⟩ := ih rfl
      exact ⟨x :: u, v, rfl, .raw hb hu, hv⟩
  | @escape x high low m n bytes enc hhigh hlow hb h ih =>
    -- a slash for the sign or for a digit is impossible, so `a` has the whole escape
    rcases a with _ | ⟨c, _ | ⟨c', _ | ⟨c'', a⟩⟩⟩ <;>
      simp only [List.nil_append, List.cons_append, List.cons.injEq] at henc
    · exact absurd henc.1 (by decide)
    · exact absurd (henc.2.1 ▸ hhigh) (hslash _)
    · exact absurd (henc.2.2.1 ▸ hlow) (hslash _)
    · obtain ⟨rfl, rfl, rfl, rfl⟩ := henc
      obtain ⟨u, v, rfl, hu, hv⟩ := ih rfl
      exact ⟨x :: u, v, rfl, .escape hhigh hlow hb hu, hv⟩

/-! ## The parser -/

theorem toNat_latin1 (x : UInt8) : (latin1 x).toNat = x.toNat := by
  have hlt := x.toNat_lt
  have hvalid : x.toNat.isValidChar := .inl (by omega)
  unfold latin1 Char.ofNat
  rw [dif_pos hvalid]
  rfl

/-- The text from its first slash on. -/
theorem findIdx?_slash {s part : Str} : (s.findIdx? (· = '/')).map s.drop = some part ↔
    ∃ host tail, '/' ∉ host ∧ part = '/' :: tail ∧ s = host ++ part := by
  constructor
  · intro h
    obtain ⟨i, hi, rfl⟩ := Option.map_eq_some_iff.1 h
    obtain ⟨hlt, hslash, hbefore⟩ := List.findIdx?_eq_some_iff_getElem.1 hi
    have hdrop := List.drop_eq_getElem_cons hlt
    rw [of_decide_eq_true hslash] at hdrop
    refine ⟨s.take i, s.drop (i + 1), fun hmem => ?_, hdrop, (List.take_append_drop i s).symm⟩
    obtain ⟨j, hj, heq⟩ := List.mem_take_iff_getElem.1 hmem
    exact hbefore j (by omega) (by simpa using heq)
  · rintro ⟨host, tail, hhost, rfl, rfl⟩
    have hnone : host.findIdx? (· = '/') = none := by
      rw [List.findIdx?_eq_none_iff]
      rintro c hc
      simpa using ne_of_mem_of_not_mem hc hhost
    simp [List.findIdx?_append, hnone, List.findIdx?_cons]

/-- The path part of a URL starts at the first slash behind the scheme; any other text is one as it stands. -/
theorem pathPart_eq_some {s part : Str} : pathPart s = some part ↔
    (∃ host tail, '/' ∉ host ∧ part = '/' :: tail ∧ s = fileScheme ++ (host ++ part)) ∨
      ¬ fileScheme <+: s ∧ part = s := by
  unfold pathPart
  cases h : s.dropPrefix? fileScheme with
  | some rest =>
    obtain ⟨scheme, rfl, hscheme⟩ := List.dropPrefix?_eq_some_iff.1 h
    obtain rfl := eq_of_beq hscheme
    simp only [List.append_cancel_left_eq, List.prefix_append, not_true_eq_false, false_and, or_false]
    exact findIdx?_slash
  | none =>
    have hno : ¬ fileScheme <+: s := by
      rintro ⟨rest, rfl⟩
      have hsome : (fileScheme ++ rest).dropPrefix? fileScheme = some rest :=
        List.dropPrefix?_eq_some_iff.2 ⟨fileScheme, rfl, beq_self_eq_true fileScheme⟩
      rw [h] at hsome
      cases hsome
    constructor
    · intro heq
      exact .inr ⟨hno, (Option.some.inj heq).symm⟩
    · rintro (⟨host, tail, -, -, rfl⟩ | ⟨-, rfl⟩)
      · exact absurd (List.prefix_append _ _) hno
      · rfl

/-- **The parser reads the path part of valid UTF-8 that is percent-encoded throughout.** -/
theorem parseFileUrl_eq_some {path : Str} : parseFileUrl bytes = some path ↔ ∃ s part src,
    bytes = utf8 s ∧ pathPart s = some part ∧ Encodes src (utf8 part) ∧ path = src.map latin1 ∧ path ≠ [] := by
  have hite : ∀ d : Str, (if d = [] then none else some d) = some path ↔ path = d ∧ path ≠ [] := fun d => by
    by_cases hd : d = []
    · simp [hd]
    · simp only [hd, if_false, Option.some.injEq]
      exact ⟨fun h => ⟨h.symm, h ▸ hd⟩, fun h => h.1.symm⟩
  simp only [parseFileUrl, bind, Option.bind_eq_some_iff, fromUtf8_eq_some, percentDecode_eq_some, hite]
  constructor
  · rintro ⟨s, hs, part, hpart, d, ⟨src, hsrc, rfl⟩, hpath, hne⟩
    exact ⟨s, part, src, hs, hpart, hsrc, hpath, hne⟩
  · rintro ⟨s, part, src, hs, hpart, hsrc, hpath, hne⟩
    exact ⟨s, hs, part, hpart, _, ⟨src, hsrc, rfl⟩, hpath, hne⟩

/-- A report of a directory: a text whose path part is an encoding, and is not empty. -/
def IsUrl (bytes : List UInt8) : Prop :=
  ∃ s part src, bytes = utf8 s ∧ pathPart s = some part ∧ part ≠ [] ∧ Encodes src (utf8 part)

theorem Encodes.eq_nil_iff (h : Encodes bytes enc) : bytes = [] ↔ enc = [] := by
  cases h <;> simp

theorem isUrl_iff : IsUrl bytes ↔ ∃ path, parseFileUrl bytes = some path := by
  simp only [parseFileUrl_eq_some]
  constructor
  · rintro ⟨s, part, src, hs, hpart, hne, hsrc⟩
    refine ⟨_, s, part, src, hs, hpart, hsrc, rfl, fun hnil => hne ?_⟩
    rwa [List.map_eq_nil_iff, hsrc.eq_nil_iff, utf8_eq_nil] at hnil
  · rintro ⟨path, s, part, src, hs, hpart, hsrc, rfl, hne⟩
    refine ⟨s, part, src, hs, hpart, fun hnil => hne ?_, hsrc⟩
    rwa [List.map_eq_nil_iff, hsrc.eq_nil_iff, utf8_eq_nil]

/-! ## Decoding the report of a path -/

/-- The file URL of an absolute path: valid UTF-8, with the bytes of the path percent-encoded behind the host. -/
structure FileUrl where
  path : Str
  host : Str
  text : Str
  absolute : path.head? = some '/'
  noSlash : '/' ∉ host
  encodes : Encodes (utf8 path) (utf8 text)

def FileUrl.payload (u : FileUrl) : List UInt8 := utf8 (fileScheme ++ u.host ++ u.text)

theorem isAscii_latin1 (x : UInt8) : IsAscii (latin1 x) ↔ x.toNat < 0x80 := by
  rw [IsAscii, toNat_latin1]

theorem countP_latin1 (bytes : List UInt8) : (bytes.map latin1).countP IsAscii = bytes.countP (·.toNat < 0x80) := by
  rw [List.countP_map]
  exact List.countP_congr fun x _ => by simp [isAscii_latin1]

/-- The bytes of a text are its characters where it is ASCII. -/
theorem map_latin1_utf8 {s : Str} : (utf8 s).map latin1 = s ↔ ∀ c ∈ s, IsAscii c := by
  constructor
  · intro h
    have hlen := congrArg List.length h
    rw [List.length_map, length_utf8] at hlen
    exact byteLen_eq_length.1 hlen
  · intro h
    induction s with
    | nil => rfl
    | cons c s ih =>
      obtain ⟨hc, hs⟩ := List.forall_mem_cons.1 h
      have hcons : utf8 (c :: s) = String.utf8EncodeChar c ++ utf8 s := rfl
      have hlt : c.toNat < 0x80 := hc
      rw [hcons, List.map_append, ih hs, utf8EncodeChar_ascii hc]
      simp [latin1, Nat.mod_eq_of_lt (show c.toNat < 256 by omega)]

/-- An encoding has one reading. -/
theorem Encodes.unique {x y : List UInt8} (hx : Encodes x enc) (hy : Encodes y enc) : x.map latin1 = y.map latin1 :=
  Option.some.inj ((percentDecode_eq_some.2 ⟨x, hx, rfl⟩).symm.trans (percentDecode_eq_some.2 ⟨y, hy, rfl⟩))

/-- What a path is read back from has all of its bytes: a part that is missing would have the leading slash, and the
rest too few ASCII characters. -/
theorem eq_nil_of_latin1 {path : Str} {x y : List UInt8} (habs : path.head? = some '/') (hsplit : utf8 path = x ++ y)
    (hy : y.map latin1 = path) : x = [] := by
  have hcount : x.countP (·.toNat < 0x80) = 0 := by
    have hpath := countP_utf8 path
    have hlatin := countP_latin1 y
    rw [hsplit, List.countP_append] at hpath
    rw [hy] at hlatin
    omega
  cases x with
  | nil => rfl
  | cons b x =>
    obtain ⟨tail, rfl⟩ := List.head?_eq_some_iff.1 habs
    have hb : b = 0x2f := (List.cons.inj (hsplit.symm.trans rfl)).1
    have hnot := List.countP_eq_zero.1 hcount b List.mem_cons_self
    rw [hb] at hnot
    exact absurd rfl hnot

/-- **A path is read back exactly when it is ASCII and its leading slash is written as itself.** -/
theorem decodes_iff (u : FileUrl) :
    parseFileUrl u.payload = some u.path ↔ (∀ c ∈ u.path, IsAscii c) ∧ u.text.head? = some '/' := by
  obtain ⟨path, host, text, habs, hhost, henc⟩ := u
  have hne : path ≠ [] := fun h => by simp [h] at habs
  rw [parseFileUrl_eq_some]
  constructor
  · rintro ⟨s, part, src, hs, hpart, hsrc, hpath, -⟩
    have hs : s = fileScheme ++ host ++ text :=
      Option.some.inj ((fromUtf8_eq_some.2 hs).symm.trans (fromUtf8_eq_some.2 rfl))
    subst hs
    obtain ⟨host', tail, -, rfl, heq⟩ | ⟨hno, -⟩ := pathPart_eq_some.1 hpart
    · rw [List.append_assoc, List.append_cancel_left_eq] at heq
      -- the slash that is found is behind the host, so some of the encoding may be left out
      have hgap : ∃ gap, text = gap ++ '/' :: tail := by
        obtain ⟨gap, -, htext⟩ | ⟨gap, rfl, htail⟩ := List.append_eq_append_iff.1 heq
        · exact ⟨gap, htext⟩
        · cases gap with
          | nil => exact ⟨[], htail.symm⟩
          | cons c gap =>
            obtain ⟨rfl, -⟩ := List.cons.inj htail
            exact absurd (by simp) hhost
      obtain ⟨gap, rfl⟩ := hgap
      have hdivided : utf8 (gap ++ '/' :: tail) = utf8 gap ++ 0x2f :: utf8 tail := utf8_append
      obtain ⟨x, y, hsplit, hx, hy⟩ := henc.split hdivided
      have hread : y.map latin1 = path := (hy.unique hsrc).trans hpath.symm
      obtain rfl := eq_nil_of_latin1 habs hsplit hread
      obtain rfl : gap = [] := utf8_eq_nil.1 (hx.eq_nil_iff.1 rfl)
      rw [List.nil_append] at hsplit
      rw [← hsplit] at hread
      exact ⟨map_latin1_utf8.1 hread, rfl⟩
    · exact absurd ⟨host ++ text, by simp⟩ hno
  · rintro ⟨hascii, hhead⟩
    obtain ⟨tail, rfl⟩ := List.head?_eq_some_iff.1 hhead
    refine ⟨_, _, _, rfl, pathPart_eq_some.2 (.inl ⟨host, tail, hhost, rfl, by simp⟩), henc, ?_, hne⟩
    exact (map_latin1_utf8.2 hascii).symm

/-- The directory `/é`, whose second character is two bytes. -/
def FileUrl.accented : FileUrl where
  path := ['/', 'é']
  host := []
  text := ['/', 'é']
  absolute := rfl
  noSlash := by simp
  encodes := .raw (by decide) (.raw (by decide) (.raw (by decide) .nil))

theorem accented_misread : ¬ ∀ u : FileUrl, parseFileUrl u.payload = some u.path := by
  intro h
  have haccented := h FileUrl.accented
  revert haccented
  decide +kernel

/-! ## Reports longer than the buffer -/

/-- An OSC 7 string: the report behind `7;`, of any length. -/
structure CwdReport where
  rest : List UInt8
  noBel : 0x07 ∉ rest
  noEsc : 0x1b ∉ rest
  terminator : OscScanner.Terminator

namespace CwdReport

open OscScanner

def osc (r : CwdReport) : Osc where
  payload := [0x37, 0x3b] ++ r.rest
  noBel := by simpa using r.noBel
  noEsc := by simpa using r.noEsc
  terminator := r.terminator

/-- What the scanner pushes for the report from the state Plain. -/
def scanned (q : List UInt8) (r : CwdReport) : List OscEvent := events ⟨.plain, q⟩ r.osc.bytes

/-- A directory that is pushed is the one of the whole report. -/
def Whole (q : List UInt8) (r : CwdReport) : Prop :=
  r.scanned q = [] ∨ ∃ path, parseFileUrl r.rest = some path ∧ r.scanned q = [.cwd path]

/-- **A report is believed as a whole or not at all.** -/
structure WholeOrNothing (q : List UInt8) (r : CwdReport) : Prop where
  whole : Whole q r
  truncated : oscPayloadCap < r.osc.payload.length → r.scanned q = []

/-- The part of the report that the buffer keeps. -/
def kept (r : CwdReport) : List UInt8 := r.rest.take (oscPayloadCap - 2)

theorem scanned_eq (q : List UInt8) (r : CwdReport) :
    r.scanned q = ((parseFileUrl r.kept).map OscEvent.cwd).toList := by
  have hdispatch : ∀ rest, dispatch (0x37 :: 0x3b :: rest) = (parseFileUrl rest).map OscEvent.cwd := fun _ => by
    simp [dispatch, List.dropPrefix?]
  rw [scanned, scan_osc, Osc.event, ← hdispatch]
  rfl

end CwdReport

/-- Behind a path part that has the scheme or is too long to become one, the path part goes on. -/
theorem pathPart_append {s part : Str} (h : pathPart s = some part) (hlen : fileScheme.length ≤ s.length) (u : Str) :
    pathPart (s ++ u) = some (part ++ u) := by
  rw [pathPart_eq_some] at h ⊢
  obtain ⟨host, tail, hhost, rfl, rfl⟩ | ⟨hno, rfl⟩ := h
  · exact .inl ⟨host, tail ++ u, hhost, rfl, by simp⟩
  · exact .inr ⟨fun hscheme => hno (List.prefix_of_prefix_length_le hscheme (List.prefix_append _ _) hlen), rfl⟩

/-- A report is never read as the path of a part of it. -/
theorem parseFileUrl_append {path : Str} (ha : parseFileUrl a = some path) (hlen : 28 ≤ a.length) (hb : b ≠ []) :
    parseFileUrl (a ++ b) ≠ some path := by
  intro hab
  obtain ⟨s, part, src, rfl, hpart, hsrc, hpath, -⟩ := parseFileUrl_eq_some.1 ha
  obtain ⟨s', part', src', hs', hpart', hsrc', hpath', -⟩ := parseFileUrl_eq_some.1 hab
  obtain ⟨u, rfl, rfl⟩ := utf8_eq_append hs'.symm
  have hchars : fileScheme.length ≤ s.length := by
    have hbytes := (length_le_byteLen s).2
    rw [length_utf8] at hlen
    change 7 ≤ s.length
    omega
  rw [pathPart_append hpart hchars, Option.some.injEq] at hpart'
  -- the paths are equal, so nothing is left for the bytes behind the part
  have hwhole := percentDecode_eq_some.2 ⟨src', hsrc', rfl⟩
  rw [← hpart', utf8_append, percentDecode_append hsrc, ← hpath', hpath] at hwhole
  obtain ⟨d, hd, heq⟩ := Option.map_eq_some_iff.1 hwhole
  obtain ⟨more, hmore, rfl⟩ := percentDecode_eq_some.1 hd
  rw [List.append_right_eq_self, List.map_eq_nil_iff, hmore.eq_nil_iff] at heq
  exact hb heq

namespace CwdReport

theorem length_payload (r : CwdReport) : r.osc.payload.length = r.rest.length + 2 := by
  simp [osc]

/-- A long report whose kept part is a URL is taken for another one. -/
theorem not_whole {r : CwdReport} (hlong : oscPayloadCap < r.osc.payload.length) (hurl : IsUrl r.kept)
    (q : List UInt8) : ¬ Whole q r := by
  rw [length_payload] at hlong
  have hcap : oscPayloadCap = 4096 := rfl
  obtain ⟨path, hpath⟩ := isUrl_iff.1 hurl
  have hkept : 28 ≤ r.kept.length := by
    rw [kept, List.length_take]
    omega
  have hleft : r.rest.drop (oscPayloadCap - 2) ≠ [] := by
    rw [Ne, List.drop_eq_nil_iff]
    omega
  have hne := parseFileUrl_append hpath hkept hleft
  rw [kept, List.take_append_drop] at hne
  unfold Whole
  rw [scanned_eq, hpath]
  rintro (hnil | ⟨path', hpath', heq⟩)
  · cases hnil
  · cases heq
    exact hne hpath'

/-- **A report is believed as a whole or not at all exactly when the buffer keeps all of it, or a part that is no URL
by itself.** -/
theorem wholeOrNothing_iff (q : List UInt8) (r : CwdReport) :
    WholeOrNothing q r ↔ r.osc.payload.length ≤ oscPayloadCap ∨ ¬ IsUrl r.kept := by
  constructor
  · intro h
    by_contra hcon
    rw [not_or, not_not, Nat.not_le] at hcon
    exact not_whole hcon.1 hcon.2 q h.whole
  · rintro (hfits | hurl)
    · refine ⟨?_, fun hlong => absurd hfits (Nat.not_le.2 hlong)⟩
      have hkept : r.kept = r.rest := by
        rw [length_payload] at hfits
        exact List.take_of_length_le (by omega)
      rw [Whole, scanned_eq, hkept]
      cases parseFileUrl r.rest <;> simp
    · have hnone : parseFileUrl r.kept = none := by
        rw [isUrl_iff] at hurl
        simpa [Option.eq_none_iff_forall_ne_some] using hurl
      have hscanned : r.scanned q = [] := by rw [scanned_eq, hnone]; rfl
      exact ⟨.inl hscanned, fun _ => hscanned⟩

/-- The path `/aa…a` with some number of letters. -/
def letters (n : Nat) : Str := '/' :: List.replicate n 'a'

theorem utf8_letters (n : Nat) : utf8 (letters n) = 0x2f :: List.replicate n 0x61 := by
  have hletter : ∀ m, utf8 (List.replicate m 'a') = List.replicate m 0x61 := fun m => by
    induction m with
    | zero => rfl
    | succ m ih =>
      rw [List.replicate_succ, List.replicate_succ, ← ih]
      rfl
  rw [← hletter]
  rfl

theorem not_mem_letters {x : UInt8} (hslash : x ≠ 0x2f) (hletter : x ≠ 0x61) (n : Nat) : x ∉ utf8 (letters n) := by
  rw [utf8_letters, List.mem_cons, not_or]
  exact ⟨hslash, fun h => hletter (List.eq_of_mem_replicate h)⟩

theorem isUrl_letters (n : Nat) : IsUrl (utf8 (letters n)) := by
  refine ⟨letters n, _, _, rfl, pathPart_eq_some.2 (.inr ⟨?_, rfl⟩), by simp [letters],
    .of_raw (not_mem_letters (by decide) (by decide) n)⟩
  simp [fileScheme, letters]

def deep (n : Nat) : CwdReport where
  rest := utf8 (letters n)
  noBel := not_mem_letters (by decide) (by decide) n
  noEsc := not_mem_letters (by decide) (by decide) n
  terminator := .bel

theorem rest_deep (n : Nat) : (deep n).rest = 0x2f :: List.replicate n 0x61 := utf8_letters n

theorem kept_deep (n : Nat) : (deep n).kept = utf8 (letters (min 4093 n)) := by
  have hcap : oscPayloadCap - 2 = 4093 + 1 := rfl
  rw [kept, hcap, rest_deep, utf8_letters, List.take_succ_cons, List.take_replicate]

/-- Of a path of 4097 characters, the directory of its first 4094 is reported. -/
theorem deep_believed : ¬ ∀ (q : List UInt8) (r : CwdReport), WholeOrNothing q r := by
  intro h
  refine not_whole ?_ ?_ [] (h [] (deep 4096)).whole
  · rw [length_payload, rest_deep, List.length_cons, List.length_replicate]
    decide
  · rw [kept_deep]
    exact isUrl_letters _

end CwdReport

end TinySsh
