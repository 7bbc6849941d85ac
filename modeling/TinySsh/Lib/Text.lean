import Mathlib.Data.List.DropRight

/-!
# Text with byte offsets

A text is a list of characters; its storage is the UTF-8 encoding, and the operations that edit it take byte offsets.
An offset that is not the boundary of a character is a panic, modelled as `none` (`splitByte`, `splitByte_isSome`).

The offset of the `n`-th character (`charToByte`) is always a boundary, so the operations at it are the operations of
lists: `insertByte_charToByte`, `removeByte_charToByte`, `truncateByte_charToByte`, `sliceFrom_append`.

Of the encoding: it is undone by decoding (`fromUtf8_eq_some`), a character is never read across its end
(`utf8_eq_append`), and it keeps the ASCII characters (`countP_utf8`). A text is split at the first or the last
occurrence of a character (`splitOnce_eq_some`, `rsplitOnce_eq_some`).
-/

namespace Text

/-- A text, as its Unicode scalar values. -/
abbrev Str := List Char

/-! ## UTF-8 -/

/-- The bytes of a text. -/
def utf8 (s : Str) : List UInt8 := s.flatMap String.utf8EncodeChar

/-- The number of bytes of a text. -/
def byteLen : Str → Nat
  | [] => 0
  | c :: s => c.utf8Size + byteLen s

/-- The text of a byte string, when it is valid UTF-8. -/
def fromUtf8 (bytes : List UInt8) : Option Str := bytes.toByteArray.utf8Decode?.map Array.toList

/-- `char::is_whitespace`: the Unicode property White_Space. -/
def isWhitespace (c : Char) : Bool :=
  let n := c.toNat
  (0x09 ≤ n && n ≤ 0x0d) || n = 0x20 || n = 0x85 || n = 0xa0 || n = 0x1680 || (0x2000 ≤ n && n ≤ 0x200a) ||
    n = 0x2028 || n = 0x2029 || n = 0x202f || n = 0x205f || n = 0x3000

/-- `char::is_control`: the Unicode category Cc. -/
def isControl (c : Char) : Bool := c.toNat < 0x20 || (0x7f ≤ c.toNat && c.toNat ≤ 0x9f)

/-- `str::trim_end`. -/
def trimEnd (s : Str) : Str := s.rdropWhile isWhitespace

variable {s t : Str}

@[simp] theorem utf8_nil : utf8 [] = [] := rfl

@[simp] theorem utf8_append : utf8 (s ++ t) = utf8 s ++ utf8 t := List.flatMap_append

@[simp] theorem utf8_eq_nil : utf8 s = [] ↔ s = [] := by
  cases s with
  | nil => simp
  | cons c s => simp [utf8, String.utf8EncodeChar_ne_nil]

@[simp] theorem byteLen_nil : byteLen [] = 0 := rfl

@[simp] theorem byteLen_cons {c : Char} : byteLen (c :: s) = c.utf8Size + byteLen s := rfl

@[simp] theorem byteLen_append : byteLen (s ++ t) = byteLen s + byteLen t := by
  induction s with
  | nil => simp
  | cons c s ih => simp [ih, Nat.add_assoc]

theorem byteLen_eq_zero : byteLen s = 0 ↔ s = [] := by
  cases s with
  | nil => simp
  | cons c s => have := c.utf8Size_pos; simp; omega

/-- A character takes one to four bytes. -/
theorem length_le_byteLen (s : Str) : s.length ≤ byteLen s ∧ byteLen s ≤ 4 * s.length := by
  induction s with
  | nil => simp
  | cons c s ih =>
    have hpos := c.utf8Size_pos
    have hfour := c.utf8Size_le_four
    simp only [List.length_cons, byteLen_cons]
    omega

/-! ## Decoding -/

theorem length_utf8 (s : Str) : (utf8 s).length = byteLen s := by
  induction s with
  | nil => rfl
  | cons c s ih => simp [utf8, ← ih]

/-- **Decoding undoes encoding, and nothing else decodes.** -/
theorem fromUtf8_eq_some {bytes : List UInt8} : fromUtf8 bytes = some s ↔ bytes = utf8 s := by
  unfold fromUtf8
  rw [Option.map_eq_some_iff]
  constructor
  · rintro ⟨chars, hchars, rfl⟩
    have hsome : bytes.toByteArray.utf8Decode?.isSome := by rw [hchars]; rfl
    have hencode := @ByteArray.utf8Encode_get_utf8Decode? bytes.toByteArray hsome
    simp only [hchars, Option.get_some] at hencode
    exact (List.toByteArray_inj.1 hencode).symm
  · rintro rfl
    exact ⟨s.toArray, List.utf8Decode?_utf8Encode, rfl⟩

/-- **Where the encoding of one text ends in that of another, a character ends.** -/
theorem utf8_eq_append {b : List UInt8} (h : utf8 s = utf8 t ++ b) : ∃ u, s = t ++ u ∧ b = utf8 u := by
  induction t generalizing s with
  | nil => exact ⟨s, rfl, h.symm⟩
  | cons c t ih =>
    cases s with
    | nil => simp [utf8, String.utf8EncodeChar_ne_nil] at h
    | cons d s =>
      have hdc : d = c := by
        have hdecode := congrArg (fun l => l.toByteArray.utf8DecodeChar? 0) h
        simpa [utf8, ByteArray.utf8DecodeChar?_utf8EncodeChar_append] using hdecode
      subst hdc
      have hrest : utf8 s = utf8 t ++ b := by simpa [utf8] using h
      obtain ⟨u, rfl, hu⟩ := ih hrest
      exact ⟨u, rfl, hu⟩

/-! ## ASCII -/

def IsAscii (c : Char) : Prop := c.toNat < 0x80

instance : DecidablePred IsAscii := fun c => inferInstanceAs (Decidable (c.toNat < 0x80))

/-- An ASCII character is encoded as itself. -/
theorem utf8EncodeChar_ascii {c : Char} (h : IsAscii c) : String.utf8EncodeChar c = [UInt8.ofNat c.toNat] := by
  have hn : c.toNat = c.val.toNat := rfl
  unfold IsAscii at h
  fun_cases String.utf8EncodeChar c with
  | case1 => rfl
  | _ => omega

/-- The encoding of any other character has no ASCII byte. -/
theorem utf8EncodeChar_nonascii {c : Char} (h : ¬ IsAscii c) {b : UInt8} (hb : b ∈ String.utf8EncodeChar c) :
    0x80 ≤ b.toNat := by
  have hn : c.toNat = c.val.toNat := rfl
  unfold IsAscii at h
  revert hb
  fun_cases String.utf8EncodeChar c
  · omega
  all_goals
    intro hb
    simp only [List.mem_cons, List.not_mem_nil, or_false] at hb
    rcases hb with rfl | rfl | rfl | rfl <;> simp only [UInt8.toNat_ofNat'] <;> omega

/-- **Encoding keeps the number of ASCII characters.** -/
theorem countP_utf8 (s : Str) : (utf8 s).countP (·.toNat < 0x80) = s.countP IsAscii := by
  induction s with
  | nil => rfl
  | cons c s ih =>
    have hcons : utf8 (c :: s) = String.utf8EncodeChar c ++ utf8 s := rfl
    rw [hcons, List.countP_append, ih, List.countP_cons, Nat.add_comm]
    congr 1
    by_cases hc : IsAscii c
    · have hlt : c.toNat < 0x80 := hc
      rw [utf8EncodeChar_ascii hc, List.countP_singleton, UInt8.toNat_ofNat', Nat.mod_eq_of_lt (by omega)]
      simp [hc, hlt]
    · rw [List.countP_eq_zero.2 fun b hb => by simpa using utf8EncodeChar_nonascii hc hb]
      simp [hc]

/-- One byte for each character is ASCII. -/
theorem byteLen_eq_length : byteLen s = s.length ↔ ∀ c ∈ s, IsAscii c := by
  induction s with
  | nil => simp
  | cons c s ih =>
    have hpos := c.utf8Size_pos
    have hle := (length_le_byteLen s).1
    have hone : c.utf8Size = 1 ↔ IsAscii c := by
      rw [Char.utf8Size_eq_one_iff, UInt32.le_iff_toNat_le]
      exact Nat.lt_succ_iff.symm
    rw [List.forall_mem_cons, ← ih, ← hone, byteLen_cons, List.length_cons]
    omega

/-! ## Splitting -/

/-- `str::split_once` at a character. -/
def splitOnce (c : Char) : Str → Option (Str × Str)
  | [] => none
  | d :: s => if d = c then some ([], s) else (splitOnce c s).map fun p => (d :: p.1, p.2)

/-- `str::rsplit_once` at a character. -/
def rsplitOnce (c : Char) : Str → Option (Str × Str)
  | [] => none
  | d :: s =>
    match rsplitOnce c s with
    | some p => some (d :: p.1, p.2)
    | none => if d = c then some ([], s) else none

/-- `str::strip_prefix` of a character. -/
def stripPrefix (c : Char) : Str → Option Str
  | [] => none
  | d :: s => if d = c then some s else none

variable {c : Char} {a b : Str}

theorem stripPrefix_eq_some : stripPrefix c s = some t ↔ s = c :: t := by
  cases s <;> simp [stripPrefix]

theorem stripPrefix_eq_none : stripPrefix c s = none ↔ s.head? ≠ some c := by
  cases s <;> simp [stripPrefix]

theorem splitOnce_append (hc : c ∉ a) : splitOnce c (a ++ c :: b) = some (a, b) := by
  induction a with
  | nil => simp [splitOnce]
  | cons d a ih =>
    rw [List.mem_cons, not_or] at hc
    simp [splitOnce, Ne.symm hc.1, ih hc.2]

/-- **The split is at the first occurrence.** -/
theorem splitOnce_eq_some : splitOnce c s = some (a, b) ↔ s = a ++ c :: b ∧ c ∉ a := by
  refine ⟨fun h => ?_, fun ⟨hs, hc⟩ => hs ▸ splitOnce_append hc⟩
  induction s generalizing a with
  | nil => cases h
  | cons d s ih =>
    by_cases hd : d = c
    · simp only [splitOnce, hd, if_true, Option.some.injEq, Prod.mk.injEq] at h
      obtain ⟨rfl, rfl⟩ := h
      exact ⟨by rw [hd]; rfl, by simp⟩
    · simp only [splitOnce, hd, if_false, Option.map_eq_some_iff, Prod.mk.injEq] at h
      obtain ⟨⟨a', b'⟩, hp, rfl, rfl⟩ := h
      obtain ⟨rfl, hc⟩ := ih hp
      exact ⟨rfl, by simp [hc, Ne.symm hd]⟩

/-- So a text has one first occurrence. -/
theorem splitOnce_unique {x y : Str} (h : a ++ c :: x = b ++ c :: y) (ha : c ∉ a) (hb : c ∉ b) : a = b ∧ x = y := by
  have hsplit : splitOnce c (a ++ c :: x) = some (b, y) := h ▸ splitOnce_append hb
  rw [splitOnce_append ha] at hsplit
  simpa using hsplit

theorem rsplitOnce_eq_none : rsplitOnce c s = none ↔ c ∉ s := by
  induction s with
  | nil => simp [rsplitOnce]
  | cons d s ih =>
    rw [rsplitOnce]
    cases h : rsplitOnce c s with
    | some p =>
      have hmem : c ∈ s := by
        by_contra hc
        rw [ih.2 hc] at h
        cases h
      simp [hmem]
    | none =>
      by_cases hd : d = c
      · simp [hd]
      · simp [hd, ih.1 h, Ne.symm hd]

theorem rsplitOnce_append (hc : c ∉ b) : rsplitOnce c (a ++ c :: b) = some (a, b) := by
  induction a with
  | nil => simp [rsplitOnce, rsplitOnce_eq_none.2 hc]
  | cons d a ih => simp [rsplitOnce, ih]

/-- **The split is at the last occurrence.** -/
theorem rsplitOnce_eq_some : rsplitOnce c s = some (a, b) ↔ s = a ++ c :: b ∧ c ∉ b := by
  refine ⟨fun h => ?_, fun ⟨hs, hc⟩ => hs ▸ rsplitOnce_append hc⟩
  induction s generalizing a with
  | nil => cases h
  | cons d s ih =>
    rw [rsplitOnce] at h
    cases hp : rsplitOnce c s with
    | some p =>
      rw [hp] at h
      cases h
      obtain ⟨hs, hc⟩ := ih hp
      exact ⟨congrArg (d :: ·) hs, hc⟩
    | none =>
      simp only [hp, Option.ite_none_right_eq_some, Option.some.injEq, Prod.mk.injEq] at h
      obtain ⟨rfl, rfl, rfl⟩ := h
      exact ⟨rfl, rsplitOnce_eq_none.1 hp⟩

theorem rsplitOnce_unique {x y : Str} (h : a ++ c :: x = b ++ c :: y) (hx : c ∉ x) (hy : c ∉ y) : a = b ∧ x = y := by
  have hsplit : rsplitOnce c (a ++ c :: x) = some (b, y) := h ▸ rsplitOnce_append hy
  rw [rsplitOnce_append hx] at hsplit
  simpa using hsplit

/-! ## Byte offsets -/

/-- The text before and after a byte offset, `none` inside a character or past the end. -/
def splitByte : Str → Nat → Option (Str × Str)
  | s, 0 => some ([], s)
  | [], _ + 1 => none
  | c :: s, n + 1 =>
    if c.utf8Size ≤ n + 1 then (splitByte s (n + 1 - c.utf8Size)).map fun p => (c :: p.1, p.2) else none

/-- `String::insert`: panics off a character boundary. -/
def insertByte (s : Str) (i : Nat) (c : Char) : Option Str := (splitByte s i).map fun p => p.1 ++ c :: p.2

/-- `String::remove`: panics off a character boundary and at the end of the text. -/
def removeByte (s : Str) (i : Nat) : Option Str :=
  match splitByte s i with
  | some (a, _ :: b) => some (a ++ b)
  | _ => none

/-- `String::truncate`: no effect at or past the end, panics off a character boundary. -/
def truncateByte (s : Str) (n : Nat) : Option Str :=
  if byteLen s ≤ n then some s else (splitByte s n).map Prod.fst

/-- The slice `&s[n..]`: panics off a character boundary. -/
def sliceFrom (s : Str) (n : Nat) : Option Str := (splitByte s n).map Prod.snd

/-- `str::char_indices`, counted from an offset. -/
def charIndices : Nat → Str → List (Nat × Char)
  | _, [] => []
  | off, c :: s => (off, c) :: charIndices (off + c.utf8Size) s

/-- The byte offset of the character at a position, the length of the text past its end. -/
def charToByte (s : Str) (pos : Nat) : Nat := ((charIndices 0 s)[pos]?.map Prod.fst).getD (byteLen s)

/-- The offset between two texts is a boundary. -/
theorem splitByte_append (s t : Str) : splitByte (s ++ t) (byteLen s) = some (s, t) := by
  induction s with
  | nil => simp [splitByte]
  | cons c s ih =>
    have hpos := c.utf8Size_pos
    obtain ⟨n, hn⟩ : ∃ n, c.utf8Size + byteLen s = n + 1 := ⟨c.utf8Size + byteLen s - 1, by omega⟩
    have hrest : n + 1 - c.utf8Size = byteLen s := by omega
    simp only [List.cons_append, byteLen_cons, hn, splitByte]
    rw [if_pos (by omega), hrest, ih]
    rfl

/-- An offset that some of the characters end at. -/
def IsBoundary (s : Str) (n : Nat) : Prop := ∃ a b, s = a ++ b ∧ byteLen a = n

/-- A split cuts the text at the offset. -/
theorem splitByte_some {n : Nat} {a b : Str} (h : splitByte s n = some (a, b)) : s = a ++ b ∧ byteLen a = n := by
  induction s generalizing n a b with
  | nil =>
    cases n with
    | zero => cases h; exact ⟨rfl, rfl⟩
    | succ n => cases h
  | cons c s ih =>
    cases n with
    | zero => cases h; exact ⟨rfl, rfl⟩
    | succ n =>
      simp only [splitByte, Option.ite_none_right_eq_some, Option.map_eq_some_iff] at h
      obtain ⟨hle, ⟨a', b'⟩, hsplit, heq⟩ := h
      cases heq
      obtain ⟨rfl, hlen⟩ := ih hsplit
      exact ⟨rfl, by simp only [byteLen_cons, hlen]; omega⟩

/-- **A split is possible exactly at the boundaries of characters.** -/
theorem splitByte_isSome {n : Nat} : (splitByte s n).isSome ↔ IsBoundary s n := by
  constructor
  · intro h
    obtain ⟨⟨a, b⟩, hsplit⟩ := Option.isSome_iff_exists.1 h
    exact ⟨a, b, splitByte_some hsplit⟩
  · rintro ⟨a, b, rfl, rfl⟩
    simp [splitByte_append]

theorem charIndices_getElem? (s : Str) (off pos : Nat) :
    ((charIndices off s)[pos]?.map Prod.fst).getD (off + byteLen s) = off + byteLen (s.take pos) := by
  induction s generalizing off pos with
  | nil => simp [charIndices]
  | cons c s ih =>
    cases pos with
    | zero => simp [charIndices]
    | succ pos =>
      have := ih (off + c.utf8Size) pos
      simpa [charIndices, Nat.add_assoc] using this

/-- **The offset of the `n`-th character is the length of the text before it.** -/
theorem charToByte_eq (s : Str) (pos : Nat) : charToByte s pos = byteLen (s.take pos) := by
  simpa [charToByte] using charIndices_getElem? s 0 pos

theorem splitByte_charToByte (s : Str) (pos : Nat) :
    splitByte s (charToByte s pos) = some (s.take pos, s.drop pos) := by
  have := splitByte_append (s.take pos) (s.drop pos)
  rwa [List.take_append_drop, ← charToByte_eq] at this

theorem byteLen_take_drop (s : Str) (pos : Nat) : byteLen (s.take pos) + byteLen (s.drop pos) = byteLen s := by
  rw [← byteLen_append, List.take_append_drop]

theorem isBoundary_charToByte (s : Str) (pos : Nat) : IsBoundary s (charToByte s pos) :=
  ⟨s.take pos, s.drop pos, (List.take_append_drop pos s).symm, (charToByte_eq s pos).symm⟩

/-- The offset of a character is before the end of the text. -/
theorem charToByte_lt {pos : Nat} (h : pos < s.length) : charToByte s pos < byteLen s := by
  have hsplit := byteLen_take_drop s pos
  have hne : byteLen (s.drop pos) ≠ 0 := fun h0 => by
    have := congrArg List.length (byteLen_eq_zero.1 h0)
    simp only [List.length_drop, List.length_nil] at this
    omega
  rw [charToByte_eq]
  omega

theorem insertByte_charToByte (s : Str) (pos : Nat) (c : Char) :
    insertByte s (charToByte s pos) c = some (s.take pos ++ c :: s.drop pos) := by
  simp [insertByte, splitByte_charToByte]

theorem removeByte_charToByte {pos : Nat} (h : pos < s.length) :
    removeByte s (charToByte s pos) = some (s.take pos ++ s.drop (pos + 1)) := by
  unfold removeByte
  rw [splitByte_charToByte, List.drop_eq_getElem_cons h]

theorem truncateByte_charToByte (s : Str) (pos : Nat) : truncateByte s (charToByte s pos) = some (s.take pos) := by
  unfold truncateByte
  split
  · -- only the whole text has its full length before the position
    rename_i h
    have hlen := byteLen_take_drop s pos
    rw [charToByte_eq] at h
    have hnil : s.drop pos = [] := byteLen_eq_zero.1 (by omega)
    have := List.take_append_drop pos s
    rw [hnil, List.append_nil] at this
    rw [this]
  · simp [splitByte_charToByte]

theorem sliceFrom_append (s t : Str) : sliceFrom (s ++ t) (byteLen s) = some t := by
  simp [sliceFrom, splitByte_append]

end Text
