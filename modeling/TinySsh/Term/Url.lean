import TinySsh.Term.Directory

/-!
# The grammar of directory reports

`parse_file_url` accepts a text whose path part (`pathOf`) is not empty and in which every percent sign that is reached
outside of an escape has two hexadecimal digits behind it (`WellEscaped`), and nothing else. The path of a report that
stands for ASCII bytes throughout is the text of these bytes (`parseFileUrl_grammar`).
-/

namespace TinySsh

open Text

/-- A hexadecimal digit, of either case. -/
def IsHex (h : UInt8) : Prop :=
  0x30 ≤ h.toNat ∧ h.toNat ≤ 0x39 ∨ 0x41 ≤ h.toNat ∧ h.toNat ≤ 0x46 ∨ 0x61 ≤ h.toNat ∧ h.toNat ≤ 0x66

/-- From the left, every percent sign outside of an escape has two digits behind it. -/
def WellEscaped : List UInt8 → Prop
  | [] => True
  | b :: rest =>
    if b = 0x25 then
      match rest with
      | h :: l :: rest => IsHex h ∧ IsHex l ∧ WellEscaped rest
      | _ => False
    else WellEscaped rest

/-- The text from the first slash behind the scheme, or all of it without the scheme. -/
def pathOf (s : Str) : Str :=
  if fileScheme.isPrefixOf s then (s.drop fileScheme.length).dropWhile (· ≠ '/') else s

/-- **The grammar.** A text with the scheme has a slash behind it; the path part is not empty, and its escapes are
complete. -/
structure InGrammar (s : Str) : Prop where
  slash : fileScheme <+: s → '/' ∈ s.drop fileScheme.length
  path_ne : pathOf s ≠ []
  escapes : WellEscaped (utf8 (pathOf s))

/-! ## Escapes -/

variable {bytes enc src : List UInt8} {s part path : Str}

theorem isHex_iff {h : UInt8} : IsHex h ↔ ∃ n, HexDigit h n := by
  unfold IsHex HexDigit
  constructor
  · rintro (⟨hlo, hhi⟩ | ⟨hlo, hhi⟩ | ⟨hlo, hhi⟩)
    · exact ⟨h.toNat - 0x30, by omega⟩
    · exact ⟨h.toNat - 0x41 + 10, by omega⟩
    · exact ⟨h.toNat - 0x61 + 10, by omega⟩
  · rintro ⟨n, hn⟩
    omega

theorem wellEscaped_raw {b : UInt8} (hb : b ≠ 0x25) (rest : List UInt8) :
    WellEscaped (b :: rest) ↔ WellEscaped rest := by
  rw [WellEscaped.eq_def]
  simp only [hb, if_false]

/-- Bytes whose escapes are complete encode something. -/
theorem WellEscaped.encodes (h : WellEscaped enc) : ∃ src, Encodes src enc := by
  induction enc using WellEscaped.induct with
  | case1 => exact ⟨[], .nil⟩
  | case2 high low rest ih =>
    obtain ⟨hhigh, hlow, hrest⟩ := h
    obtain ⟨m, hm⟩ := isHex_iff.1 hhigh
    obtain ⟨n, hn⟩ := isHex_iff.1 hlow
    obtain ⟨src, hsrc⟩ := ih hrest
    have hvalue : (UInt8.ofNat (m * 16 + n)).toNat = m * 16 + n := by
      have hmlt := hm.lt
      have hnlt := hn.lt
      rw [UInt8.toNat_ofNat', Nat.mod_eq_of_lt (by omega)]
    exact ⟨_, .escape hm hn hvalue hsrc⟩
  | case3 rest hshort =>
    match rest, hshort with
    | [], _ => cases h
    | [_], _ => cases h
    | _ :: _ :: _, hshort => exact absurd rfl (hshort _ _ _)
  | case4 b rest hb ih =>
    obtain ⟨src, hsrc⟩ := ih ((wellEscaped_raw hb rest).1 h)
    exact ⟨_, .raw hb hsrc⟩

theorem Encodes.wellEscaped (h : Encodes src enc) : WellEscaped enc := by
  induction h with
  | nil => trivial
  | raw hb _ ih => exact (wellEscaped_raw hb _).2 ih
  | escape hhigh hlow _ _ ih => exact ⟨isHex_iff.2 ⟨_, hhigh⟩, isHex_iff.2 ⟨_, hlow⟩, ih⟩

/-! ## The path part -/

theorem dropWhile_slash {host tail : Str} (hhost : '/' ∉ host) :
    (host ++ '/' :: tail).dropWhile (· ≠ '/') = '/' :: tail := by
  have hpos : ∀ c ∈ host, decide (c ≠ '/') = true := fun c hc => by
    simpa using ne_of_mem_of_not_mem hc hhost
  rw [List.dropWhile_append_of_pos hpos, List.dropWhile_cons_of_neg (by simp)]

/-- The parser finds the path part, if there is one. -/
theorem pathPart_eq_pathOf : pathPart s = some part ↔
    (fileScheme <+: s → '/' ∈ s.drop fileScheme.length) ∧ part = pathOf s := by
  rw [pathPart_eq_some]
  unfold pathOf
  by_cases hscheme : fileScheme <+: s
  · rw [if_pos (List.isPrefixOf_iff_prefix.2 hscheme)]
    obtain ⟨rest, rfl⟩ := hscheme
    simp only [List.drop_left, List.append_cancel_left_eq, List.prefix_append, not_true_eq_false, false_and, or_false,
      forall_const]
    constructor
    · rintro ⟨host, tail, hhost, rfl, rfl⟩
      exact ⟨by simp, (dropWhile_slash hhost).symm⟩
    · rintro ⟨hslash, rfl⟩
      obtain ⟨host, tail, rfl, hhost⟩ := List.eq_append_cons_of_mem hslash
      exact ⟨host, tail, hhost, dropWhile_slash hhost, by rw [dropWhile_slash hhost]⟩
  · have hno : fileScheme.isPrefixOf s = false := by
      simpa [← List.isPrefixOf_iff_prefix] using hscheme
    simp only [hno, Bool.false_eq_true, if_false, hscheme, false_implies, not_false_eq_true, true_and]
    constructor
    · rintro (⟨host, tail, -, -, rfl⟩ | rfl)
      · exact absurd (List.prefix_append _ _) hscheme
      · rfl
    · exact .inr

/-- **What is accepted, and the path of it.** -/
theorem parseFileUrl_pathOf : parseFileUrl (utf8 s) = some path ↔
    InGrammar s ∧ ∃ src, Encodes src (utf8 (pathOf s)) ∧ path = src.map latin1 := by
  rw [parseFileUrl_eq_some]
  constructor
  · rintro ⟨s', part, src, hs, hpart, hsrc, rfl, hne⟩
    obtain rfl : s' = s := Option.some.inj ((fromUtf8_eq_some.2 hs).symm.trans (fromUtf8_eq_some.2 rfl))
    obtain ⟨hslash, rfl⟩ := pathPart_eq_pathOf.1 hpart
    refine ⟨⟨hslash, fun hnil => hne ?_, hsrc.wellEscaped⟩, src, hsrc, rfl⟩
    rwa [List.map_eq_nil_iff, hsrc.eq_nil_iff, utf8_eq_nil]
  · rintro ⟨⟨hslash, hne, -⟩, src, hsrc, rfl⟩
    refine ⟨s, _, src, rfl, pathPart_eq_pathOf.2 ⟨hslash, rfl⟩, hsrc, rfl, fun hnil => hne ?_⟩
    rwa [List.map_eq_nil_iff, hsrc.eq_nil_iff, utf8_eq_nil] at hnil

/-! ## ASCII -/

theorem latin1_injective : Function.Injective latin1 := fun x y h => by
  have hnat := congrArg Char.toNat h
  rwa [toNat_latin1, toNat_latin1, UInt8.toNat_inj] at hnat

/-- The characters of ASCII bytes are a text of these bytes. -/
theorem utf8_map_latin1 (h : ∀ b ∈ src, b.toNat < 0x80) : utf8 (src.map latin1) = src := by
  have hascii : ∀ c ∈ src.map latin1, IsAscii c := by
    simpa [isAscii_latin1] using h
  exact List.map_injective_iff.2 latin1_injective (map_latin1_utf8.2 hascii)

/-- **`parse_file_url` accepts exactly its grammar**, and reads a path of ASCII bytes as it is: what the bytes of the
path part stand for, each escape decoded once, is the UTF-8 of the path. -/
theorem parseFileUrl_grammar (bytes : List UInt8) :
    ((parseFileUrl bytes).isSome = true ↔ ∃ s, bytes = utf8 s ∧ InGrammar s) ∧
      ∀ s path, bytes = utf8 s → parseFileUrl bytes = some path →
        (∃ src, Encodes src (utf8 (pathOf s))) ∧
          ∀ src, Encodes src (utf8 (pathOf s)) → (∀ b ∈ src, b.toNat < 0x80) → utf8 path = src := by
  constructor
  · rw [Option.isSome_iff_exists]
    constructor
    · rintro ⟨path, hpath⟩
      obtain ⟨s, -, -, rfl, -⟩ := parseFileUrl_eq_some.1 hpath
      exact ⟨s, rfl, (parseFileUrl_pathOf.1 hpath).1⟩
    · rintro ⟨s, rfl, hs⟩
      obtain ⟨src, hsrc⟩ := hs.escapes.encodes
      exact ⟨_, parseFileUrl_pathOf.2 ⟨hs, src, hsrc, rfl⟩⟩
  · rintro s path rfl hpath
    obtain ⟨-, src, hsrc, rfl⟩ := parseFileUrl_pathOf.1 hpath
    refine ⟨⟨src, hsrc⟩, fun src' hsrc' hascii => ?_⟩
    rw [hsrc.unique hsrc', utf8_map_latin1 hascii]

end TinySsh
