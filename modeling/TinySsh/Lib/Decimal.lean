import TinySsh.Lib.Text
import Mathlib.Algebra.Group.Nat.Defs

/-!
# Numbers in decimal

A number is written with the digits `0` to `9`, as many zeros in front as one likes (`IsDecimal`, `decimalValue`); the
writing without them is `Nat.toDigits 10`. Two readers of it are `number`, which stops behind the digits, and
`parseU16`, which wants nothing else (`parseU16_eq_ok`).
-/

namespace Text

/-- Digits, at least one. -/
structure IsDecimal (s : Str) : Prop where
  ne_nil : s ≠ []
  digits : ∀ c ∈ s, c.isDigit = true

def decimalValue (s : Str) : Nat := Nat.ofDigitChars 10 s 0

variable {s ds : Str} {acc n : Nat} {c : Char}

theorem isDecimal_toDigits (n : Nat) : IsDecimal (Nat.toDigits 10 n) :=
  ⟨Nat.toDigits_ne_nil, fun _ hc => Nat.isDigit_of_mem_toDigits (by decide) (by decide) hc⟩

@[simp] theorem decimalValue_toDigits (n : Nat) : decimalValue (Nat.toDigits 10 n) = n := Nat.ofDigitChars_ten_toDigits

theorem IsDecimal.ne_of_head (h : IsDecimal (c :: s)) {d : Char} (hd : d.isDigit = false) : c ≠ d := by
  rintro rfl
  rw [h.digits c List.mem_cons_self] at hd
  cases hd

theorem IsDecimal.notMem (h : IsDecimal s) (hc : c.isDigit = false) : c ∉ s := fun hmem => by
  rw [h.digits c hmem] at hc
  cases hc

/-! ## The number in front of a text -/

def number (s : Str) : Option (Nat × Str) :=
  match s.takeWhile Char.isDigit with
  | [] => none
  | d :: ds => some (decimalValue (d :: ds), s.dropWhile Char.isDigit)

theorem number_append (h : IsDecimal ds) (hc : c.isDigit = false) (s : Str) :
    number (ds ++ c :: s) = some (decimalValue ds, c :: s) := by
  have htake : (ds ++ c :: s).takeWhile Char.isDigit = ds := by
    rw [List.takeWhile_append_of_pos h.digits, List.takeWhile_cons_of_neg (by simp [hc]), List.append_nil]
  have hdrop : (ds ++ c :: s).dropWhile Char.isDigit = c :: s := by
    rw [List.dropWhile_append_of_pos h.digits, List.dropWhile_cons_of_neg (by simp [hc])]
  unfold number
  rw [htake, hdrop]
  cases ds with
  | nil => exact absurd rfl h.ne_nil
  | cons d ds => rfl

/-! ## `str::parse::<u16>` -/

inductive IntErrorKind
  | empty | invalidDigit | posOverflow
deriving DecidableEq

def IntErrorKind.text : IntErrorKind → String
  | .empty => "cannot parse integer from empty string"
  | .invalidDigit => "invalid digit found in string"
  | .posOverflow => "number too large to fit in target type"

/-- The loop over the digits. A digit is looked at before the overflow. -/
def parseDigits (acc : Nat) : Str → Except IntErrorKind Nat
  | [] => .ok acc
  | c :: s =>
    if c.isDigit then
      let next := 10 * acc + (c.toNat - '0'.toNat)
      if next < 2 ^ 16 then parseDigits next s else .error .posOverflow
    else .error .invalidDigit

/-- A plus sign may stand in front of the digits. -/
def parseU16 : Str → Except IntErrorKind Nat
  | [] => .error .empty
  | [c] => if c = '+' ∨ c = '-' then .error .invalidDigit else parseDigits 0 [c]
  | c :: d :: s => if c = '+' then parseDigits 0 (d :: s) else parseDigits 0 (c :: d :: s)

theorem le_ofDigitChars (s : Str) (acc : Nat) : acc ≤ Nat.ofDigitChars 10 s acc := by
  induction s generalizing acc with
  | nil => exact le_refl _
  | cons c s ih =>
    rw [Nat.ofDigitChars_cons]
    exact le_trans (by omega) (ih _)

theorem parseDigits_eq_ok (hacc : acc < 2 ^ 16) : parseDigits acc s = .ok n ↔
    (∀ c ∈ s, c.isDigit = true) ∧ Nat.ofDigitChars 10 s acc = n ∧ n < 2 ^ 16 := by
  induction s generalizing acc with
  | nil =>
    simp only [parseDigits, Except.ok.injEq, Nat.ofDigitChars_nil]
    exact ⟨fun h => ⟨by simp, h, h ▸ hacc⟩, fun h => h.2.1⟩
  | cons c s ih =>
    rw [parseDigits, Nat.ofDigitChars_cons, List.forall_mem_cons]
    by_cases hc : c.isDigit = true
    · by_cases hnext : 10 * acc + (c.toNat - '0'.toNat) < 2 ^ 16
      · simp only [hc, if_true, hnext, ih hnext, true_and]
      · -- an overflow stays one
        have hle := le_ofDigitChars s (10 * acc + (c.toNat - '0'.toNat))
        simp only [hc, if_true, hnext, if_false, reduceCtorEq, false_iff]
        rintro ⟨-, rfl, hlt⟩
        omega
    · simp only [hc, Bool.false_eq_true, if_false, reduceCtorEq, false_and]

theorem parseDigits_zero (hs : s ≠ []) :
    parseDigits 0 s = .ok n ↔ IsDecimal s ∧ decimalValue s = n ∧ n < 2 ^ 16 := by
  rw [parseDigits_eq_ok (by decide)]
  exact and_congr_left' ⟨fun h => ⟨hs, h⟩, IsDecimal.digits⟩

/-- Digits do not begin with a plus sign. -/
theorem not_isDecimal_plus : ¬ IsDecimal ('+' :: s) := fun h => h.ne_of_head (by decide) rfl

/-- A number that may have a plus sign: behind the sign, if it has one. -/
theorem signed_plus {P : Str → Prop} :
    (∃ ds, ('+' :: s = ds ∨ '+' :: s = '+' :: ds) ∧ IsDecimal ds ∧ P ds) ↔ IsDecimal s ∧ P s := by
  constructor
  · rintro ⟨ds, rfl | h, hds⟩
    · exact absurd hds.1 not_isDecimal_plus
    · exact (List.cons.inj h).2 ▸ hds
  · exact fun h => ⟨s, .inr rfl, h⟩

theorem signed_of_ne {P : Str → Prop} (hc : c ≠ '+') :
    (∃ ds, (c :: s = ds ∨ c :: s = '+' :: ds) ∧ IsDecimal ds ∧ P ds) ↔ IsDecimal (c :: s) ∧ P (c :: s) := by
  constructor
  · rintro ⟨ds, rfl | h, hds⟩
    · exact hds
    · exact absurd (List.cons.inj h).1 hc
  · exact fun h => ⟨c :: s, .inl rfl, h⟩

/-- **What is parsed is a decimal number that fits, behind a plus sign or not.** -/
theorem parseU16_eq_ok : parseU16 s = .ok n ↔
    ∃ ds, (s = ds ∨ s = '+' :: ds) ∧ IsDecimal ds ∧ decimalValue ds = n ∧ n < 2 ^ 16 := by
  match s with
  | [] =>
    refine iff_of_false (by simp [parseU16]) ?_
    rintro ⟨ds, rfl | h, hds, -⟩
    · exact hds.ne_nil rfl
    · cases h
  | [c] =>
    by_cases hplus : c = '+'
    · subst hplus
      rw [signed_plus]
      exact iff_of_false (by simp [parseU16]) fun h => h.1.ne_nil rfl
    rw [signed_of_ne hplus]
    by_cases hminus : c = '-'
    · subst hminus
      exact iff_of_false (by simp [parseU16]) fun h => h.1.ne_of_head (d := '-') (by decide) rfl
    · rw [parseU16, if_neg (by simp [hplus, hminus]), parseDigits_zero (by simp)]
  | c :: d :: s =>
    by_cases hplus : c = '+'
    · subst hplus
      rw [signed_plus, parseU16, if_pos rfl, parseDigits_zero (by simp)]
    · rw [signed_of_ne hplus, parseU16, if_neg hplus, parseDigits_zero (by simp)]

end Text
