import Mathlib.Data.List.Infix

/-!
# Words cut out of a stream

A stream is the concatenation of words, and a reader takes the first word off it.

* `flatten_injective`: words that the reader finds in front of anything make a stream in one way only.
* `cutAt_append_iff`: a text that ends with a delimiter is read back exactly when the delimiter is not in the text, for
  a delimiter whose first symbol does not occur in it again.
-/

namespace Cut

variable {α : Type*} {read : List α → Option (List α × List α)} {w rest : List α} {ws ws' : List (List α)}

/-! ## Words -/

/-- The reader finds the word in front of anything. -/
def Found (read : List α → Option (List α × List α)) (w : List α) : Prop := ∀ rest, read (w ++ rest) = some (w, rest)

/-- **Words that are found in front of anything make a stream in one way only.** -/
theorem flatten_injective (h : ∀ w ∈ ws, w ≠ [] ∧ Found read w) (h' : ∀ w ∈ ws', w ≠ [] ∧ Found read w)
    (heq : ws.flatten = ws'.flatten) : ws = ws' := by
  induction ws generalizing ws' with
  | nil =>
    cases ws' with
    | nil => rfl
    | cons w' ws' =>
      have hnil := (List.append_eq_nil_iff.1 (List.flatten_cons ▸ heq.symm)).1
      exact absurd hnil (h' w' List.mem_cons_self).1
  | cons w ws ih =>
    cases ws' with
    | nil =>
      have hnil := (List.append_eq_nil_iff.1 (List.flatten_cons ▸ heq)).1
      exact absurd hnil (h w List.mem_cons_self).1
    | cons w' ws' =>
      have hw := (h w List.mem_cons_self).2 ws.flatten
      have hw' := (h' w' List.mem_cons_self).2 ws'.flatten
      rw [← List.flatten_cons, heq, List.flatten_cons, hw'] at hw
      obtain ⟨rfl, hrest⟩ := Prod.mk.inj (Option.some.inj hw)
      rw [ih (fun v hv => h v (List.mem_cons_of_mem _ hv)) (fun v hv => h' v (List.mem_cons_of_mem _ hv)) hrest.symm]

/-! ## Delimiters -/

section Delimiter

variable [DecidableEq α] {d x : List α} {a : α} {t : List α}

/-- The text before the first delimiter, and what follows it. -/
def cutAt (d : List α) : List α → Option (List α × List α)
  | [] => none
  | b :: l =>
    if d.isPrefixOf (b :: l) then some ([], (b :: l).drop d.length)
    else (cutAt d l).map fun p => (b :: p.1, p.2)

omit [DecidableEq α] in
/-- A delimiter that starts within the text and goes on beyond it would have its first symbol twice. -/
theorem prefix_of_prefix_append (ha : a ∉ t) {b : α} (h : a :: t <+: b :: x ++ (a :: t ++ rest)) :
    a :: t <+: b :: x := by
  rcases List.prefix_or_prefix_of_prefix h (List.prefix_append _ _) with hle | ⟨e, he⟩
  · exact hle
  · cases e with
    | nil => exact ⟨[], by rw [List.append_nil, ← he, List.append_nil]⟩
    | cons c e =>
      have hpre : c :: e <+: a :: t ++ rest := (List.prefix_append_right_inj (b :: x)).1 (by rw [he]; exact h)
      have ht : x ++ c :: e = t := (List.cons.inj he).2
      refine absurd ?_ ha
      rw [← ht, ← (List.cons_prefix_cons.1 hpre).1]
      exact List.mem_append_right _ List.mem_cons_self

/-- **A text that ends with a delimiter is read back exactly when the delimiter is not in it.** -/
theorem cutAt_append_iff (ha : a ∉ t) :
    cutAt (a :: t) (x ++ (a :: t ++ rest)) = some (x, rest) ↔ ¬a :: t <:+: x := by
  induction x with
  | nil =>
    have hpre : (a :: t).isPrefixOf (a :: t ++ rest) = true :=
      List.isPrefixOf_iff_prefix.2 (List.prefix_append _ _)
    have hcut : cutAt (a :: t) ([] ++ (a :: t ++ rest)) = some ([], (a :: t ++ rest).drop (a :: t).length) :=
      if_pos hpre
    rw [hcut, List.drop_left]
    exact iff_of_true rfl fun h => nomatch List.infix_nil.1 h
  | cons b x ih =>
    rw [List.cons_append, cutAt, List.infix_cons_iff]
    by_cases hpre : a :: t <+: b :: x ++ (a :: t ++ rest)
    · rw [List.cons_append] at hpre
      rw [if_pos (List.isPrefixOf_iff_prefix.2 hpre)]
      refine iff_of_false (fun h => nomatch (Prod.mk.inj (Option.some.inj h)).1) fun h => h (.inl ?_)
      exact prefix_of_prefix_append ha hpre
    · rw [List.cons_append] at hpre
      have hno : ¬a :: t <+: b :: x := fun h =>
        hpre (List.cons_append ▸ h.trans (List.prefix_append (b :: x) (a :: t ++ rest)))
      rw [if_neg (fun h => hpre (List.isPrefixOf_iff_prefix.1 h)), or_iff_right hno, ← ih]
      cases cutAt (a :: t) (x ++ (a :: t ++ rest)) <;> simp [Prod.ext_iff]

end Delimiter

end Cut
