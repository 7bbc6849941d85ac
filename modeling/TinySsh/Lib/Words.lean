import TinySsh.Lib.Zipper
import Mathlib.Logic.Function.Iterate

/-!
# Words of a line

The words of a line are its pieces between white space (`words`). `dropWord` takes off the last one and the white space
behind it (`lastWord_dropWord`), so a line is empty after one step more than it has words (`dropWord_iterate`).
-/

namespace Zipper

variable {α : Type*} {ws : α → Bool} {l m pre word gap : List α} {a : α}

def words (ws : α → Bool) (l : List α) : List (List α) := (l.splitOnP ws).filter fun w => !w.isEmpty

@[simp] theorem words_nil : words ws [] = [] := by simp [words]

/-- White space divides the words. -/
theorem words_append_cons (ha : ws a = true) (l m : List α) : words ws (l ++ a :: m) = words ws l ++ words ws m := by
  rw [words, List.splitOnP_append_cons l m ha, List.filter_append]
  rfl

theorem words_of_gap (h : ∀ a ∈ gap, ws a = true) : words ws gap = [] := by
  induction gap with
  | nil => exact words_nil
  | cons a gap ih =>
    obtain ⟨ha, hgap⟩ := List.forall_mem_cons.1 h
    have hsplit := words_append_cons ha [] gap
    rwa [ih hgap, words_nil] at hsplit

theorem words_append_gap (h : ∀ a ∈ gap, ws a = true) (l : List α) : words ws (l ++ gap) = words ws l := by
  cases gap with
  | nil => rw [List.append_nil]
  | cons a gap =>
    obtain ⟨ha, hgap⟩ := List.forall_mem_cons.1 h
    rw [words_append_cons ha, words_of_gap hgap, List.append_nil]

theorem words_of_word (hne : word ≠ []) (h : ∀ a ∈ word, ws a = false) : words ws word = [word] := by
  rw [words, List.splitOnP_eq_singleton h]
  simpa using hne

/-! ## The last word -/

/-- A line in front of its last word and of the white space behind it. -/
structure LastWord (ws : α → Bool) (l pre word gap : List α) : Prop where
  text : l = pre ++ word ++ gap
  gap_ws : ∀ a ∈ gap, ws a = true
  word_ws : ∀ a ∈ word, ws a = false
  pre_ws : ∀ a ∈ pre.getLast?, ws a = true
  pre_nil : word = [] → pre = []

/-- **`dropWord` leaves what is in front of the last word.** -/
theorem lastWord_dropWord (ws : α → Bool) (l : List α) : ∃ word gap, LastWord ws l (dropWord ws l) word gap := by
  have hgap : l.rdropWhile ws ++ l.rtakeWhile ws = l := List.rdropWhile_append_rtakeWhile
  have hword : dropWord ws l ++ (l.rdropWhile ws).rtakeWhile (fun a => !ws a) = l.rdropWhile ws :=
    List.rdropWhile_append_rtakeWhile
  refine ⟨_, _, ⟨by rw [hword, hgap], fun a ha => List.mem_rtakeWhile_imp ha, fun a ha => ?_, fun a ha => ?_, ?_⟩⟩
  · simpa using List.mem_rtakeWhile_imp ha
  · obtain ⟨hne, rfl⟩ := List.mem_getLast?_eq_getLast ha
    have hlast := List.rdropWhile_last_not (fun a => !ws a) (l.rdropWhile ws) hne
    simpa [dropWord] using hlast
  · -- without a word, the line ended with white space only where it was white space throughout
    intro hnil
    rw [hnil, List.append_nil] at hword
    by_contra hne
    have hlast := List.rdropWhile_last_not (fun a => !ws a) (l.rdropWhile ws) hne
    have hrest : l.rdropWhile ws ≠ [] := hword ▸ hne
    have hnot := List.rdropWhile_last_not ws l hrest
    simp only [dropWord] at hword
    simp only [hword] at hlast
    simp [hnot] at hlast

/-- The line has the words of what is in front, and the last one. -/
theorem LastWord.words (h : LastWord ws l pre word gap) :
    words ws l = Zipper.words ws pre ++ if word = [] then [] else [word] := by
  rw [h.text, words_append_gap h.gap_ws]
  by_cases hword : word = []
  · simp [hword]
  rw [if_neg hword]
  rcases pre.eq_nil_or_concat with rfl | ⟨p, a, rfl⟩
  · rw [List.nil_append, words_nil, List.nil_append, words_of_word hword h.word_ws]
  · have ha : ws a = true := h.pre_ws a (by simp)
    rw [List.concat_eq_append, List.append_assoc, List.singleton_append, words_append_cons ha,
      words_of_word hword h.word_ws, words_append_gap (by simpa using ha)]

/-- One step takes off a word, or empties the line. -/
theorem length_words_dropWord (ws : α → Bool) (l : List α) :
    dropWord ws l = [] ∨ (words ws (dropWord ws l)).length + 1 = (words ws l).length := by
  obtain ⟨word, gap, h⟩ := lastWord_dropWord ws l
  by_cases hword : word = []
  · exact .inl (h.pre_nil hword)
  · rw [h.words, if_neg hword, List.length_append]
    exact .inr rfl

@[simp] theorem dropWord_nil : dropWord ws [] = [] := by simp [dropWord]

theorem dropWord_iterate_prefix (n : Nat) (l : List α) : (dropWord ws)^[n] l <+: l := by
  induction n generalizing l with
  | zero => exact List.prefix_rfl
  | succ n ih =>
    rw [Function.iterate_succ_apply]
    exact (ih _).trans (prefix_dropWord ws l)

/-- **One step more than there are words empties the line.** -/
theorem dropWord_iterate {n : Nat} (h : (words ws l).length < n) : (dropWord ws)^[n] l = [] := by
  induction n generalizing l with
  | zero => omega
  | succ n ih =>
    rw [Function.iterate_succ_apply]
    rcases length_words_dropWord ws l with hnil | hlen
    · rw [hnil]
      exact Function.iterate_fixed dropWord_nil n
    · exact ih (by omega)

end Zipper
