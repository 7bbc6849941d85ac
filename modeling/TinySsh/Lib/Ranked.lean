import Mathlib.Data.List.Chain
import Mathlib.Order.Lattice

/-!
# Ranked lists

Lists in descending order of a key (`Ranked`), as `ORDER BY key DESC` gives them. Where elements have the same key the
order is open.

* `Ranked.take_of_perm`: the first `n` elements are the same in every order if the first `n + 1` have different keys.
* `Ranked.exists_tie`, `Ranked.swap`: otherwise there are neighbours with the same key among them, and they may as well
  stand the other way round.
-/

variable {α β : Type*} [LinearOrder β] {key : α → β} {l m p q : List α} {a b : α} {n : Nat}

/-- The elements are in descending order of their keys. -/
def Ranked (key : α → β) (l : List α) : Prop := l.Pairwise fun a b => key b ≤ key a

namespace Ranked

theorem tail (h : Ranked key (a :: l)) : Ranked key l := (List.pairwise_cons.1 h).2

theorem le (h : Ranked key (a :: l)) (hb : b ∈ a :: l) : key b ≤ key a := by
  rcases List.mem_cons.1 hb with rfl | hb
  · exact le_refl _
  · exact (List.pairwise_cons.1 h).1 b hb

/-- A first element whose key differs from that of the second has the only greatest key. -/
theorem eq_of_le (h : Ranked key (a :: l)) (hn : ((a :: l).take 2).Pairwise fun a b => key a ≠ key b) (hb : b ∈ a :: l)
    (hle : key a ≤ key b) : b = a := by
  rcases List.mem_cons.1 hb with rfl | hb
  · rfl
  cases l with
  | nil => cases hb
  | cons c l =>
    have hbc : key b ≤ key c := le h.tail hb
    have hca : key c ≤ key a := le h (by simp)
    have hne : key a ≠ key c := by simpa using hn
    exact absurd (le_antisymm (hle.trans hbc) hca) hne

/-- **The first `n` elements do not depend on the order**, if no two of the first `n + 1` have the same key. -/
theorem take_of_perm (hl : Ranked key l) (hm : Ranked key m) (hperm : l.Perm m)
    (hn : (m.take (n + 1)).Pairwise fun a b => key a ≠ key b) : l.take n = m.take n := by
  induction n generalizing l m with
  | zero => simp
  | succ n ih =>
    cases m with
    | nil => rw [hperm.eq_nil]
    | cons a m =>
      cases l with
      | nil => exact absurd hperm.symm.eq_nil (by simp)
      | cons b l =>
        have htwo : ((a :: m).take 2).Pairwise fun a b => key a ≠ key b :=
          hn.sublist (List.take_sublist_take_left (by omega))
        have hba : b = a := hm.eq_of_le htwo (hperm.mem_iff.1 (by simp)) (hl.le (hperm.mem_iff.2 (by simp)))
        subst hba
        rw [List.take_succ_cons, List.take_succ_cons, ih hl.tail hm.tail hperm.cons_inv (List.pairwise_cons.1 hn).2]

/-- Equal keys are the keys of neighbours. -/
theorem exists_tie (h : Ranked key l) (hn : ¬ (l.take n).Pairwise fun a b => key a ≠ key b) :
    ∃ p a b q, l = p ++ a :: b :: q ∧ p.length + 1 < n ∧ key a = key b := by
  by_contra hcon
  refine hn ?_
  have hchain : (l.take n).IsChain fun a b => key b < key a := by
    rw [List.isChain_iff_forall_rel_of_append_cons_cons]
    intro a b p q htake
    have hl : l = p ++ a :: b :: (q ++ l.drop n) :=
      calc
        l = l.take n ++ l.drop n := (List.take_append_drop n l).symm
        _ = p ++ a :: b :: (q ++ l.drop n) := by rw [htake]; simp
    have hlen : p.length + 1 < n := by
      have := congrArg List.length htake
      simp only [List.length_take, List.length_append, List.length_cons] at this
      omega
    have hle : key b ≤ key a := by
      rw [hl] at h
      exact le (List.pairwise_append.1 h).2.1 (by simp)
    exact lt_of_le_of_ne hle fun heq => hcon ⟨p, a, b, _, hl, hlen, heq.symm⟩
  have htrans : IsTrans α fun a b => key b < key a := ⟨fun _ _ _ hab hbc => hbc.trans hab⟩
  exact (List.isChain_iff_pairwise.1 hchain).imp fun hlt => (ne_of_lt hlt).symm

/-- Neighbours with the same key may be exchanged. -/
theorem swap (h : Ranked key (p ++ a :: b :: q)) (hkey : key a = key b) :
    Ranked key (p ++ b :: a :: q) ∧ (p ++ b :: a :: q).Perm (p ++ a :: b :: q) := by
  refine ⟨?_, (List.Perm.swap a b q).append_left p⟩
  unfold Ranked at *
  simp only [List.pairwise_append, List.pairwise_cons, List.mem_cons, forall_eq_or_imp] at h ⊢
  grind

end Ranked
