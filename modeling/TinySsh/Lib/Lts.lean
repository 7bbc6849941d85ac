import Mathlib.Data.List.Induction

/-!
# Labelled transition systems

A system is a partial step function `step : σ → ι → Option σ`: a label resolves every choice the environment or the
scheduler has, and `none` means that the label is not enabled. A run is a list of labels (`run`).

* `run_inv`, `run_trace`: what a step preserves, a run preserves; the second form may speak of the labels so far.
* `run_isSome`: a run whose labels are all enabled is never stuck.
* `run_work`: a potential that the steps of the system use up bounds their number by that of the steps from outside.
* `run_leaves`: a run that ends outside a set of states has a step that leaves the set.
* `run_project`: a run, seen through a part of the state.
* `withGhost`: a component that only records what happens.
* `Each P`: `P` holds at every step of a run (of the state before it and its label); `run_trace_each` is `run_trace`
  for runs that meet such a condition.
* `Always P`: `P` holds in every state a run visits.
* `each_of_inv`, `always_of_inv`: what an invariant gives at every step, and in every state.
* `always_iff_each`, `always_iff_each_of`: what a step keeps exactly under a condition on the step holds along exactly
  the runs whose steps all meet the condition.
-/

namespace Lts

variable {σ ι : Type*} (step : σ → ι → Option σ)

/-! ## Runs -/

/-- The state after the labels of the list, or `none` when one of them is not enabled. -/
def run : σ → List ι → Option σ
  | s, [] => some s
  | s, a :: l => (step s a).bind fun s' => run s' l

variable {step} {s s' : σ} {a : ι} {l l₁ l₂ : List ι}

@[simp] theorem run_nil : run step s [] = some s := rfl

@[simp] theorem run_cons : run step s (a :: l) = (step s a).bind fun s' => run step s' l := rfl

theorem run_append : run step s (l₁ ++ l₂) = (run step s l₁).bind fun s' => run step s' l₂ := by
  induction l₁ generalizing s with
  | nil => rfl
  | cons a l₁ ih => cases h : step s a <;> simp [h, ih]

/-- Two runs, one after the other. -/
theorem run_trans {t : σ} (h₁ : run step s l₁ = some s') (h₂ : run step s' l₂ = some t) :
    run step s (l₁ ++ l₂) = some t := by
  rw [run_append, h₁]
  exact h₂

/-- A run split at its first step. -/
theorem run_cons_some {t : σ} (h : run step s (a :: l) = some t) :
    ∃ s', step s a = some s' ∧ run step s' l = some t := by
  simpa [Option.bind_eq_some_iff] using h

/-- A run split after its first part. -/
theorem run_append_some {t : σ} (h : run step s (l₁ ++ l₂) = some t) :
    ∃ s', run step s l₁ = some s' ∧ run step s' l₂ = some t := by
  simpa [run_append, Option.bind_eq_some_iff] using h

/-! ## Invariants -/

/-- **What a step preserves, a run preserves.** -/
theorem run_inv {I : σ → Prop} (hstep : ∀ {s a s'}, I s → step s a = some s' → I s') (hs : I s)
    (h : run step s l = some s') : I s' := by
  induction l generalizing s with
  | nil => cases h; exact hs
  | cons a l ih =>
    obtain ⟨t, ht, h⟩ := run_cons_some h
    exact ih (hstep hs ht) h

/-- **Invariants that speak of the labels so far**, for runs whose labels all satisfy `Q`. -/
theorem run_trace {Q : ι → Prop} {I : List ι → σ → Prop}
    (hstep : ∀ {l s a s'}, I l s → Q a → step s a = some s' → I (l ++ [a]) s') (hs : I [] s) (hQ : ∀ a ∈ l, Q a)
    (h : run step s l = some s') : I l s' := by
  induction l using List.reverseRecOn generalizing s' with
  | nil => cases h; exact hs
  | append_singleton l a ih =>
    obtain ⟨t, ht, ha⟩ := run_append_some h
    have hl : I l t := ih (fun b hb => hQ b (List.mem_append_left _ hb)) ht
    exact hstep hl (hQ a (by simp)) (by simpa [Option.bind_eq_some_iff] using ha)

/-- **A potential pays for the steps of the system**: each uses up at least one, and a step from outside adds at most
`k`. -/
theorem run_work {I : σ → Prop} {w : σ → Nat} {inner : ι → Bool} {k : Nat}
    (hI : ∀ {s a s'}, I s → step s a = some s' → I s')
    (hinner : ∀ {s a s'}, I s → inner a = true → step s a = some s' → w s' < w s)
    (houter : ∀ {s a s'}, I s → inner a = false → step s a = some s' → w s' ≤ w s + k) (hs : I s)
    (h : run step s l = some s') : l.countP inner + w s' ≤ w s + k * l.countP (fun a => !inner a) := by
  induction l generalizing s with
  | nil =>
    cases h
    simp
  | cons a l ih =>
    obtain ⟨t, ht, h⟩ := run_cons_some h
    have hrest := ih (hI hs ht) h
    rw [List.countP_cons, List.countP_cons]
    cases ha : inner a with
    | true =>
      have hlt := hinner hs ha ht
      simp only [if_true, Bool.not_true, Bool.false_eq_true, if_false, Nat.add_zero]
      omega
    | false =>
      have hle := houter hs ha ht
      simp only [Bool.not_false, if_true, Bool.false_eq_true, if_false, Nat.add_zero, Nat.mul_add, Nat.mul_one]
      omega

/-- **A run that ends outside a set of states it started in has a step that leaves it.** -/
theorem run_leaves {I : σ → Prop} (hs : I s) (hs' : ¬I s') (h : run step s l = some s') :
    ∃ l₁ a l₂ t t', l = l₁ ++ a :: l₂ ∧ run step s l₁ = some t ∧ I t ∧ step t a = some t' ∧ ¬I t' ∧
      run step t' l₂ = some s' := by
  induction l generalizing s with
  | nil => cases h; exact absurd hs hs'
  | cons a l ih =>
    obtain ⟨t, ht, h⟩ := run_cons_some h
    by_cases hI : I t
    · obtain ⟨l₁, b, l₂, u, u', rfl, hl₁, hu, hb, hu', hl₂⟩ := ih hI h
      exact ⟨a :: l₁, b, l₂, u, u', rfl, by rw [run_cons, ht]; exact hl₁, hu, hb, hu', hl₂⟩
    · exact ⟨[], a, l, s, t, rfl, rfl, hs, ht, hI, h⟩

/-- **A run whose labels are all enabled, wherever an invariant holds, is never stuck.** -/
theorem run_isSome {Q : ι → Prop} {I : σ → Prop} (hstep : ∀ {s a}, I s → Q a → ∃ s', step s a = some s' ∧ I s')
    (hs : I s) (hQ : ∀ a ∈ l, Q a) : (run step s l).isSome := by
  induction l generalizing s with
  | nil => rfl
  | cons a l ih =>
    obtain ⟨t, ht, hI⟩ := hstep hs (hQ a List.mem_cons_self)
    rw [run_cons, ht]
    exact ih hI fun b hb => hQ b (List.mem_cons_of_mem _ hb)

/-! ## Projections -/

/-- **A part of the state whose steps are steps of another system runs in that system.** -/
theorem run_project {σ' ι' : Type*} {step' : σ' → ι' → Option σ'} (f : σ → σ') (g : ι → Option ι')
    (hstep : ∀ {s a s'}, step s a = some s' → run step' (f s) (g a).toList = some (f s'))
    (h : run step s l = some s') : run step' (f s) (l.filterMap g) = some (f s') := by
  induction l generalizing s with
  | nil => cases h; rfl
  | cons a l ih =>
    obtain ⟨t, ht, h⟩ := run_cons_some h
    have hone := hstep ht
    rw [List.filterMap_cons]
    cases hg : g a with
    | none =>
      rw [hg] at hone
      have hsame : f s = f t := Option.some.inj hone
      exact hsame ▸ ih h
    | some b =>
      rw [hg] at hone
      exact run_trans hone (ih h)

/-! ## Ghost state -/

/-- The system with a component that `g` updates and that no step reads. -/
def withGhost {γ : Type*} (step : σ → ι → Option σ) (g : σ → γ → ι → γ) (s : σ × γ) (a : ι) : Option (σ × γ) :=
  (step s.1 a).map fun s' => (s', g s.1 s.2 a)

/-- Ghost state does not change the runs. -/
theorem run_withGhost {γ : Type*} {g : σ → γ → ι → γ} {z : γ} :
    (run (withGhost step g) (s, z) l).map Prod.fst = run step s l := by
  induction l generalizing s z with
  | nil => rfl
  | cons a l ih => cases h : step s a <;> simp [withGhost, h, ih]

/-- A run, without the component. -/
theorem run_of_withGhost {γ : Type*} {g : σ → γ → ι → γ} {z z' : γ}
    (h : run (withGhost step g) (s, z) l = some (s', z')) : run step s l = some s' := by
  rw [← run_withGhost (g := g) (z := z), h]
  rfl

/-! ## Conditions on the steps of a run -/

variable (step)

/-- `P` holds at every step of the run. -/
def Each (P : σ → ι → Prop) : σ → List ι → Prop
  | _, [] => True
  | s, a :: l => P s a ∧ ∀ s', step s a = some s' → Each P s' l

instance decidableEach (P : σ → ι → Prop) [∀ s a, Decidable (P s a)] : ∀ s l, Decidable (Each step P s l)
  | _, [] => isTrue trivial
  | s, a :: l =>
    match h : step s a with
    | none => decidable_of_iff (P s a) ⟨fun hp => ⟨hp, fun _ hs => nomatch h.symm.trans hs⟩, And.left⟩
    | some t =>
      have := decidableEach P t l
      decidable_of_iff (P s a ∧ Each step P t l)
        ⟨fun hp => ⟨hp.1, fun _ hs => Option.some.inj (h.symm.trans hs) ▸ hp.2⟩, fun hp => ⟨hp.1, hp.2 t h⟩⟩

/-- `P` holds in every state the run visits, the first and the last included. -/
def Always (P : σ → Prop) : σ → List ι → Prop
  | s, [] => P s
  | s, a :: l => P s ∧ ∀ s', step s a = some s' → Always P s' l

variable {step} {P P' : σ → ι → Prop}

/-- A condition on the steps, read off a split of the run. -/
theorem Each.at (h : Each step P s (l₁ ++ a :: l₂)) (hr : run step s l₁ = some s') : P s' a := by
  induction l₁ generalizing s with
  | nil => cases hr; exact h.1
  | cons b l₁ ih =>
    obtain ⟨t, ht, hr⟩ := run_cons_some hr
    exact ih (h.2 t ht) hr

/-- A condition on the steps of a run holds along its initial parts. -/
theorem Each.initial (h : Each step P s (l₁ ++ l₂)) : Each step P s l₁ := by
  induction l₁ generalizing s with
  | nil => trivial
  | cons b l₁ ih => exact ⟨h.1, fun t ht => ih (h.2 t ht)⟩

/-- A condition on the labels adds to one on the steps. -/
theorem Each.and_labels {Q : ι → Prop} (h : Each step P s l) (hQ : ∀ a ∈ l, Q a) :
    Each step (fun s a => P s a ∧ Q a) s l := by
  induction l generalizing s with
  | nil => trivial
  | cons a l ih =>
    exact ⟨⟨h.1, hQ a List.mem_cons_self⟩, fun t ht => ih (h.2 t ht) fun b hb => hQ b (List.mem_cons_of_mem _ hb)⟩

/-- **Invariants that speak of the labels so far**, for runs whose steps all meet a condition. -/
theorem run_trace_each {I : List ι → σ → Prop}
    (hstep : ∀ {l s a s'}, I l s → P s a → step s a = some s' → I (l ++ [a]) s') (hs : I [] s) (hP : Each step P s l)
    (h : run step s l = some s') : I l s' := by
  induction l using List.reverseRecOn generalizing s' with
  | nil => cases h; exact hs
  | append_singleton l a ih =>
    obtain ⟨t, ht, ha⟩ := run_append_some h
    have hl : I l t := ih hP.initial ht
    exact hstep hl (hP.at ht) (by simpa [Option.bind_eq_some_iff] using ha)

/-- **A condition that an invariant implies is met at every step.** -/
theorem each_of_inv {I : σ → Prop} (hstep : ∀ {s a s'}, I s → step s a = some s' → I s')
    (hP : ∀ {s a}, I s → P s a) (hs : I s) : Each step P s l := by
  induction l generalizing s with
  | nil => trivial
  | cons a l ih => exact ⟨hP hs, fun t ht => ih (hstep hs ht)⟩

/-- Two conditions that agree wherever an invariant holds are met by the same runs, of labels that all satisfy `Q`. -/
theorem each_congr {Q : ι → Prop} {I : σ → Prop} (hstep : ∀ {s a s'}, I s → Q a → step s a = some s' → I s')
    (hP : ∀ {s a}, I s → Q a → (P s a ↔ P' s a)) (hs : I s) (hQ : ∀ a ∈ l, Q a) :
    Each step P s l ↔ Each step P' s l := by
  induction l generalizing s with
  | nil => exact Iff.rfl
  | cons a l ih =>
    have ha : Q a := hQ a List.mem_cons_self
    have hl : ∀ b ∈ l, Q b := fun b hb => hQ b (List.mem_cons_of_mem _ hb)
    refine and_congr (hP hs ha) (forall_congr' fun t => ?_)
    exact ⟨fun h ht => (ih (hstep hs ha ht) hl).1 (h ht), fun h ht => (ih (hstep hs ha ht) hl).2 (h ht)⟩

/-- **An invariant holds in every state that a run visits.** -/
theorem always_of_inv {I : σ → Prop} (hstep : ∀ {s a s'}, I s → step s a = some s' → I s') (hs : I s) :
    Always step I s l := by
  induction l generalizing s with
  | nil => exact hs
  | cons a l ih => exact ⟨hs, fun t ht => ih (hstep hs ht)⟩

/-- What holds in every state that a run visits, weakened. -/
theorem Always.imp {P P' : σ → Prop} (hP : ∀ {s}, P s → P' s) (h : Always step P s l) : Always step P' s l := by
  induction l generalizing s with
  | nil => exact hP h
  | cons a l ih => exact ⟨hP h.1, fun t ht => ih (h.2 t ht)⟩

theorem Always.head {P : σ → Prop} (h : Always step P s l) : P s := by
  cases l with
  | nil => exact h
  | cons => exact h.1

/-- Every state that a run visits is the end of one of its initial parts. -/
theorem Always.at {P : σ → Prop} (h : Always step P s (l₁ ++ l₂)) (hr : run step s l₁ = some s') : P s' := by
  induction l₁ generalizing s with
  | nil =>
    cases hr
    exact h.head
  | cons b l₁ ih =>
    obtain ⟨t, ht, hr⟩ := run_cons_some hr
    exact ih (h.2 t ht) hr

/-- **Where an invariant `I` holds, a step leads to `P` exactly under a condition on the step, and under it keeps the
invariant: then `P` holds along exactly the runs whose steps all meet the condition.** The labels all satisfy `Q`. -/
theorem always_iff_each_of {Q : ι → Prop} {I P : σ → Prop} {C : σ → ι → Prop} (hP : ∀ {s}, I s → P s)
    (hiff : ∀ {s a s'}, I s → Q a → step s a = some s' → (P s' ↔ C s a))
    (hstep : ∀ {s a s'}, I s → Q a → C s a → step s a = some s' → I s')
    (hs : I s) (hQ : ∀ a ∈ l, Q a) (hr : (run step s l).isSome) : Always step P s l ↔ Each step C s l := by
  induction l generalizing s with
  | nil => exact iff_of_true (hP hs) trivial
  | cons a l ih =>
    have ha : Q a := hQ a List.mem_cons_self
    have hl : ∀ b ∈ l, Q b := fun b hb => hQ b (List.mem_cons_of_mem _ hb)
    obtain ⟨u, hu⟩ := Option.isSome_iff_exists.1 hr
    obtain ⟨t, ht, hrest⟩ := run_cons_some hu
    have hone : ∀ {R : σ → Prop}, (∀ s', step s a = some s' → R s') ↔ R t := fun {R} =>
      ⟨fun h => h t ht, fun h s' hs' => by rw [ht] at hs'; cases hs'; exact h⟩
    have htail : C s a → (Always step P t l ↔ Each step C t l) := fun hc =>
      ih (hstep hs ha hc ht) hl (by simp [hrest])
    simp only [Always, Each, hone]
    constructor
    · rintro ⟨-, h⟩
      have hc : C s a := (hiff hs ha ht).1 h.head
      exact ⟨hc, (htail hc).1 h⟩
    · rintro ⟨hc, h⟩
      exact ⟨hP hs, (htail hc).2 h⟩

/-- **An invariant that a step keeps exactly under a condition on the step holds along exactly the runs whose steps all
meet the condition.** -/
theorem always_iff_each {P : σ → Prop} {C : σ → ι → Prop}
    (hstep : ∀ {s a s'}, P s → step s a = some s' → (P s' ↔ C s a)) (hs : P s) (hr : (run step s l).isSome) :
    Always step P s l ↔ Each step C s l :=
  always_iff_each_of (Q := fun _ => True) id (fun h _ => hstep h) (fun h _ hc ht => (hstep h ht).2 hc) hs
    (fun _ _ => trivial) hr

end Lts
