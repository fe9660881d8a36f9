import Mathlib.Algebra.Ring.Nat

/-!
# Runs of a step relation

A run carries every transition it took, so that a property of all its states can be
compared with a condition on all its steps.
-/

namespace Runs

structure Transition (σ ℓ : Type) where
  src : σ
  label : ℓ
  dst : σ

variable {σ ℓ : Type} {step : σ → ℓ → σ → Prop} {s₀ s : σ} {trace : List (Transition σ ℓ)}

/-- The transitions of `trace`, the newest first, lead from `s₀` to `s`. -/
inductive Run (step : σ → ℓ → σ → Prop) (s₀ : σ) : List (Transition σ ℓ) → σ → Prop
  | start : Run step s₀ [] s₀
  | next {trace : List (Transition σ ℓ)} {s s' : σ} {l : ℓ} (run : Run step s₀ trace s)
      (h : step s l s') : Run step s₀ (⟨s, l, s'⟩ :: trace) s'

/-- The labels of a run, the newest first. -/
def labels (trace : List (Transition σ ℓ)) : List ℓ := trace.map Transition.label

@[simp] theorem labels_nil : labels ([] : List (Transition σ ℓ)) = [] := rfl

@[simp] theorem labels_cons (t : Transition σ ℓ) (trace : List (Transition σ ℓ)) :
    labels (t :: trace) = t.label :: labels trace := rfl

namespace Run

theorem invariant (run : Run step s₀ trace s) {P : σ → Prop} (h₀ : P s₀)
    (hstep : ∀ s l s', P s → step s l s' → P s') : P s := by
  induction run with
  | start => exact h₀
  | next _ h ih => exact hstep _ _ _ ih h

/-- An invariant may speak of the steps taken so far. -/
theorem invariant_labels (run : Run step s₀ trace s) {P : List ℓ → σ → Prop} (h₀ : P [] s₀)
    (hstep : ∀ ls s l s', P ls s → step s l s' → P (l :: ls) s') : P (labels trace) s := by
  induction run with
  | start => exact h₀
  | next _ h ih => exact hstep _ _ _ _ ih h

/-- What holds of a step by an invariant holds of each label with the labels before it. -/
theorem each_label (run : Run step s₀ trace s) {P : List ℓ → σ → Prop} {Q : List ℓ → ℓ → Prop}
    (h₀ : P [] s₀) (hstep : ∀ ls s l s', P ls s → step s l s' → P (l :: ls) s' ∧ Q ls l)
    {later earlier : List ℓ} {l : ℓ} (hsplit : labels trace = later ++ l :: earlier) :
    Q earlier l := by
  induction run generalizing later with
  | start => exact absurd hsplit.symm (by simp)
  | next run h ih =>
      have hinv := run.invariant_labels h₀ fun ls s l s' hP h => (hstep ls s l s' hP h).1
      rw [labels_cons] at hsplit
      cases later with
      | nil =>
          rw [List.nil_append, List.cons.injEq] at hsplit
          rw [← hsplit.1, ← hsplit.2]
          exact (hstep _ _ _ _ hinv h).2
      | cons newer later =>
          rw [List.cons_append, List.cons.injEq] at hsplit
          exact ih hsplit.2

/-- An invariant of the runs whose steps all meet `Q`. -/
theorem invariant_of_all (run : Run step s₀ trace s) {P : σ → Prop} {Q : σ → ℓ → Prop} (h₀ : P s₀)
    (hall : ∀ t ∈ trace, Q t.src t.label)
    (hstep : ∀ s l s', P s → Q s l → step s l s' → P s') : P s := by
  induction run with
  | start => exact h₀
  | next _ h ih =>
      rw [List.forall_mem_cons] at hall
      exact hstep _ _ _ (ih hall.2) hall.1 h

/-- It may speak of the steps taken so far there too. -/
theorem invariant_labels_of_all (run : Run step s₀ trace s) {P : List ℓ → σ → Prop}
    {Q : σ → ℓ → Prop} (h₀ : P [] s₀) (hall : ∀ t ∈ trace, Q t.src t.label)
    (hstep : ∀ ls s l s', P ls s → Q s l → step s l s' → P (l :: ls) s') :
    P (labels trace) s := by
  induction run with
  | start => exact h₀
  | next _ h ih =>
      rw [List.forall_mem_cons] at hall
      exact hstep _ _ _ _ (ih hall.2) hall.1 h

/-- What steps add to a quantity and take from it adds up over a run. -/
theorem balance (run : Run step s₀ trace s) {I : σ → Prop} {f : σ → ℕ}
    {gain loss : Transition σ ℓ → ℕ} (hI₀ : I s₀) (hI : ∀ s l s', I s → step s l s' → I s')
    (hstep : ∀ s l s', I s → step s l s' → f s' + loss ⟨s, l, s'⟩ = f s + gain ⟨s, l, s'⟩) :
    f s + (trace.map loss).sum = f s₀ + (trace.map gain).sum := by
  induction run with
  | start => rfl
  | next run h ih =>
      have hone := hstep _ _ _ (run.invariant hI₀ hI) h
      rw [List.map_cons, List.map_cons, List.sum_cons, List.sum_cons]
      omega

/-- A run with one label is one step. -/
theorem single (run : Run step s₀ trace s) {l : ℓ} (h : labels trace = [l]) : step s₀ l s := by
  cases run with
  | start => cases h
  | next run hlast =>
      rw [labels_cons, List.cons.injEq] at h
      obtain ⟨rfl, hnone⟩ := h
      cases run with
      | start => exact hlast
      | next _ _ => cases hnone

theorem last_of_all (run : Run step s₀ trace s) {P : σ → Prop} (h₀ : P s₀)
    (hall : ∀ t ∈ trace, P t.dst) : P s := by
  cases run with
  | start => exact h₀
  | next _ _ => exact hall _ List.mem_cons_self

/-- If from a state with `P` a step leads to one exactly when it meets `Q`, then all states of a
run have `P` exactly when all its steps meet `Q`. The invariant `I` may be used for this. -/
theorem always_iff (run : Run step s₀ trace s) {I P : σ → Prop} {Q : σ → ℓ → Prop} (hI₀ : I s₀)
    (hI : ∀ s l s', I s → step s l s' → I s') (h₀ : P s₀)
    (hstep : ∀ s l s', I s → P s → step s l s' → (P s' ↔ Q s l)) :
    (∀ t ∈ trace, P t.dst) ↔ ∀ t ∈ trace, Q t.src t.label := by
  induction run with
  | start => simp
  | next run h ih =>
      rw [List.forall_mem_cons, List.forall_mem_cons, ← ih]
      refine and_congr_left fun hall => ?_
      exact hstep _ _ _ (run.invariant hI₀ hI) (run.last_of_all h₀ hall) h

/-- If a step leads to a state with `P` exactly when it starts in one and meets `Q`, then a run ends
in a state with `P` exactly when all its steps meet `Q`. -/
theorem holds_iff (run : Run step s₀ trace s) {I P : σ → Prop} {Q : σ → ℓ → Prop} (hI₀ : I s₀)
    (hI : ∀ s l s', I s → step s l s' → I s') (h₀ : P s₀)
    (hstep : ∀ s l s', I s → step s l s' → (P s' ↔ P s ∧ Q s l)) :
    P s ↔ ∀ t ∈ trace, Q t.src t.label := by
  induction run with
  | start => exact iff_of_true h₀ (by simp)
  | next run h ih =>
      rw [List.forall_mem_cons, hstep _ _ _ (run.invariant hI₀ hI) h, ih]
      exact and_comm

/-- What holds of every step holds of the steps of a run. -/
theorem each_step (run : Run step s₀ trace s) {I : σ → Prop} {Q : σ → ℓ → σ → Prop} (hI₀ : I s₀)
    (hI : ∀ s l s', I s → step s l s' → I s') (hstep : ∀ s l s', I s → step s l s' → Q s l s') :
    ∀ t ∈ trace, Q t.src t.label t.dst := by
  induction run with
  | start => simp
  | next run h ih =>
      exact List.forall_mem_cons.mpr ⟨hstep _ _ _ (run.invariant hI₀ hI) h, ih⟩

/-- Where steps labelled `A` bring `P` about and no step ends it, `P` holds at the end of a run with
such a step. -/
theorem holds_since (run : Run step s₀ trace s) {I P : σ → Prop} {A : ℓ → Prop} (hI₀ : I s₀)
    (hI : ∀ s l s', I s → step s l s' → I s')
    (hset : ∀ s l s', I s → step s l s' → A l → P s')
    (hkeep : ∀ s l s', I s → P s → step s l s' → P s') (h : ∃ t ∈ trace, A t.label) : P s := by
  induction run with
  | start =>
      obtain ⟨t, ht, -⟩ := h
      cases ht
  | next run hstep ih =>
      obtain ⟨t, ht, hA⟩ := h
      have hinv := run.invariant hI₀ hI
      rcases List.mem_cons.mp ht with rfl | ht
      · exact hset _ _ _ hinv hstep hA
      · exact hkeep _ _ _ hinv (ih ⟨t, ht, hA⟩) hstep

/-- It holds in every state from such a step on. -/
theorem stays (run : Run step s₀ trace s) {I P : σ → Prop} {A : ℓ → Prop} (hI₀ : I s₀)
    (hI : ∀ s l s', I s → step s l s' → I s')
    (hset : ∀ s l s', I s → step s l s' → A l → P s')
    (hkeep : ∀ s l s', I s → P s → step s l s' → P s') {later earlier : List (Transition σ ℓ)}
    {t : Transition σ ℓ} (hsplit : trace = later ++ t :: earlier) (ht : A t.label) :
    ∀ u ∈ later ++ [t], P u.dst := by
  induction run generalizing later with
  | start => exact absurd hsplit.symm (by simp)
  | next run hstep ih =>
      have hend := (run.next hstep).holds_since hI₀ hI hset hkeep
        ⟨t, by rw [hsplit]; simp, ht⟩
      cases later with
      | nil =>
          rw [List.nil_append, List.cons.injEq] at hsplit
          intro u hu
          rw [List.mem_singleton.mp hu, ← hsplit.1]
          exact hend
      | cons v later =>
          rw [List.cons_append, List.cons.injEq] at hsplit
          intro u hu
          rcases List.mem_cons.mp hu with rfl | hu
          · rw [← hsplit.1]
            exact hend
          · exact ih hsplit.2 u hu

/-- Where steps labelled `A` bring `P` about, no step ends it, and no step labelled `A` starts in
it, there is at most one such step. -/
theorem at_most_once (run : Run step s₀ trace s) {I P : σ → Prop} {A : ℓ → Prop} (hI₀ : I s₀)
    (hI : ∀ s l s', I s → step s l s' → I s')
    (hset : ∀ s l s', I s → step s l s' → A l → P s')
    (hkeep : ∀ s l s', I s → P s → step s l s' → P s')
    (hno : ∀ s l s', I s → P s → step s l s' → ¬ A l) :
    (labels trace).Pairwise fun l l' => ¬ (A l ∧ A l') := by
  induction run with
  | start => exact .nil
  | next run hstep ih =>
      refine List.pairwise_cons.mpr ⟨?_, ih⟩
      rintro l hl ⟨hnew, hold⟩
      obtain ⟨t, ht, rfl⟩ := List.mem_map.mp hl
      exact hno _ _ _ (run.invariant hI₀ hI)
        (run.holds_since hI₀ hI hset hkeep ⟨t, ht, hold⟩) hstep hnew

/-- Where each step of a run is a step of another relation between related states, the run is a run
of that relation with the same labels. -/
theorem simulates (run : Run step s₀ trace s) {τ : Type} {other : τ → ℓ → τ → Prop}
    {R : σ → τ → Prop} {t₀ : τ} (h₀ : R s₀ t₀)
    (hstep : ∀ s l s' t, R s t → step s l s' → ∃ t', other t l t' ∧ R s' t') :
    ∃ (trace' : List (Transition τ ℓ)) (t : τ),
      Run other t₀ trace' t ∧ labels trace' = labels trace ∧ R s t := by
  induction run with
  | start => exact ⟨[], t₀, .start, rfl, h₀⟩
  | next _ h ih =>
      obtain ⟨trace', t, hrun, hlabels, hR⟩ := ih
      obtain ⟨t', hother, hR'⟩ := hstep _ _ _ _ hR h
      exact ⟨_, t', .next hrun hother, by rw [labels_cons, labels_cons, hlabels], hR'⟩

/-- Where each step with a visible label is a step of another relation between related states, and
the others lead to related states, the run is a run of that relation but for the others. -/
theorem simulates_visible (run : Run step s₀ trace s) {τ : Type} {other : τ → ℓ → τ → Prop}
    {R : σ → τ → Prop} {Q : σ → ℓ → Prop} {t₀ : τ} (visible : ℓ → Bool) (h₀ : R s₀ t₀)
    (hall : ∀ t ∈ trace, Q t.src t.label)
    (hstep : ∀ s l s' t, R s t → Q s l → step s l s' →
      if visible l then ∃ t', other t l t' ∧ R s' t' else R s' t) :
    ∃ (trace' : List (Transition τ ℓ)) (t : τ),
      Run other t₀ trace' t ∧ labels trace' = (labels trace).filter visible ∧ R s t := by
  induction run with
  | start => exact ⟨[], t₀, .start, rfl, h₀⟩
  | @next trace s s' l run h ih =>
      rw [List.forall_mem_cons] at hall
      obtain ⟨trace', t, hrun, hlabels, hR⟩ := ih hall.2
      have hone := hstep _ _ _ _ hR hall.1 h
      rw [labels_cons, List.filter_cons]
      split_ifs at hone ⊢
      · obtain ⟨t', hother, hR'⟩ := hone
        exact ⟨_, t', .next hrun hother, by rw [labels_cons, hlabels], hR'⟩
      · exact ⟨trace', t, hrun, hlabels, hone⟩

end Run

end Runs
