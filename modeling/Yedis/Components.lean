import Mathlib.Logic.Function.Basic
import Yedis.Runs

/-!
# Systems of independent components

Each label of such a system belongs to one component, and a step changes no other. A
run is then one run for each component, with the labels that belong to it, so nothing
depends on the order in which labels of different components follow each other.
-/

namespace Components
open Runs

section Reaches
variable {σ ℓ : Type} {step : σ → ℓ → σ → Prop} {s₀ s : σ} {l : ℓ} {ls : List ℓ}

/-- A run from `s₀` to `s` has these labels, the newest first. -/
def Reaches (step : σ → ℓ → σ → Prop) (s₀ : σ) (ls : List ℓ) (s : σ) : Prop :=
  ∃ trace, Run step s₀ trace s ∧ labels trace = ls

theorem reaches_nil : Reaches step s₀ [] s ↔ s = s₀ := by
  constructor
  · rintro ⟨trace, run, hlabels⟩
    cases run with
    | start => rfl
    | next run h => cases hlabels
  · rintro rfl
    exact ⟨[], .start, rfl⟩

theorem reaches_cons : Reaches step s₀ (l :: ls) s ↔ ∃ u, Reaches step s₀ ls u ∧ step u l s := by
  constructor
  · rintro ⟨trace, run, hlabels⟩
    cases run with
    | start => cases hlabels
    | next run h =>
        rw [labels_cons, List.cons.injEq] at hlabels
        obtain ⟨rfl, hlabels⟩ := hlabels
        exact ⟨_, ⟨_, run, hlabels⟩, h⟩
  · rintro ⟨u, ⟨trace, run, rfl⟩, h⟩
    exact ⟨_, run.next h, rfl⟩

end Reaches

variable {ι τ ℓ : Type} [DecidableEq ι] {place : ℓ → ι} {step : ι → τ → ℓ → τ → Prop}
  {s₀ s : ι → τ} {ls : List ℓ}

/-- The component of `l` takes a step and the others stay as they are. -/
def Step (place : ℓ → ι) (step : ι → τ → ℓ → τ → Prop) (s : ι → τ) (l : ℓ) (s' : ι → τ) : Prop :=
  step (place l) (s (place l)) l (s' (place l)) ∧ ∀ i, i ≠ place l → s' i = s i

/-- The labels of one component. -/
def belonging (place : ℓ → ι) (i : ι) (ls : List ℓ) : List ℓ := ls.filter fun l => place l = i

theorem belonging_cons_self (l : ℓ) :
    belonging place (place l) (l :: ls) = l :: belonging place (place l) ls := by
  simp [belonging]

theorem belonging_cons_of_ne {l : ℓ} {i : ι} (h : i ≠ place l) :
    belonging place i (l :: ls) = belonging place i ls := by
  simp [belonging, h.symm]

theorem reaches_iff : Reaches (Step place step) s₀ ls s ↔
    ∀ i, Reaches (step i) (s₀ i) (belonging place i ls) (s i) := by
  induction ls generalizing s with
  | nil =>
      simp only [belonging, List.filter_nil, reaches_nil]
      exact funext_iff
  | cons l ls ih =>
      rw [reaches_cons]
      constructor
      · rintro ⟨u, hu, hstep, hframe⟩ i
        rw [ih] at hu
        by_cases hi : i = place l
        · subst hi
          rw [belonging_cons_self, reaches_cons]
          exact ⟨_, hu _, hstep⟩
        · rw [belonging_cons_of_ne hi, hframe i hi]
          exact hu i
      · intro h
        have hplace := h (place l)
        rw [belonging_cons_self, reaches_cons] at hplace
        obtain ⟨v, hv, hstep⟩ := hplace
        refine ⟨Function.update s (place l) v, ih.mpr fun i => ?_, ?_, fun i hi => ?_⟩
        · by_cases hi : i = place l
          · subst hi
            rw [Function.update_self]
            exact hv
          · have hother := h i
            rw [belonging_cons_of_ne hi] at hother
            rw [Function.update_of_ne hi]
            exact hother
        · rw [Function.update_self]
          exact hstep
        · rw [Function.update_of_ne hi]

/-- Labels that are the same for each component reach the same states. -/
theorem reaches_congr {ls' : List ℓ} (h : ∀ i, belonging place i ls = belonging place i ls') :
    Reaches (Step place step) s₀ ls s ↔ Reaches (Step place step) s₀ ls' s := by
  rw [reaches_iff, reaches_iff]
  exact forall_congr' fun i => by rw [h i]

end Components
