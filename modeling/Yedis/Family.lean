import Mathlib.Logic.Function.Basic
import Yedis.Runs

/-!
# Families of objects that can be exchanged

An object is acted upon by operations with results. A family of such objects takes
operations on each of them, and two of them can be exchanged. When every operation on
one object is an operation of a model of it, every run of the family is a run of the
family of models.
-/

namespace Family
open Runs

inductive Call (ι op res : Type)
  | on (i : ι) (operation : op) (result : res)
  | swap (i j : ι)

variable {ι op res σ τ : Type} [DecidableEq ι]

/-- `perform x operation result x'` says that `operation` takes an object from `x` to `x'`. -/
inductive Step (perform : σ → op → res → σ → Prop) (s : ι → σ) : Call ι op res → (ι → σ) → Prop
  | on {i : ι} {operation : op} {result : res} {x : σ} (h : perform (s i) operation result x) :
      Step perform s (.on i operation result) (Function.update s i x)
  | swap (i j : ι) :
      Step perform s (.swap i j) (Function.update (Function.update s i (s j)) j (s i))

variable {perform : σ → op → res → σ → Prop} {model : τ → op → res → τ → Prop} {R : σ → τ → Prop}

theorem update_related {s : ι → σ} {q : ι → τ} (hR : ∀ k, R (s k) (q k)) (i : ι) {x : σ} {y : τ}
    (h : R x y) (k : ι) : R (Function.update s i x k) (Function.update q i y k) := by
  by_cases hk : k = i
  · rw [hk, Function.update_self, Function.update_self]
    exact h
  · rw [Function.update_of_ne hk, Function.update_of_ne hk]
    exact hR k

theorem Step.simulated {s s' : ι → σ} {q : ι → τ} {call : Call ι op res}
    (hop : ∀ x y operation result x', R x y → perform x operation result x' →
      ∃ y', model y operation result y' ∧ R x' y')
    (hR : ∀ k, R (s k) (q k)) (h : Step perform s call s') :
    ∃ q', Step model q call q' ∧ ∀ k, R (s' k) (q' k) := by
  cases h with
  | @on i operation result x h =>
      obtain ⟨y, hmodel, hy⟩ := hop _ _ _ _ _ (hR i) h
      exact ⟨_, .on hmodel, update_related hR i hy⟩
  | swap i j =>
      exact ⟨_, .swap i j, update_related (update_related hR i (hR j)) j (hR i)⟩

theorem run_simulated (model : τ → op → res → τ → Prop) (R : σ → τ → Prop) (q₀ : ι → τ)
    {s₀ s : ι → σ} {trace : List (Transition (ι → σ) (Call ι op res))}
    (run : Run (Step perform) s₀ trace s) (h₀ : ∀ k, R (s₀ k) (q₀ k))
    (hop : ∀ x y operation result x', R x y → perform x operation result x' →
      ∃ y', model y operation result y' ∧ R x' y') :
    ∃ (trace' : List (Transition (ι → τ) (Call ι op res))) (q : ι → τ),
      Run (Step model) q₀ trace' q ∧ labels trace' = labels trace ∧ ∀ k, R (s k) (q k) :=
  run.simulates (R := fun (s : ι → σ) (q : ι → τ) => ∀ k, R (s k) (q k)) h₀
    fun _ _ _ _ hR h => h.simulated hop hR

end Family
