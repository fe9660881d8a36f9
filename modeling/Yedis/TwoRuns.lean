import Mathlib.Logic.Basic

/-!
# Two runs of a computation

`Alike R x y` says that from states related by `R` the computations `x` and `y` come
to the same end, with the same value or the same error, in states related by `R`
again. The rules follow the way computations are put together.
-/

namespace TwoRuns

variable {ε σ α β : Type} {R : σ → σ → Prop}

/-- The same value or the same error, in related states. -/
inductive Agree (R : σ → σ → Prop) : EStateM.Result ε σ α → EStateM.Result ε σ α → Prop
  | ok (a : α) {s t : σ} (h : R s t) : Agree R (.ok a s) (.ok a t)
  | error (e : ε) {s t : σ} (h : R s t) : Agree R (.error e s) (.error e t)

def Alike (R : σ → σ → Prop) (x y : EStateM ε σ α) : Prop := ∀ s t, R s t → Agree R (x s) (y t)

namespace Alike

theorem pure (a : α) : Alike R (pure a : EStateM ε σ α) (pure a) := fun _ _ h => .ok a h

theorem throw (e : ε) : Alike R (throw e : EStateM ε σ α) (throw e) := fun _ _ h => .error e h

theorem bind {x y : EStateM ε σ α} {f g : α → EStateM ε σ β} (hxy : Alike R x y)
    (hfg : ∀ a, Alike R (f a) (g a)) : Alike R (x >>= f) (y >>= g) := by
  intro s t h
  have hrun := hxy s t h
  change Agree R (EStateM.bind x f s) (EStateM.bind y g t)
  unfold EStateM.bind
  cases hx : x s with
  | ok a s' =>
      rw [hx] at hrun
      cases hy : y t with
      | ok b t' =>
          rw [hy] at hrun
          cases hrun with
          | ok a h' => exact hfg a s' t' h'
      | error e t' =>
          rw [hy] at hrun
          cases hrun
  | error e s' =>
      rw [hx] at hrun
      cases hy : y t with
      | ok b t' =>
          rw [hy] at hrun
          cases hrun
      | error e' t' =>
          rw [hy] at hrun
          cases hrun with
          | error e h' => exact .error e h'

theorem modify {f g : σ → σ} (h : ∀ s t, R s t → R (f s) (g t)) :
    Alike R (modify f : EStateM ε σ PUnit) (modify g) := fun s t hst => .ok _ (h s t hst)

/-- What follows may look at the state where it comes to related ends. -/
theorem get_bind {f g : σ → EStateM ε σ β} (h : ∀ s t, R s t → Agree R (f s s) (g t t)) :
    Alike R (get >>= f) (get >>= g) := h

/-- Reading what the related states have in common. -/
theorem read {f : σ → α} (h : ∀ s t, R s t → f s = f t) :
    Alike R (do return f (← get) : EStateM ε σ α) (do return f (← get)) := by
  intro s t hst
  change Agree R (.ok (f s) s) (.ok (f t) t)
  rw [h s t hst]
  exact .ok _ hst

end Alike

end TwoRuns
