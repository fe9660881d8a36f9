import Mathlib.Logic.Function.Basic

/-!
# Threads that hold a lock

Each thread is at a place in its code, and the places say which threads hold a lock.
The owner recorded in the lock is the thread at such a place as long as a thread takes
a free lock, releases a lock it holds, or moves without doing either.
-/

namespace Locks

variable {T P : Type} {owner : Option T} {place : T → P} {holds : P → Prop} {t u : T} {p : P}

/-- The owner of the lock is the thread at a place that holds it. -/
def Held (owner : Option T) (place : T → P) (holds : P → Prop) : Prop :=
  ∀ t, owner = some t ↔ holds (place t)

theorem Held.unique (h : Held owner place holds) (ht : holds (place t)) (hu : holds (place u)) :
    t = u :=
  Option.some.inj (((h t).mpr ht).symm.trans ((h u).mpr hu))

theorem Held.not_holds (h : Held owner place holds) (ht : holds (place t)) (hne : u ≠ t) :
    ¬ holds (place u) := fun hu => hne (h.unique hu ht)

theorem Held.free (h : Held owner place holds) (hnone : owner = none) (t : T) :
    ¬ holds (place t) := fun ht => by
  rw [← h t, hnone] at ht
  cases ht

/-- Threads whose places hold the lock no more and no less than before. -/
theorem Held.congr (h : Held owner place holds) {place' : T → P}
    (hsame : ∀ t, holds (place' t) ↔ holds (place t)) : Held owner place' holds :=
  fun t => (h t).trans (hsame t).symm

variable [DecidableEq T]

theorem Held.move (h : Held owner place holds) (hsame : holds p ↔ holds (place t)) :
    Held owner (Function.update place t p) holds := by
  refine h.congr fun u => ?_
  by_cases hu : u = t
  · rw [hu, Function.update_self]
    exact hsame
  · rw [Function.update_of_ne hu]

theorem Held.acquire (h : Held owner place holds) (hnone : owner = none) (hp : holds p) :
    Held (some t) (Function.update place t p) holds := by
  intro u
  by_cases hu : u = t
  · rw [hu, Function.update_self]
    exact iff_of_true rfl hp
  · rw [Function.update_of_ne hu]
    exact iff_of_false (fun heq => hu (Option.some.inj heq).symm) (h.free hnone u)

theorem Held.release (h : Held owner place holds) (ht : holds (place t)) (hp : ¬ holds p) :
    Held none (Function.update place t p) holds := by
  intro u
  refine iff_of_false (fun heq => by cases heq) ?_
  by_cases hu : u = t
  · rw [hu, Function.update_self]
    exact hp
  · rw [Function.update_of_ne hu]
    exact h.not_holds ht hu

end Locks
