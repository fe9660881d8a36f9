import Mathlib.Data.List.Basic

/-!
# Double-ended sequences

A sequence that grows and shrinks at both ends.
-/

namespace Deque

variable {α : Type}

inductive End
  | front
  | back
  deriving DecidableEq

def push : End → α → List α → List α
  | .front, x, l => x :: l
  | .back, x, l => l ++ [x]

/-- The elements pushed one by one. -/
def pushAll (e : End) (xs l : List α) : List α := xs.foldl (fun l x => push e x l) l

def pop : End → List α → Option (α × List α)
  | _, [] => none
  | .front, x :: l => some (x, l)
  | .back, x :: l => some ((x :: l).getLast (List.cons_ne_nil x l), (x :: l).dropLast)

theorem length_push (e : End) (x : α) (l : List α) : (push e x l).length = l.length + 1 := by
  cases e with
  | front => rfl
  | back => exact List.length_append

theorem length_pushAll (e : End) (xs l : List α) :
    (pushAll e xs l).length = l.length + xs.length := by
  induction xs generalizing l with
  | nil => rfl
  | cons x xs ih =>
      have hstep : pushAll e (x :: xs) l = pushAll e xs (push e x l) := rfl
      rw [hstep, ih, length_push, List.length_cons]
      omega

theorem pushAll_ne_nil (e : End) {xs : List α} (l : List α) (h : xs ≠ []) :
    pushAll e xs l ≠ [] := by
  intro heq
  have hlen := length_pushAll e xs l
  have hpos := List.length_pos_iff.mpr h
  rw [heq, List.length_nil] at hlen
  omega

theorem pop_nil (e : End) : pop e ([] : List α) = none := by cases e <;> rfl

end Deque
