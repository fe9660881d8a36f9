import Mathlib.Algebra.BigOperators.Group.Finset.Piecewise
import Mathlib.Data.Fintype.Basic
import Mathlib.Data.List.Infix

/-!
# First in, first out

A move of a queue takes items in at its back and gives items out at its front. Moves
one after the other are a move again, so what has left a queue that was empty at first
is a prefix of what went into it. Items with a key are told apart by `ofKey`. The items
of finitely many queues are counted by `total`.
-/

namespace Fifo

variable {α ε κ : Type}

/-- The queue goes from `c` to `c'`, with `ins` put in at the back and `outs` taken from the front. -/
def Move (c ins outs c' : List α) : Prop := c ++ ins = outs ++ c'

namespace Move

variable {c c' c'' ins ins' outs outs' : List α}

theorem idle (c : List α) : Move c [] [] c := List.append_nil c

theorem put (c ins : List α) : Move c ins [] (c ++ ins) := rfl

theorem take (outs c : List α) : Move (outs ++ c) [] outs c := List.append_nil _

theorem trans (h : Move c ins outs c') (h' : Move c' ins' outs' c'') :
    Move c (ins ++ ins') (outs ++ outs') c'' := by
  unfold Move at *
  rw [← List.append_assoc, h, List.append_assoc, h', List.append_assoc]

theorem outs_prefix (h : Move [] ins outs c) : outs <+: ins := ⟨c, h.symm⟩

theorem outs_eq (h : Move [] ins outs []) : outs = ins := by
  rw [← List.append_nil outs]
  exact h.symm

end Move

/-- What a history of steps, the newest first, has moved, in the order in which it happened. -/
def moved (f : ε → List α) (history : List ε) : List α := history.reverse.flatMap f

@[simp] theorem moved_nil (f : ε → List α) : moved f [] = [] := rfl

@[simp] theorem moved_cons (f : ε → List α) (e : ε) (history : List ε) :
    moved f (e :: history) = moved f history ++ f e := by
  simp [moved]

theorem moved_map {β : Type} (f : ε → List α) (g : α → β) (history : List ε) :
    moved (fun e => (f e).map g) history = (moved f history).map g := by
  rw [moved, moved, List.map_flatMap]

variable [DecidableEq κ]

/-- The items with the key `k`. -/
def ofKey (k : κ) (items : List (κ × α)) : List α :=
  items.filterMap fun p => if p.1 = k then some p.2 else none

@[simp] theorem ofKey_nil (k : κ) : ofKey k ([] : List (κ × α)) = [] := rfl

@[simp] theorem ofKey_append (k : κ) (xs ys : List (κ × α)) :
    ofKey k (xs ++ ys) = ofKey k xs ++ ofKey k ys := List.filterMap_append

@[simp] theorem ofKey_cons_self (k : κ) (x : α) (xs : List (κ × α)) :
    ofKey k ((k, x) :: xs) = x :: ofKey k xs := by
  simp [ofKey]

theorem ofKey_cons_of_ne {k j : κ} (h : j ≠ k) (x : α) (xs : List (κ × α)) :
    ofKey k ((j, x) :: xs) = ofKey k xs := by
  simp [ofKey, h]

theorem ofKey_map {β : Type} (k : κ) (g : α → β) (xs : List (κ × α)) :
    ofKey k (xs.map fun p => (p.1, g p.2)) = (ofKey k xs).map g := by
  rw [ofKey, ofKey, List.filterMap_map, List.map_filterMap]
  congr 1
  funext p
  by_cases hp : p.1 = k <;> simp [hp]

theorem ofKey_prefix (k : κ) {xs ys : List (κ × α)} (h : xs <+: ys) : ofKey k xs <+: ofKey k ys := by
  obtain ⟨zs, rfl⟩ := h
  exact ⟨ofKey k zs, (ofKey_append k xs zs).symm⟩

theorem sum_update {ι : Type} [Fintype ι] [DecidableEq ι] (f : ι → ℕ) (i : ι) (n : ℕ) :
    ∑ j, Function.update f i n j + f i = ∑ j, f j + n := by
  have hrest := Finset.sum_eq_add_sum_sdiff_singleton_of_mem (Finset.mem_univ i) f
  rw [Finset.sum_update_of_mem (Finset.mem_univ i), hrest]
  omega

/-- The number of items in all queues. -/
def total {ι : Type} [Fintype ι] (queues : ι → List α) : ℕ := ∑ i, (queues i).length

theorem total_update {ι : Type} [Fintype ι] [DecidableEq ι] (queues : ι → List α) (i : ι)
    (items : List α) :
    total (Function.update queues i items) + (queues i).length = total queues + items.length := by
  have hlengths : (fun j => (Function.update queues i items j).length) =
      Function.update (fun j => (queues j).length) i items.length := by
    funext j
    by_cases hj : j = i
    · rw [hj, Function.update_self, Function.update_self]
    · rw [Function.update_of_ne hj, Function.update_of_ne hj]
  have hsum := sum_update (fun j => (queues j).length) i items.length
  rw [total, hlengths]
  exact hsum

end Fifo
