import Mathlib.Data.List.Forall2
import Mathlib.Tactic.Common

/-!
# Sequences cut into marked blocks

A block is a list that starts with a given mark. Two ways to cut one sequence into
blocks are the same as soon as each block of the one has at least as many marks as
the corresponding block of the other.
-/

namespace Blocks

variable {α : Type*} [DecidableEq α] {a : α}

theorem count_flatten_le {xs ys : List (List α)}
    (h : List.Forall₂ (fun x y => y.count a ≤ x.count a) xs ys) :
    ys.flatten.count a ≤ xs.flatten.count a := by
  induction h with
  | nil => exact Nat.le_refl _
  | cons hxy htail ih =>
      rw [List.flatten_cons, List.flatten_cons, List.count_append, List.count_append]
      omega

omit [DecidableEq α] in
theorem flatten_head {xs : List (List α)} (h : ∀ x ∈ xs, x.head? = some a) :
    xs.flatten = [] ∨ xs.flatten.head? = some a := by
  cases xs with
  | nil => exact Or.inl rfl
  | cons x xs =>
      have hx := h x (by simp)
      right
      cases x with
      | nil => cases hx
      | cons c x => simpa using hx

/-- What is left over between two first blocks has no mark, but would have to start with one. -/
theorem leftover_nil {t X Y : List α} (hX : X = [] ∨ X.head? = some a) (h : X = t ++ Y)
    (hcount : t.count a = 0) : t = [] := by
  cases t with
  | nil => rfl
  | cons c t =>
      rcases hX with rfl | hX
      · cases h
      · have hc : c = a := by simpa [h] using hX
        subst hc
        simp at hcount

theorem first_block_eq {x y X Y : List α} (hX : X = [] ∨ X.head? = some a)
    (hY : Y = [] ∨ Y.head? = some a) (hcount : x.count a = y.count a) (h : x ++ X = y ++ Y) :
    x = y ∧ X = Y := by
  rcases List.append_eq_append_iff.mp h with ⟨t, ht, hrest⟩ | ⟨t, ht, hrest⟩
  · rw [ht, List.count_append] at hcount
    have hnil := leftover_nil hX hrest (by omega)
    subst hnil
    exact ⟨by rw [ht, List.append_nil], by rw [hrest, List.nil_append]⟩
  · rw [ht, List.count_append] at hcount
    have hnil := leftover_nil hY hrest (by omega)
    subst hnil
    exact ⟨by rw [ht, List.append_nil], by rw [hrest, List.nil_append]⟩

theorem cut_unique {xs ys : List (List α)} (hx : ∀ x ∈ xs, x.head? = some a)
    (hy : ∀ y ∈ ys, y.head? = some a)
    (hcount : List.Forall₂ (fun x y => y.count a ≤ x.count a) xs ys)
    (h : xs.flatten = ys.flatten) : xs = ys := by
  induction hcount with
  | nil => rfl
  | @cons x y xs ys hxy htail ih =>
      rw [List.flatten_cons, List.flatten_cons] at h
      have hx' : ∀ z ∈ xs, z.head? = some a := fun z hz => hx z (List.mem_cons_of_mem _ hz)
      have hy' : ∀ z ∈ ys, z.head? = some a := fun z hz => hy z (List.mem_cons_of_mem _ hz)
      have htotal := congrArg (List.count a) h
      rw [List.count_append, List.count_append] at htotal
      have hle := count_flatten_le htail
      obtain ⟨rfl, hrest⟩ := first_block_eq (flatten_head hx') (flatten_head hy') (by omega) h
      rw [ih hx' hy' hrest]

end Blocks
