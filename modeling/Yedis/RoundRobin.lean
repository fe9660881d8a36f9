import Mathlib.Data.Int.CardIntervalMod
import Mathlib.Data.Nat.Count
import Yedis.Fifo

/-!
# Round robin

The members of a list take turns in its order, again and again. After `k` turns every
member has had the same number of turns, but for one more that the first ones may
have had.
-/

namespace RoundRobin

variable {α : Type} {xs : List α}

/-- The member whose turn it is after `k` turns. -/
def turn (xs : List α) (k : ℕ) : Option α := xs[k % xs.length]?

/-- The first `k` turns. -/
def turns (xs : List α) (k : ℕ) : List α := (List.range k).filterMap (turn xs)

theorem turn_eq {i k : ℕ} (hi : i = k % xs.length) (hlt : i < xs.length) :
    turn xs k = some xs[i] := by
  subst hi
  exact List.getElem?_eq_getElem hlt

theorem turns_succ {x : α} {k : ℕ} (h : turn xs k = some x) : turns xs (k + 1) = turns xs k ++ [x] := by
  rw [turns, List.range_succ, List.filterMap_append, ← turns, List.filterMap_cons, h,
    List.filterMap_nil]

/-- How a counter that goes round comes to the next member. -/
theorem next_mod {n : ℕ} (hn : 0 < n) (k : ℕ) :
    (k + 1) % n = if n ≤ k % n + 1 then 0 else k % n + 1 := by
  have hlt := Nat.mod_lt k hn
  split_ifs with h
  · have hround : k + 1 = n * (k / n + 1) := by
      have hdiv := Nat.div_add_mod k n
      rw [Nat.mul_succ]
      omega
    rw [hround, Nat.mul_mod_right]
  · rw [Nat.add_mod, Nat.mod_eq_of_lt (show 1 < n by omega), Nat.mod_eq_of_lt (by omega)]

/-- The turns of one member. -/
theorem count_turns [DecidableEq α] (hnodup : xs.Nodup) {j : ℕ} (hj : j < xs.length) (k : ℕ) :
    (turns xs k).count xs[j] = k / xs.length + if j < k % xs.length then 1 else 0 := by
  have hlen : 0 < xs.length := by omega
  have hcount : (turns xs k).count xs[j] = k.count (· ≡ j [MOD xs.length]) := by
    induction k with
    | zero => rfl
    | succ k ih =>
        have hlt := Nat.mod_lt k hlen
        have hone : [xs[k % xs.length]].count xs[j] = if k ≡ j [MOD xs.length] then 1 else 0 := by
          simp [List.count_singleton, hnodup.getElem_inj_iff, Nat.ModEq, Nat.mod_eq_of_lt hj]
        rw [turns_succ (List.getElem?_eq_getElem hlt), List.count_append, ih, Nat.count_succ, hone]
  rw [hcount, Nat.count_modEq_card k hlen j, Nat.mod_eq_of_lt hj]

theorem count_turns_le [DecidableEq α] (hnodup : xs.Nodup) {i j : ℕ} (hi : i < xs.length)
    (hj : j < xs.length) (k : ℕ) : (turns xs k).count xs[i] ≤ (turns xs k).count xs[j] + 1 := by
  rw [count_turns hnodup hi, count_turns hnodup hj]
  split_ifs <;> omega

end RoundRobin
