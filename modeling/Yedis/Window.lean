import Mathlib.Data.List.Basic

/-!
# The content of a storage between two indices

A buffer keeps its content in a longer storage, between a read and a write index.
Growing the storage keeps the content, moving it to another place keeps it, and
bytes written at the write index come behind it.
-/

namespace Window
variable {α : Type}

/-- The elements of the storage `xs` from index `i` up to index `j`. -/
def window (xs : List α) (i j : ℕ) : List α := (xs.drop i).take (j - i)

theorem window_self (xs : List α) (i : ℕ) : window xs i i = [] := by
  rw [window, Nat.sub_self, List.take_zero]

theorem window_length {xs : List α} (i : ℕ) {j : ℕ} (hj : j ≤ xs.length) :
    (window xs i j).length = j - i := by
  rw [window, List.length_take, List.length_drop]
  omega

theorem window_append {xs : List α} {i j : ℕ} (hi : i ≤ j) (hj : j ≤ xs.length) (ys : List α) :
    window (xs ++ ys) i j = window xs i j := by
  rw [window, List.drop_append_of_le_length (Nat.le_trans hi hj),
    List.take_append_of_le_length (by rw [List.length_drop]; omega)]
  rfl

/-- The content of `xs` moved behind its first `k` elements. -/
theorem window_move {xs : List α} {i j k : ℕ} (hj : j ≤ xs.length) (front back : List α)
    (hk : front.length = k) :
    window (front ++ window xs i j ++ back) k (k + (j - i)) = window xs i j := by
  have hlen : (window xs i j).length = k + (j - i) - k := by
    rw [window_length i hj]
    omega
  rw [window, List.append_assoc, List.drop_left' hk]
  exact List.take_left' hlen

theorem window_write {xs : List α} {i j : ℕ} (hi : i ≤ j) (hj : j ≤ xs.length)
    (data back : List α) :
    window (xs.take j ++ data ++ back) i (j + data.length) = window xs i j ++ data := by
  have htake : (xs.take j).drop i = window xs i j := List.drop_take
  have hlen : (window xs i j ++ data).length = j + data.length - i := by
    rw [List.length_append, window_length i hj]
    omega
  rw [window, List.append_assoc, List.drop_append_of_le_length (by rw [List.length_take]; omega),
    htake, ← List.append_assoc, List.take_left' hlen]

/-- Elements written in front of the content. -/
theorem window_prepend {xs : List α} {i j k : ℕ} (hj : j ≤ xs.length) (hij : i ≤ j)
    (data : List α) (hk : k + data.length = i) :
    window (xs.take k ++ data ++ xs.drop i) k j = data ++ window xs i j := by
  have hfront : (xs.take k).length = k := by
    rw [List.length_take]
    omega
  have hlen : j - k = data.length + (j - i) := by omega
  rw [window, List.append_assoc, List.drop_left' hfront, hlen, List.take_length_add_append]
  rfl

/-- Elements given back at the end of the content. -/
theorem window_shorten (xs : List α) (i j n : ℕ) :
    window xs i (j - n) = (window xs i j).take (j - i - n) := by
  rw [window, window, List.take_take]
  congr 1
  omega

/-- Reading from the front moves the first index. -/
theorem window_drop (xs : List α) (i j n : ℕ) :
    window xs (i + n) j = (window xs i j).drop n := by
  rw [window, window, List.drop_take, List.drop_drop, Nat.sub_sub]

end Window
