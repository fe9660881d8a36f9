import Mathlib.Data.List.TakeWhile
import Mathlib.Tactic.Common

/-!
# Text in an array of characters

An array holds a text when the text has no NUL and nothing but NULs follow it. Storing a
character behind the text and appending with `strcat` make it hold the longer text, as long
as there is room; without room they are faults.
-/

namespace CText

/-- A write behind the end of the array. -/
inductive Fault
  | outOfBounds
  deriving DecidableEq, Repr

def put (a : List UInt8) (i : ℕ) (c : UInt8) : Except Fault (List UInt8) :=
  if i < a.length then .ok (a.set i c) else .error .outOfBounds

/-- The text up to the first NUL. -/
def cstr (a : List UInt8) : List UInt8 := a.takeWhile (· ≠ 0)

def strlen (a : List UInt8) : ℕ := (cstr a).length

/-- A text and its NUL are copied to the position `i`. -/
def copyTo (a : List UInt8) (i : ℕ) : List UInt8 → Except Fault (List UInt8)
  | [] => put a i 0
  | c :: src => do copyTo (← put a i c) (i + 1) src

def strcat (a src : List UInt8) : Except Fault (List UInt8) := copyTo a (strlen a) src

structure Holds (size : ℕ) (a text : List UInt8) : Prop where
  array : a = text ++ List.replicate (size - text.length) 0
  fits : text.length ≤ size
  noNul : ∀ c ∈ text, c ≠ 0

namespace Holds
variable {size : ℕ} {a text src : List UInt8} {c : UInt8}

theorem zeros (size : ℕ) : Holds size (List.replicate size 0) [] := ⟨rfl, Nat.zero_le _, by simp⟩

theorem length (h : Holds size a text) : a.length = size := by
  have hfits := h.fits
  rw [h.array, List.length_append, List.length_replicate]
  omega

theorem cstr_eq (h : Holds size a text) : cstr a = text := by
  have hrest : (List.replicate (size - text.length) (0 : UInt8)).takeWhile (· ≠ 0) = [] := by
    cases size - text.length with
    | zero => rfl
    | succ n => rfl
  rw [cstr, h.array, List.takeWhile_append_of_pos (by simpa using h.noNul), hrest, List.append_nil]

theorem strlen_eq (h : Holds size a text) : strlen a = text.length := by rw [strlen, h.cstr_eq]

/-- The array with its first free place. -/
theorem split (h : Holds size a text) (hroom : text.length < size) :
    a = text ++ 0 :: List.replicate (size - (text.length + 1)) 0 := by
  rw [← List.replicate_succ, h.array]
  congr 2
  omega

theorem put (h : Holds size a text) (hc : c ≠ 0) (hroom : text.length < size) :
    ∃ a', CText.put a text.length c = .ok a' ∧ Holds size a' (text ++ [c]) := by
  refine ⟨a.set text.length c, ?_, ?_, ?_, ?_⟩
  · rw [CText.put, if_pos (by rw [h.length]; exact hroom)]
  · rw [h.split hroom, List.set_append_right _ _ le_rfl, Nat.sub_self, List.set_cons_zero,
      List.append_assoc, List.length_append]
    rfl
  · rw [List.length_append]
    exact hroom
  · intro d hd
    rcases List.mem_append.mp hd with hd | hd
    · exact h.noNul d hd
    · rw [List.mem_singleton.mp hd]
      exact hc

/-- A NUL behind the text is there already. -/
theorem put_nul (h : Holds size a text) (hroom : text.length < size) :
    CText.put a text.length 0 = .ok a := by
  rw [CText.put, if_pos (by rw [h.length]; exact hroom)]
  have hsplit := h.split hroom
  conv_lhs => rw [hsplit]
  rw [List.set_append_right _ _ le_rfl, Nat.sub_self, List.set_cons_zero, ← hsplit]

theorem copyTo (h : Holds size a text) (hsrc : ∀ c ∈ src, c ≠ 0)
    (hroom : text.length + src.length < size) :
    ∃ a', CText.copyTo a text.length src = .ok a' ∧ Holds size a' (text ++ src) := by
  induction src generalizing a text with
  | nil =>
      refine ⟨a, h.put_nul hroom, ?_⟩
      rw [List.append_nil]
      exact h
  | cons c src ih =>
      rw [List.length_cons] at hroom
      rw [List.forall_mem_cons] at hsrc
      obtain ⟨a', hput, hholds⟩ := h.put hsrc.1 (by omega)
      obtain ⟨a'', hcopy, hholds'⟩ := ih hholds hsrc.2 (by
        rw [List.length_append, List.length_singleton]
        omega)
      refine ⟨a'', ?_, ?_⟩
      · rw [CText.copyTo, hput]
        rw [List.length_append] at hcopy
        exact hcopy
      · rw [List.append_assoc] at hholds'
        exact hholds'

theorem strcat (h : Holds size a text) (hsrc : ∀ c ∈ src, c ≠ 0)
    (hroom : text.length + src.length < size) :
    ∃ a', CText.strcat a src = .ok a' ∧ Holds size a' (text ++ src) := by
  rw [CText.strcat, h.strlen_eq]
  exact h.copyTo hsrc hroom

end Holds

end CText
