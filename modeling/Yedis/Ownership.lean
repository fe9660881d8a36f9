import Mathlib.Data.List.Basic
import Mathlib.Logic.Function.Basic
import Mathlib.Tactic.Common

/-!
# Owners of payloads

Payloads of several kinds are created, referred to by owners and released, each as
some kind. Payloads are owned when each of them has one owner that knows its kind, or
was released once as its kind. Creating, releasing and handing over keep it so.
-/

namespace Ownership
open Function

variable {ι α κ : Type}

structure Owned (created : α → Option κ) (released : List (κ × α)) (refs : ι → Option (κ × α)) :
    Prop where
  referred : ∀ {i k a}, refs i = some (k, a) → created a = some k
  gone : ∀ {k a}, (k, a) ∈ released → created a = some k
  sole : ∀ {i j r}, refs i = some r → refs j = some r → i = j
  kept : ∀ {i r}, refs i = some r → r ∉ released
  once : released.Nodup
  settled : ∀ {k a}, created a = some k → (k, a) ∈ released ∨ ∃ i, refs i = some (k, a)

namespace Owned

variable {created : α → Option κ} {released : List (κ × α)} {refs : ι → Option (κ × α)}

theorem start : Owned (fun _ : α => (none : Option κ)) [] (fun _ : ι => none) where
  referred h := nomatch h
  gone h := nomatch h
  sole h := nomatch h
  kept h := nomatch h
  once := .nil
  settled h := nomatch h

theorem acquire [DecidableEq ι] [DecidableEq α] (h : Owned created released refs) {i : ι} {k : κ}
    {a : α} (hi : refs i = none) (ha : created a = none) :
    Owned (update created a (some k)) released (update refs i (some (k, a))) where
  referred := by
    intro j k' a' hj
    by_cases hji : j = i
    · rw [hji, update_self, Option.some.injEq, Prod.mk.injEq] at hj
      rw [← hj.1, ← hj.2, update_self]
    · rw [update_of_ne hji] at hj
      have hc := h.referred hj
      rw [update_of_ne (by rintro rfl; rw [ha] at hc; cases hc)]
      exact hc
  gone := by
    intro k' a' hr
    have hc := h.gone hr
    rw [update_of_ne (by rintro rfl; rw [ha] at hc; cases hc)]
    exact hc
  sole := by
    have hnew : ∀ j k', refs j ≠ some (k', a) := by
      intro j k' hj
      have hc := h.referred hj
      rw [ha] at hc
      cases hc
    intro j j' r hj hj'
    by_cases hji : j = i
    · by_cases hji' : j' = i
      · rw [hji, hji']
      · rw [hji, update_self, Option.some.injEq] at hj
        rw [update_of_ne hji', ← hj] at hj'
        exact absurd hj' (hnew j' k)
    · rw [update_of_ne hji] at hj
      by_cases hji' : j' = i
      · rw [hji', update_self, Option.some.injEq] at hj'
        rw [← hj'] at hj
        exact absurd hj (hnew j k)
      · rw [update_of_ne hji'] at hj'
        exact h.sole hj hj'
  kept := by
    intro j r hj hr
    by_cases hji : j = i
    · rw [hji, update_self, Option.some.injEq] at hj
      rw [← hj] at hr
      have hc := h.gone hr
      rw [ha] at hc
      cases hc
    · rw [update_of_ne hji] at hj
      exact h.kept hj hr
  once := h.once
  settled := by
    intro k' a' hc
    by_cases haa : a' = a
    · rw [haa, update_self, Option.some.injEq] at hc
      exact .inr ⟨i, by rw [haa, hc, update_self]⟩
    · rw [update_of_ne haa] at hc
      rcases h.settled hc with hr | ⟨j, hj⟩
      · exact .inl hr
      · exact .inr ⟨j, by rw [update_of_ne (by rintro rfl; rw [hi] at hj; cases hj), hj]⟩

/-- What an owner refers to, if anything, is released as what the owner knows it to be. -/
theorem release [DecidableEq ι] (h : Owned created released refs) (i : ι) :
    Owned created ((refs i).toList ++ released) (update refs i none) := by
  have hold : ∀ {j r}, update refs i none j = some r → j ≠ i ∧ refs j = some r := by
    intro j r hj
    by_cases hji : j = i
    · rw [hji, update_self] at hj
      cases hj
    · rw [update_of_ne hji] at hj
      exact ⟨hji, hj⟩
  have hmem : ∀ {r}, r ∈ (refs i).toList ++ released → refs i = some r ∨ r ∈ released := by
    intro r hr
    rcases List.mem_append.mp hr with hr | hr
    · exact .inl (Option.mem_toList.mp hr)
    · exact .inr hr
  constructor
  · intro j k a hj
    exact h.referred (hold hj).2
  · intro k a hr
    rcases hmem hr with hr | hr
    · exact h.referred hr
    · exact h.gone hr
  · intro j j' r hj hj'
    exact h.sole (hold hj).2 (hold hj').2
  · intro j r hj hr
    obtain ⟨hji, hj⟩ := hold hj
    rcases hmem hr with hr | hr
    · exact hji (h.sole hj hr)
    · exact h.kept hj hr
  · cases href : refs i with
    | none => exact h.once
    | some r => exact List.nodup_cons.mpr ⟨h.kept href, h.once⟩
  · intro k a hc
    rcases h.settled hc with hr | ⟨j, hj⟩
    · exact .inl (List.mem_append_right _ hr)
    · by_cases hji : j = i
      · rw [hji] at hj
        exact .inl (List.mem_append_left _ (Option.mem_toList.mpr hj))
      · exact .inr ⟨j, by rw [update_of_ne hji, hj]⟩

/-- What the owner `j` refers to, if anything, is handed over to `i`. -/
theorem transfer [DecidableEq ι] (h : Owned created released refs) {i : ι} (hi : refs i = none)
    (j : ι) :
    Owned created released (update (update refs i (refs j)) j none) := by
  have hold : ∀ {l r}, update (update refs i (refs j)) j none l = some r →
      l ≠ j ∧ refs (if l = i then j else l) = some r := by
    intro l r hl
    by_cases hlj : l = j
    · rw [hlj, update_self] at hl
      cases hl
    · rw [update_of_ne hlj] at hl
      by_cases hli : l = i
      · rw [hli, update_self] at hl
        exact ⟨hlj, by rw [if_pos hli, hl]⟩
      · rw [update_of_ne hli] at hl
        exact ⟨hlj, by rw [if_neg hli, hl]⟩
  constructor
  · intro l k a hl
    exact h.referred (hold hl).2
  · exact h.gone
  · intro l l' r hl hl'
    obtain ⟨hlj, hl⟩ := hold hl
    obtain ⟨hlj', hl'⟩ := hold hl'
    have hsame := h.sole hl hl'
    split_ifs at hsame with h₁ h₂ h₂
    · rw [h₁, h₂]
    · exact absurd hsame.symm hlj'
    · exact absurd hsame hlj
    · exact hsame
  · intro l r hl
    exact h.kept (hold hl).2
  · exact h.once
  · intro k a hc
    rcases h.settled hc with hr | ⟨l, hl⟩
    · exact .inl hr
    · have hli : l ≠ i := by
        rintro rfl
        rw [hi] at hl
        cases hl
      by_cases hlj : l = j
      · rw [hlj] at hl hli
        exact .inr ⟨i, by rw [update_of_ne (Ne.symm hli), update_self, hl]⟩
      · exact .inr ⟨l, by rw [update_of_ne hlj, update_of_ne hli, hl]⟩

theorem owner_unique (h : Owned created released refs) {i j : ι} {k k' : κ} {a : α}
    (hi : refs i = some (k, a)) (hj : refs j = some (k', a)) : i = j := by
  obtain rfl : k = k' := Option.some.inj ((h.referred hi).symm.trans (h.referred hj))
  exact h.sole hi hj

/-- A payload has exactly one owner and was not released, or it has none and was released exactly
once, as its own kind. -/
theorem one_or_released [DecidableEq α] (h : Owned created released refs) {k : κ} {a : α}
    (hc : created a = some k) :
    (∃ i, refs i = some (k, a) ∧ ∀ j k', refs j = some (k', a) → j = i) ∧
        released.filter (·.2 = a) = [] ∨
      (∀ j k', refs j ≠ some (k', a)) ∧ released.filter (·.2 = a) = [(k, a)] := by
  have hkind : ∀ {r}, r ∈ released.filter (·.2 = a) → r = (k, a) ∧ (k, a) ∈ released := by
    intro r hr
    obtain ⟨hmem, ha⟩ := List.mem_filter.mp hr
    obtain ⟨k', a'⟩ := r
    obtain rfl : a' = a := of_decide_eq_true ha
    obtain rfl : k = k' := Option.some.inj (hc.symm.trans (h.gone hmem))
    exact ⟨rfl, hmem⟩
  by_cases hrel : (k, a) ∈ released
  · right
    constructor
    · intro j k' hj
      obtain rfl : k = k' := Option.some.inj (hc.symm.trans (h.referred hj))
      exact h.kept hj hrel
    · apply List.perm_singleton.mp
      rw [List.perm_ext_iff_of_nodup (h.once.filter _) (List.pairwise_singleton _ _)]
      intro r
      rw [List.mem_singleton]
      constructor
      · exact fun hr => (hkind hr).1
      · rintro rfl
        exact List.mem_filter.mpr ⟨hrel, decide_eq_true rfl⟩
  · left
    obtain ⟨i, hi⟩ := (h.settled hc).resolve_left hrel
    refine ⟨⟨i, hi, fun j k' hj => h.owner_unique hj hi⟩, ?_⟩
    rw [List.eq_nil_iff_forall_not_mem]
    exact fun r hr => hrel (hkind hr).2

end Owned

end Ownership
