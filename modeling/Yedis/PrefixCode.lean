import Mathlib.Data.List.Infix
import Mathlib.Data.Set.Defs

/-!
# Codes whose words tell where they end

In a prefix-free code no word is the beginning of another one, so a text of words can
be cut into words in one way only, and so can what has arrived of it. Texts up to an
end mark are such a code, and so are words followed by a word of a code that the first
one selects.
-/

namespace PrefixCode

variable {α : Type}

def PrefixFree (C : Set (List α)) : Prop := ∀ u ∈ C, ∀ v ∈ C, u <+: v → u = v

namespace PrefixFree

variable {C D : Set (List α)}

theorem mono (h : PrefixFree D) (hsub : ∀ u ∈ C, u ∈ D) : PrefixFree C :=
  fun u hu v hv => h u (hsub u hu) v (hsub v hv)

theorem append_inj (h : PrefixFree C) {u v x y : List α} (hu : u ∈ C) (hv : v ∈ C)
    (heq : u ++ x = v ++ y) : u = v ∧ x = y := by
  have huv : u = v := by
    have hux : u <+: v ++ y := heq ▸ List.prefix_append u x
    rcases List.prefix_or_prefix_of_prefix hux (List.prefix_append v y) with hpre | hpre
    · exact h u hu v hv hpre
    · exact (h v hv u hu hpre).symm
  rw [huv] at heq
  exact ⟨huv, List.append_cancel_left heq⟩

/-- Words that begin a text of words are its first words. -/
theorem flatten_prefix (h : PrefixFree C) (hnil : [] ∉ C) {us vs : List (List α)}
    (hus : ∀ u ∈ us, u ∈ C) (hvs : ∀ v ∈ vs, v ∈ C) (hpre : us.flatten <+: vs.flatten) :
    us <+: vs := by
  induction us generalizing vs with
  | nil => exact List.nil_prefix
  | cons u us ih =>
      rw [List.forall_mem_cons] at hus
      obtain ⟨rest, hrest⟩ := hpre
      cases vs with
      | nil =>
          have hempty : u = [] := by
            rw [List.flatten_cons, List.flatten_nil, List.append_assoc] at hrest
            exact (List.append_eq_nil_iff.mp hrest).1
          exact absurd (hempty ▸ hus.1) hnil
      | cons v vs =>
          rw [List.forall_mem_cons] at hvs
          rw [List.flatten_cons, List.flatten_cons, List.append_assoc] at hrest
          obtain ⟨rfl, htail⟩ := h.append_inj hus.1 hvs.1 hrest
          exact (List.prefix_cons_inj u).mpr (ih hus.2 hvs.2 ⟨rest, htail⟩)

theorem flatten_inj (h : PrefixFree C) (hnil : [] ∉ C) {us vs : List (List α)}
    (hus : ∀ u ∈ us, u ∈ C) (hvs : ∀ v ∈ vs, v ∈ C) (heq : us.flatten = vs.flatten) :
    us = vs := by
  have hlen : us.length = vs.length :=
    Nat.le_antisymm (h.flatten_prefix hnil hus hvs (heq ▸ List.prefix_refl _)).length_le
      (h.flatten_prefix hnil hvs hus (heq ▸ List.prefix_refl _)).length_le
  exact (h.flatten_prefix hnil hus hvs (heq ▸ List.prefix_refl _)).eq_of_length hlen

/-- The same number of words each. -/
theorem flatten_of_length (h : PrefixFree C) {us vs : List (List α)} (hus : ∀ u ∈ us, u ∈ C)
    (hvs : ∀ v ∈ vs, v ∈ C) (hlen : us.length = vs.length) (hpre : us.flatten <+: vs.flatten) :
    us = vs := by
  induction us generalizing vs with
  | nil => exact (List.length_eq_zero_iff.mp hlen.symm).symm
  | cons u us ih =>
      cases vs with
      | nil => cases hlen
      | cons v vs =>
          rw [List.forall_mem_cons] at hus hvs
          obtain ⟨rest, hrest⟩ := hpre
          rw [List.flatten_cons, List.flatten_cons, List.append_assoc] at hrest
          obtain ⟨rfl, htail⟩ := h.append_inj hus.1 hvs.1 hrest
          rw [ih hus.2 hvs.2 (Nat.succ.inj hlen) ⟨rest, htail⟩]

/-- A word of `C` and a word of the code that it selects. -/
theorem seq (h : PrefixFree C) {D : List α → Set (List α)} (hD : ∀ u ∈ C, PrefixFree (D u)) :
    PrefixFree {w | ∃ u ∈ C, ∃ v ∈ D u, w = u ++ v} := by
  rintro _ ⟨u, hu, v, hv, rfl⟩ _ ⟨u', hu', v', hv', rfl⟩ ⟨rest, hrest⟩
  rw [List.append_assoc] at hrest
  obtain ⟨rfl, htail⟩ := h.append_inj hu hu' hrest
  rw [hD u hu v hv v' hv' ⟨rest, htail⟩]

end PrefixFree

/-- Texts without the letter that begins the end mark. -/
theorem prefixFree_terminated (a : α) (mark : List α) :
    PrefixFree {w | ∃ t : List α, a ∉ t ∧ w = t ++ a :: mark} := by
  rintro _ ⟨t, ht, rfl⟩ _ ⟨t', ht', rfl⟩ ⟨rest, hrest⟩
  rw [List.append_assoc, List.cons_append] at hrest
  suffices t = t' by rw [this]
  induction t generalizing t' with
  | nil =>
      cases t' with
      | nil => rfl
      | cons b t' =>
          rw [List.nil_append, List.cons_append, List.cons.injEq] at hrest
          exact absurd (hrest.1 ▸ List.mem_cons_self) ht'
  | cons b t ih =>
      cases t' with
      | nil =>
          rw [List.nil_append, List.cons_append, List.cons.injEq] at hrest
          exact absurd (hrest.1 ▸ List.mem_cons_self) ht
      | cons b' t' =>
          rw [List.cons_append, List.cons_append, List.cons.injEq] at hrest
          rw [hrest.1, ih (fun h => ht (List.mem_cons_of_mem _ h)) t'
            (fun h => ht' (List.mem_cons_of_mem _ h)) hrest.2]

end PrefixCode
