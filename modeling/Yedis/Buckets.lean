import Mathlib.Data.Finset.Insert
import Mathlib.Logic.Function.Basic

/-!
# Members in buckets

A map from members to keys and, beside it, a list of buckets that holds the members by
their keys and is searched with a comparison. A member is put into the first bucket
whose key is not less than its own, if that key is not greater either, and into a new
bucket otherwise. The two mirror each other where keys that cannot be compared are equal.
-/

namespace Buckets
open Function

variable {κ μ : Type} [DecidableEq μ]

def Incomparable (lt : κ → κ → Bool) (k k' : κ) : Prop := lt k k' = false ∧ lt k' k = false

def insertAt (lt : κ → κ → Bool) (m : μ) (k : κ) : List (κ × Finset μ) → List (κ × Finset μ)
  | [] => [(k, {m})]
  | b :: rest =>
    if lt b.1 k then b :: insertAt lt m k rest
    else if lt k b.1 then (k, {m}) :: b :: rest
    else (b.1, insert m b.2) :: rest

/-- The keys of the buckets that hold `m`. -/
def keysOf (m : μ) (bs : List (κ × Finset μ)) : List κ :=
  (bs.filter fun b => m ∈ b.2).map Prod.fst

/-- Every member is in exactly one bucket, the one of its key, every bucket has only members of its
key, and no bucket is empty. -/
structure Mirror (key : μ → Option κ) (bs : List (κ × Finset μ)) : Prop where
  listed : ∀ m k, key m = some k → keysOf m bs = [k]
  held : ∀ b ∈ bs, ∀ m ∈ b.2, key m = some b.1
  nonempty : ∀ b ∈ bs, b.2.Nonempty

/-- Every member is in exactly one bucket, whose key cannot be compared with its own, and every
bucket has a member of its key. -/
structure Placed (lt : κ → κ → Bool) (key : μ → Option κ) (bs : List (κ × Finset μ)) : Prop where
  listed : ∀ m k, key m = some k → ∃ k', keysOf m bs = [k'] ∧ Incomparable lt k' k
  held : ∀ b ∈ bs, ∀ m ∈ b.2, key m ≠ none
  founder : ∀ b ∈ bs, ∃ m ∈ b.2, key m = some b.1

def Ordered (lt : κ → κ → Bool) (bs : List (κ × Finset μ)) : Prop :=
  bs.Pairwise fun b b' => lt b.1 b'.1 = true

theorem keysOf_cons_of_mem {m : μ} {b : κ × Finset μ} (h : m ∈ b.2) (bs : List (κ × Finset μ)) :
    keysOf m (b :: bs) = b.1 :: keysOf m bs := by simp [keysOf, h]

theorem keysOf_cons_of_notMem {m : μ} {b : κ × Finset μ} (h : m ∉ b.2)
    (bs : List (κ × Finset μ)) : keysOf m (b :: bs) = keysOf m bs := by simp [keysOf, h]

theorem keysOf_eq_nil {m : μ} {bs : List (κ × Finset μ)} (h : ∀ b ∈ bs, m ∉ b.2) :
    keysOf m bs = [] := by
  induction bs with
  | nil => rfl
  | cons b bs ih =>
      rw [List.forall_mem_cons] at h
      rw [keysOf_cons_of_notMem h.1, ih h.2]

theorem mem_keysOf {m : μ} {k : κ} {bs : List (κ × Finset μ)} :
    k ∈ keysOf m bs ↔ ∃ b ∈ bs, m ∈ b.2 ∧ b.1 = k := by
  simp [keysOf, and_assoc]

omit [DecidableEq μ] in
theorem Ordered.comparable {lt : κ → κ → Bool} {bs : List (κ × Finset μ)} (h : Ordered lt bs)
    {b b' : κ × Finset μ} (hb : b ∈ bs) (hb' : b' ∈ bs) :
    b.1 = b'.1 ∨ lt b.1 b'.1 = true ∨ lt b'.1 b.1 = true := by
  have hpair : bs.Pairwise fun b b' => b.1 = b'.1 ∨ lt b.1 b'.1 = true ∨ lt b'.1 b.1 = true :=
    h.imp fun hlt => .inr (.inl hlt)
  have hflip : bs.Pairwise fun b b' => b'.1 = b.1 ∨ lt b'.1 b.1 = true ∨ lt b.1 b'.1 = true :=
    h.imp fun hlt => .inr (.inr hlt)
  exact hpair.forall_of_forall_of_flip (fun _ _ => .inl rfl) hflip hb hb'

section Insert
variable {lt : κ → κ → Bool} {m m' : μ} {k : κ} {bs : List (κ × Finset μ)}

theorem keysOf_insertAt_of_ne (h : m' ≠ m) :
    keysOf m' (insertAt lt m k bs) = keysOf m' bs := by
  have hsingle : m' ∉ ({m} : Finset μ) := by rwa [Finset.mem_singleton]
  induction bs with
  | nil => exact keysOf_cons_of_notMem hsingle []
  | cons b bs ih =>
      rw [insertAt]
      split_ifs
      · by_cases hb : m' ∈ b.2
        · rw [keysOf_cons_of_mem hb, keysOf_cons_of_mem hb, ih]
        · rw [keysOf_cons_of_notMem hb, keysOf_cons_of_notMem hb, ih]
      · exact keysOf_cons_of_notMem hsingle _
      · by_cases hb : m' ∈ b.2
        · rw [keysOf_cons_of_mem hb, keysOf_cons_of_mem (Finset.mem_insert_of_mem hb)]
        · have hins : m' ∉ insert m b.2 := by
            rw [Finset.mem_insert, not_or]
            exact ⟨h, hb⟩
          rw [keysOf_cons_of_notMem hb, keysOf_cons_of_notMem hins]

/-- A new member is then in exactly one bucket. -/
theorem keysOf_insertAt_self (hirr : ∀ k, lt k k = false) (h : ∀ b ∈ bs, m ∉ b.2) :
    ∃ k', keysOf m (insertAt lt m k bs) = [k'] ∧ Incomparable lt k' k := by
  induction bs with
  | nil => exact ⟨k, keysOf_cons_of_mem (Finset.mem_singleton_self m) [], hirr k, hirr k⟩
  | cons b bs ih =>
      have hnone := keysOf_eq_nil h
      rw [List.forall_mem_cons] at h
      rw [insertAt]
      split_ifs with hless hgreater
      · rw [keysOf_cons_of_notMem h.1]
        exact ih h.2
      · refine ⟨k, ?_, hirr k, hirr k⟩
        rw [keysOf_cons_of_mem (Finset.mem_singleton_self m), hnone]
      · refine ⟨b.1, ?_, Bool.eq_false_of_not_eq_true hless, Bool.eq_false_of_not_eq_true hgreater⟩
        rw [keysOf_cons_of_mem (Finset.mem_insert_self m b.2), keysOf_eq_nil h.2]

theorem mem_insertAt {b : κ × Finset μ} (h : b ∈ insertAt lt m k bs) :
    b = (k, {m}) ∨ ∃ b' ∈ bs, b.1 = b'.1 ∧ b'.2 ⊆ b.2 ∧ b.2 ⊆ insert m b'.2 := by
  induction bs with
  | nil => exact .inl (List.mem_singleton.mp h)
  | cons b₀ bs ih =>
      have hsame : ∀ b' ∈ b₀ :: bs, b = b' →
          ∃ b' ∈ b₀ :: bs, b.1 = b'.1 ∧ b'.2 ⊆ b.2 ∧ b.2 ⊆ insert m b'.2 := by
        intro b' hb' hb
        rw [hb]
        exact ⟨b', hb', rfl, Finset.Subset.refl _, Finset.subset_insert m b'.2⟩
      rw [insertAt] at h
      split_ifs at h
      · rcases List.mem_cons.mp h with hb | hb
        · exact .inr (hsame b₀ List.mem_cons_self hb)
        · rcases ih hb with hnew | ⟨b', hb', hrest⟩
          · exact .inl hnew
          · exact .inr ⟨b', List.mem_cons_of_mem _ hb', hrest⟩
      · rcases List.mem_cons.mp h with hnew | hb
        · exact .inl hnew
        · exact .inr (hsame b hb rfl)
      · rcases List.mem_cons.mp h with hb | hb
        · right
          rw [hb]
          exact ⟨b₀, List.mem_cons_self, rfl, Finset.subset_insert m b₀.2, Finset.Subset.refl _⟩
        · exact .inr (hsame b (List.mem_cons_of_mem _ hb) rfl)

theorem ordered_insertAt (htrans : ∀ a b c, lt a b = true → lt b c = true → lt a c = true)
    (h : Ordered lt bs) : Ordered lt (insertAt lt m k bs) := by
  unfold Ordered at h ⊢
  induction bs with
  | nil => exact List.pairwise_singleton _ _
  | cons b bs ih =>
      obtain ⟨hb, hbs⟩ := List.pairwise_cons.mp h
      rw [insertAt]
      split_ifs with hless hgreater
      · apply List.pairwise_cons.mpr
        refine ⟨fun b' hb' => ?_, ih hbs⟩
        rcases mem_insertAt hb' with rfl | ⟨b'', hb'', hkey, -⟩
        · exact hless
        · rw [hkey]
          exact hb b'' hb''
      · apply List.pairwise_cons.mpr
        refine ⟨fun b' hb' => ?_, h⟩
        rcases List.mem_cons.mp hb' with rfl | hb'
        · exact hgreater
        · exact htrans _ _ _ hgreater (hb b' hb')
      · apply List.pairwise_cons.mpr
        exact ⟨hb, hbs⟩

end Insert

section Placed
variable {lt : κ → κ → Bool} {key : μ → Option κ} {m : μ} {k : κ} {bs : List (κ × Finset μ)}

theorem placed_nil (lt : κ → κ → Bool) : Placed lt (fun _ : μ => none) [] where
  listed _ _ h := by cases h
  held _ h := by cases h
  founder _ h := by cases h

theorem Placed.insertAt (hirr : ∀ k, lt k k = false) (h : Placed lt key bs) (hnew : key m = none)
    (k : κ) : Placed lt (update key m (some k)) (insertAt lt m k bs) := by
  have hfresh : ∀ b ∈ bs, m ∉ b.2 := fun b hb hm => h.held b hb m hm hnew
  constructor
  · intro m' k' hk'
    by_cases hm : m' = m
    · rw [hm, update_self, Option.some_inj] at hk'
      rw [hm, ← hk']
      exact keysOf_insertAt_self hirr hfresh
    · rw [update_of_ne hm] at hk'
      rw [keysOf_insertAt_of_ne hm]
      exact h.listed m' k' hk'
  · intro b hb m' hm'
    by_cases hm : m' = m
    · rw [hm, update_self]
      exact Option.some_ne_none k
    · rw [update_of_ne hm]
      rcases mem_insertAt hb with rfl | ⟨b', hb', -, -, hsub⟩
      · exact absurd (Finset.mem_singleton.mp hm') hm
      · have hold : m' ∈ b'.2 := (Finset.mem_insert.mp (hsub hm')).resolve_left hm
        exact h.held b' hb' m' hold
  · intro b hb
    rcases mem_insertAt hb with rfl | ⟨b', hb', hkey, hsub, -⟩
    · exact ⟨m, Finset.mem_singleton_self m, update_self _ _ _⟩
    · obtain ⟨m', hm', hk'⟩ := h.founder b' hb'
      refine ⟨m', hsub hm', ?_⟩
      have hm : m' ≠ m := by
        rintro rfl
        exact hfresh b' hb' hm'
      rw [update_of_ne hm, hk', hkey]

/-- The key of a bucket is the key of one of its members. -/
theorem Placed.exists_key (h : Placed lt key bs) (hk : k ∈ keysOf m bs) :
    ∃ m', key m' = some k := by
  obtain ⟨b, hb, -, rfl⟩ := mem_keysOf.mp hk
  obtain ⟨m', -, hm'⟩ := h.founder b hb
  exact ⟨m', hm'⟩

/-- Members and buckets mirror each other where every member is in the bucket of its key. -/
theorem Placed.mirror (h : Placed lt key bs)
    (hsame : ∀ m k k', key m = some k → k' ∈ keysOf m bs → Incomparable lt k' k → k' = k) :
    Mirror key bs := by
  have hlisted : ∀ m k, key m = some k → keysOf m bs = [k] := by
    intro m k hk
    obtain ⟨k', hkeys, hinc⟩ := h.listed m k hk
    have hmem : k' ∈ keysOf m bs := by rw [hkeys]; exact List.mem_singleton_self k'
    rw [hkeys, hsame m k k' hk hmem hinc]
  refine ⟨hlisted, fun b hb m hm => ?_, fun b hb => ?_⟩
  · obtain ⟨k, hk⟩ := Option.ne_none_iff_exists'.mp (h.held b hb m hm)
    have hmem : b.1 ∈ keysOf m bs := mem_keysOf.mpr ⟨b, hb, hm, rfl⟩
    rw [hlisted m k hk, List.mem_singleton] at hmem
    rw [hk, hmem]
  · obtain ⟨m, hm, -⟩ := h.founder b hb
    exact ⟨m, hm⟩

/-- The keys of two members are equal or can be compared. -/
theorem Mirror.comparable (h : Mirror key bs) (hord : Ordered lt bs) {m m' : μ} {k k' : κ}
    (hk : key m = some k) (hk' : key m' = some k') (hinc : Incomparable lt k k') : k = k' := by
  have hbucket : ∀ m k, key m = some k → ∃ b ∈ bs, b.1 = k := by
    intro m k hk
    have hmem : k ∈ keysOf m bs := by rw [h.listed m k hk]; exact List.mem_singleton_self k
    obtain ⟨b, hb, -, rfl⟩ := mem_keysOf.mp hmem
    exact ⟨b, hb, rfl⟩
  obtain ⟨b, hb, rfl⟩ := hbucket m k hk
  obtain ⟨b', hb', rfl⟩ := hbucket m' k' hk'
  rcases hord.comparable hb hb' with heq | hlt | hlt
  · exact heq
  · rw [hinc.1] at hlt
    cases hlt
  · rw [hinc.2] at hlt
    cases hlt

end Placed

end Buckets
