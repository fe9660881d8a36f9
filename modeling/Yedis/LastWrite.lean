import Yedis.SortedSetMirror

/-!
# First and last writes

A member keeps the score of the first pair that names it. So the last pair decides, as
it does for the other containers, only as long as it repeats the score that is there.
-/

namespace Writes

variable {μ κ : Type} [DecidableEq μ]

/-- The value of the first write to `m`, in a list with the oldest write first. -/
def first (m : μ) (writes : List (μ × κ)) : Option κ := (writes.find? (·.1 = m)).map Prod.snd

def last (m : μ) (writes : List (μ × κ)) : Option κ := first m writes.reverse

theorem first_append (m : μ) (older newer : List (μ × κ)) :
    first m (older ++ newer) = (first m older).or (first m newer) := by
  unfold first
  rw [List.find?_append]
  cases older.find? (·.1 = m) <;> rfl

theorem first_mem {m : μ} {k : κ} {writes : List (μ × κ)} (h : first m writes = some k) :
    (m, k) ∈ writes := by
  obtain ⟨w, hw, rfl⟩ := Option.map_eq_some_iff.mp h
  have hm : w.1 = m := by simpa using List.find?_some hw
  rw [← hm]
  exact List.mem_of_find?_eq_some hw

theorem first_eq_none {m : μ} {writes : List (μ × κ)} :
    first m writes = none ↔ ∀ w ∈ writes, w.1 ≠ m := by
  simp [first]

/-- A member is written last if it is written at all. -/
theorem last_eq_none {m : μ} {writes : List (μ × κ)} :
    last m writes = none ↔ first m writes = none := by
  rw [last, first_eq_none, first_eq_none]
  simp only [List.mem_reverse]

end Writes

namespace Yedis
open Runs YSortedSet Writes

/-- The pairs of a `ZADD`. -/
def pairs (atof : Bytes → Score) : List Bytes → List (Bytes × Score)
  | score :: member :: rest => (member, atof score) :: pairs atof rest
  | _ => []

theorem firstScore_eq (atof : Bytes → Score) (m : Bytes) (params : List Bytes) :
    firstScore atof m params = first m (pairs atof params) := by
  induction params using pairs.induct with
  | case1 score member rest ih =>
      rw [firstScore, pairs, ih, first, first, List.find?_cons]
      by_cases hm : m = member
      · simp [hm]
      · simp [hm, Ne.symm hm]
  | case2 params hshort =>
      rw [firstScore_short atof m hshort, pairs.eq_2 atof params hshort]
      rfl

instance (call : Call) (key : Bytes) : Decidable (AddsTo call key) :=
  inferInstanceAs (Decidable (_ ∧ _))

/-- The pairs that the calls, the newest first, give to a key, the oldest first. -/
def writes (atof : Bytes → Score) (key : Bytes) : List Call → List (Bytes × Score)
  | [] => []
  | call :: earlier =>
    writes atof key earlier ++ if AddsTo call key then pairs atof (call.params.drop 2) else []

/-- A command that runs to its end. If it is a `ZADD`, its scores are finite numbers. -/
def FiniteStep (atof : Bytes → Score) (s : YStore) (call : Call) (s' : YStore) : Prop :=
  ScoredStep atof s call s' ∧ ∀ key, AddsTo call key →
    ∀ w ∈ pairs atof (call.params.drop 2), ∃ q, w.2 = .fin q

def ZaddStep (atof : Bytes → Score) (s : YStore) (call : Call) (s' : YStore) : Prop :=
  FiniteStep atof s call s' ∧ ∃ key, AddsTo call key

/-- The sorted sets are as `addMember` leaves them, with finite scores. -/
structure FiniteScores (s : YStore) : Prop where
  selected : s.Selected
  built : AllBuilt s
  finite : ∀ key m score, (sortedSet s key).findMember m = some score → ∃ q, score = .fin q

/-- In both directions the members have these scores. -/
def Stores (z : YSortedSet) (score : Bytes → Option Score) : Prop :=
  (∀ m, z.findMember m = score m) ∧
    ∀ m k, (∃ b ∈ z.score2Members, m ∈ b.2 ∧ b.1 = k) ↔ score m = some k

section Steps
variable {atof : Bytes → Score} {s s' : YStore} {call : Call} {key : Bytes}

theorem finiteScores_start : FiniteScores .start := by
  have hget := YStore.getObject_start
  refine ⟨YStore.selected_start, fun key z hz => ?_, fun key m score hscore => ?_⟩
  · rw [hget] at hz
    cases hz
  · rw [sortedSet_of_absent (hget key)] at hscore
    cases hscore

theorem ScoredStep.findMember (hsel : s.Selected) (h : ScoredStep atof s call s')
    (hadds : AddsTo call key) (m : Bytes) : (sortedSet s' key).findMember m =
      ((sortedSet s key).findMember m).or (first m (pairs atof (call.params.drop 2))) := by
  obtain ⟨env, n, rfl, -, hobj, -⟩ := h.zadd hsel hadds
  rw [sortedSet_of_sset hobj, findMember_addPairs_eq, firstScore_eq]

/-- Other commands give no member a score. -/
theorem CallStep.findMember (hsel : s.Selected) (h : CallStep s call s')
    (hadds : ¬ AddsTo call key) {m : Bytes} {score : Score}
    (hscore : (sortedSet s' key).findMember m = some score) :
    (sortedSet s key).findMember m = some score := by
  unfold sortedSet at hscore
  split at hscore
  · rename_i z hz
    rw [sortedSet_of_sset (h.sset hsel hadds hz)]
    exact hscore
  · cases hscore

theorem FiniteStep.finiteScores (h : FiniteStep atof s call s') (hs : FiniteScores s) :
    FiniteScores s' := by
  obtain ⟨hstep, hfinite⟩ := h
  refine ⟨hstep.callStep.selected hs.selected, hstep.allBuilt hs.selected hs.built, ?_⟩
  intro key m score hscore
  by_cases hadds : AddsTo call key
  · rw [hstep.findMember hs.selected hadds, Option.or_eq_some_iff] at hscore
    rcases hscore with hold | ⟨-, hnew⟩
    · exact hs.finite key m score hold
    · exact hfinite key hadds _ (first_mem hnew)
  · exact hs.finite key m score (hstep.callStep.findMember hs.selected hadds hscore)

/-- A `ZADD` leaves other keys alone, and its own as `addMember` does. -/
theorem ZaddStep.findMember (hs : FiniteScores s) (h : ZaddStep atof s call s') (key m : Bytes) :
    (sortedSet s' key).findMember m = ((sortedSet s key).findMember m).or
      (first m (if AddsTo call key then pairs atof (call.params.drop 2) else [])) := by
  obtain ⟨⟨hstep, -⟩, key', hadds'⟩ := h
  split_ifs with hadds
  · exact hstep.findMember hs.selected hadds m
  · have hne : key ≠ key' := by
      rintro rfl
      exact hadds hadds'
    have hsame : sortedSet s' key = sortedSet s key := by
      rw [sortedSet, hstep.callStep.getObject_ne hs.selected hadds'.1 hne, sortedSet]
    rw [hsame, first, List.find?_nil, Option.map_none, Option.or_none]

theorem FiniteScores.stores_iff (hs : FiniteScores s) (key : Bytes) (score : Bytes → Option Score) :
    Stores (sortedSet s key) score ↔ ∀ m, (sortedSet s key).findMember m = score m := by
  refine ⟨And.left, fun hfind => ⟨hfind, fun m k => ?_⟩⟩
  have hmirror : (sortedSet s key).Mirrors := by
    apply (hs.built.sortedSet key).mirrors_iff.mpr
    right
    intro m' k' hk' hnan
    obtain ⟨q, hq⟩ := hs.finite key m' k' hk'
    rw [hnan] at hq
    cases hq
  rw [← hfind m]
  constructor
  · rintro ⟨b, hb, hm, rfl⟩
    exact hmirror.held b hb m hm
  · intro hk
    apply Buckets.mem_keysOf.mp
    rw [hmirror.listed m k hk]
    exact List.mem_singleton_self k

end Steps

section Runs
variable {atof : Bytes → Score} {s₀ s : YStore} {trace₀ trace : List (Transition YStore Call)}

/-- A member keeps the score it has, or gets that of the first pair that names it. -/
theorem run_findMember (hs : FiniteScores s₀) (run : Run (ZaddStep atof) s₀ trace s)
    (key m : Bytes) : (sortedSet s key).findMember m =
      ((sortedSet s₀ key).findMember m).or (first m (writes atof key (labels trace))) := by
  apply (run.invariant_labels (P := fun calls s => FiniteScores s ∧ (sortedSet s key).findMember m =
    ((sortedSet s₀ key).findMember m).or (first m (writes atof key calls))) ⟨hs, ?_⟩ ?_).2
  · rw [writes, first, List.find?_nil, Option.map_none, Option.or_none]
  · rintro calls s call s' ⟨hs, ih⟩ h
    refine ⟨h.1.finiteScores hs, ?_⟩
    rw [h.findMember hs, ih, writes, first_append, Option.or_assoc]

/-- After `ZADD`s with finite scores on a reachable store: the scores of a sorted set are in both
directions those of the last pairs, if and only if every member that is named gets from its
last pair the score that it had, or if it was new, that of the first pair naming it. -/
theorem last_write_wins_iff (run₀ : Run (FiniteStep atof) .start trace₀ s₀)
    (run : Run (ZaddStep atof) s₀ trace s) (key : Bytes) :
    Stores (sortedSet s key) (fun m =>
        (last m (writes atof key (labels trace))).or ((sortedSet s₀ key).findMember m)) ↔
      ∀ m score, last m (writes atof key (labels trace)) = some score →
        ((sortedSet s₀ key).findMember m).or (first m (writes atof key (labels trace))) =
          some score := by
  have hs₀ : FiniteScores s₀ :=
    run₀.invariant finiteScores_start fun s l s' hs h => h.finiteScores hs
  have hs : FiniteScores s := run.invariant hs₀ fun s l s' hs h => h.1.finiteScores hs
  rw [hs.stores_iff]
  apply forall_congr'
  intro m
  rw [run_findMember hs₀ run]
  cases hlast : last m (writes atof key (labels trace)) with
  | none =>
      rw [last_eq_none.mp hlast]
      simp
  | some score => simp [eq_comm]

end Runs

theorem exists_zaddStep {params : List Bytes} {key : Bytes} {ws : List (Bytes × Score)}
    (hadds : AddsTo ⟨params, []⟩ key) (hpairs : pairs readScore (params.drop 2) = ws)
    (hfinite : ∀ w ∈ ws, ∃ q, w.2 = .fin q) :
    ∃ reply s, ZaddStep readScore .start ⟨params, reply⟩ s ∧
      s.getObject key = some (.sset (addPairs scoreEnv (params.drop 2) {})) ∧
      writes readScore key [⟨params, reply⟩] = ws := by
  have habsent := YStore.getObject_start key
  obtain ⟨reply, s, hstep, hobj⟩ :=
    exists_zadd params key YStore.selected_start hadds (.inl habsent)
  rw [sortedSet_of_absent habsent] at hobj
  rw [← hpairs] at hfinite
  refine ⟨reply, s, ⟨⟨hstep, fun _ _ => hfinite⟩, key, hadds⟩, hobj, ?_⟩
  rw [writes, if_pos (show AddsTo ⟨params, reply⟩ key from hadds)]
  exact hpairs

/-- A member named twice with one score. -/
theorem last_write_wins_iff_repeated : ∃ (trace : List (Transition YStore Call)) (s : YStore),
    Run (ZaddStep readScore) .start trace s ∧
    (labels trace).map Call.params = [[ascii "ZADD", ascii "k", ascii "1", ascii "a", ascii "1",
      ascii "a"]] ∧
    Stores (sortedSet s (ascii "k")) fun m =>
      (last m (writes readScore (ascii "k") (labels trace))).or
        ((sortedSet .start (ascii "k")).findMember m) := by
  have hadds : AddsTo ⟨[ascii "ZADD", ascii "k", ascii "1", ascii "a", ascii "1", ascii "a"], []⟩
    (ascii "k") := ⟨by decide, rfl⟩
  have hpairs : pairs readScore [ascii "1", ascii "a", ascii "1", ascii "a"] =
    [(ascii "a", .fin 1), (ascii "a", .fin 1)] := by decide
  obtain ⟨reply, s, hstep, -, hwrites⟩ := exists_zaddStep hadds hpairs (by simp)
  have run := Run.start.next hstep
  refine ⟨_, s, run, rfl, (last_write_wins_iff .start run (ascii "k")).mpr fun m score hlast => ?_⟩
  rw [sortedSet_of_absent (YStore.getObject_start _)]
  rw [labels_cons, labels_nil, hwrites] at hlast ⊢
  exact hlast

/-- The second score of a member is lost. -/
theorem last_write_loses : ∃ (trace : List (Transition YStore Call)) (s : YStore),
    Run (ZaddStep readScore) .start trace s ∧
    (labels trace).map Call.params = [[ascii "ZADD", ascii "k", ascii "1", ascii "a", ascii "0",
      ascii "a"]] ∧
    (sortedSet s (ascii "k")).findMember (ascii "a") = some (.fin 1) ∧
    ¬ Stores (sortedSet s (ascii "k")) fun m =>
      (last m (writes readScore (ascii "k") (labels trace))).or
        ((sortedSet .start (ascii "k")).findMember m) := by
  have hadds : AddsTo ⟨[ascii "ZADD", ascii "k", ascii "1", ascii "a", ascii "0", ascii "a"], []⟩
    (ascii "k") := ⟨by decide, rfl⟩
  have hpairs : pairs readScore [ascii "1", ascii "a", ascii "0", ascii "a"] =
    [(ascii "a", .fin 1), (ascii "a", .fin 0)] := by decide
  obtain ⟨reply, s, hstep, hobj, hwrites⟩ := exists_zaddStep hadds hpairs (by simp)
  have hfind : (sortedSet s (ascii "k")).findMember (ascii "a") = some (.fin 1) := by
    rw [sortedSet_of_sset hobj]
    decide
  refine ⟨_, s, Run.start.next hstep, rfl, hfind, fun hstores => ?_⟩
  have hlast := hstores.1 (ascii "a")
  rw [hfind, labels_cons, labels_nil, hwrites] at hlast
  exact absurd hlast (by decide)

end Yedis
