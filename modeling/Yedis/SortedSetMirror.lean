import Yedis.Buckets
import Yedis.KeySpace
import Yedis.Runs

/-!
# The two maps of a sorted set

`addMember` looks for the bucket of a score with `operator<`, under which NaN is like
every score. A member with the score NaN is therefore put into the first bucket there
is, and after a bucket for NaN there is never another. The two maps mirror each other
as long as the scores of a sorted set are all NaN or none of them is.
-/

namespace Yedis
open Buckets Function Runs YSortedSet

/-! ### Scores -/

theorem Score.lt_irrefl (s : Score) : s.lt s = false := by
  cases s <;> simp [Score.lt]

theorem Score.lt_trans {a b c : Score} (hab : a.lt b = true) (hbc : b.lt c = true) :
    a.lt c = true := by
  cases a <;> cases b <;> cases c <;> simp_all [Score.lt]
  exact hab.trans hbc

/-- Only NaN cannot be compared with another score. -/
theorem Score.eq_of_incomparable {a b : Score} (h : Incomparable Score.lt a b) (ha : a ≠ .nan)
    (hb : b ≠ .nan) : a = b := by
  obtain ⟨hab, hba⟩ := h
  cases a <;> cases b <;> simp_all [Score.lt]
  exact le_antisymm hba hab

theorem Score.incomparable_nan (s : Score) : Incomparable Score.lt s .nan := by
  cases s <;> exact ⟨rfl, rfl⟩

/-- The scores are all NaN, or none of them is. -/
def SameKind (score : Bytes → Option Score) : Prop :=
  (∀ m s, score m = some s → s = .nan) ∨ ∀ m s, score m = some s → s ≠ .nan

/-! ### One sorted set -/

namespace YSortedSet

/-- The two maps mirror each other. -/
def Mirrors (z : YSortedSet) : Prop := Mirror z.findMember z.score2Members

/-- What `addMember` keeps for every score. -/
structure Built (z : YSortedSet) : Prop where
  placed : Placed Score.lt z.findMember z.score2Members
  ordered : Ordered Score.lt z.score2Members

theorem insertScore_eq (member : Bytes) (score : Score) (buckets : List (Score × Finset Bytes)) :
    insertScore member score buckets = insertAt Score.lt member score buckets := by
  induction buckets with
  | nil => rfl
  | cons b buckets ih =>
      rw [insertAt, ← ih]
      rfl

theorem built_empty : Built {} := ⟨placed_nil Score.lt, List.Pairwise.nil⟩

theorem Built.addMember {z : YSortedSet} (h : Built z) {member : Bytes}
    (hnew : z.findMember member = none) (score : Score) :
    Built ⟨insertScore member score z.score2Members, z.member2Scores.insert member score⟩ := by
  have hfind : (⟨insertScore member score z.score2Members,
      z.member2Scores.insert member score⟩ : YSortedSet).findMember =
      update z.findMember member (some score) := by
    funext m
    rw [findMember_insert, update_apply]
  constructor
  · rw [hfind]
    simp only [insertScore_eq]
    exact h.placed.insertAt Score.lt_irrefl hnew score
  · simp only [insertScore_eq]
    exact ordered_insertAt (fun _ _ _ => Score.lt_trans) h.ordered

theorem Built.addPairs {z : YSortedSet} (h : Built z) (env : Env) (pairs : List Bytes) :
    Built (addPairs env pairs z) := by
  induction pairs, z using YSortedSet.addPairs.induct env with
  | case1 score member rest z hold ih =>
      rw [YSortedSet.addPairs, if_pos hold]
      exact ih h
  | case2 score member rest z hnew ih =>
      rw [YSortedSet.addPairs, if_neg hnew]
      apply ih
      apply h.addMember
      rwa [Bool.not_eq_true, Option.isSome_eq_false_iff, Option.isNone_iff_eq_none] at hnew
  | case3 pairs z hshort =>
      rw [(addPairs_short env z hshort).1]
      exact h

/-- The buckets of NaN and of a number are never in one ordered list. -/
theorem Built.mirrors_iff {z : YSortedSet} (h : Built z) : z.Mirrors ↔ SameKind z.findMember := by
  constructor
  · intro hmirror
    by_cases hnan : ∃ m, z.findMember m = some .nan
    · left
      obtain ⟨m, hm⟩ := hnan
      intro m' s hs
      exact hmirror.comparable h.ordered hs hm (Score.incomparable_nan s)
    · right
      rintro m s hs rfl
      exact hnan ⟨m, hs⟩
  · intro hkind
    apply h.placed.mirror
    intro m s k hs hk hinc
    obtain ⟨m', hm'⟩ := h.placed.exists_key hk
    rcases hkind with hall | hnone
    · rw [hall m s hs, hall m' k hm']
    · exact Score.eq_of_incomparable hinc (hnone m' k hm') (hnone m s hs)

/-- The score of the first pair that names `m`. -/
def firstScore (atof : Bytes → Score) (m : Bytes) : List Bytes → Option Score
  | score :: member :: rest => if m = member then some (atof score) else firstScore atof m rest
  | _ => none

theorem firstScore_short (atof : Bytes → Score) (m : Bytes) {pairs : List Bytes}
    (h : ∀ (score member : Bytes) (rest : List Bytes), pairs = score :: member :: rest → False) :
    firstScore atof m pairs = none := by
  match pairs with
  | [] => rfl
  | [score] => rfl
  | score :: member :: rest => exact (h score member rest rfl).elim

/-- A member keeps its score, and a new one gets the first score it is named with. -/
theorem findMember_addPairs_eq (env : Env) (pairs : List Bytes) (z : YSortedSet) (m : Bytes) :
    (YSortedSet.addPairs env pairs z).findMember m =
      (z.findMember m).or (firstScore env.atof m pairs) := by
  induction pairs, z using YSortedSet.addPairs.induct env with
  | case1 score member rest z hold ih =>
      rw [YSortedSet.addPairs, if_pos hold, ih, firstScore]
      split_ifs with hm
      · subst hm
        obtain ⟨s, hs⟩ := Option.isSome_iff_exists.mp hold
        simp [hs]
      · rfl
  | case2 score member rest z hnew ih =>
      rw [YSortedSet.addPairs, if_neg hnew, ih, findMember_insert, firstScore]
      split_ifs with hm
      · subst hm
        rw [Bool.not_eq_true, Option.isSome_eq_false_iff, Option.isNone_iff_eq_none] at hnew
        simp [hnew]
      · rfl
  | case3 pairs z hshort =>
      rw [(addPairs_short env z hshort).1, firstScore_short env.atof m hshort, Option.or_none]

end YSortedSet

/-! ### Runs -/

/-- A command that runs to its end, scores being read by `atof`. -/
def ScoredStep (atof : Bytes → Score) (s : YStore) (call : Call) (s' : YStore) : Prop :=
  ∃ (env : Env) (b : Bool), env.atof = atof ∧
    execCommand env call.params ⟨s, []⟩ = .ok b ⟨s', call.reply⟩

/-- All sorted sets mirror. -/
def AllMirror (s : YStore) : Prop :=
  ∀ key z, s.getObject key = some (.sset z) → z.Mirrors

/-- The sorted set of a key, the empty one where there is none. -/
def sortedSet (s : YStore) (key : Bytes) : YSortedSet :=
  match s.getObject key with
  | some (.sset z) => z
  | _ => {}

/-- The call is a `ZADD` on the key with as many scores as members. -/
def AddsTo (call : Call) (key : Bytes) : Prop :=
  addressed call.params = some (.ZADD, key) ∧ call.params.length % 2 = 0

/-- Where the call is a `ZADD`, the scores that its sorted set has and those that it gives to new
members are all NaN, or none of them is. -/
def OneKind (atof : Bytes → Score) (s : YStore) (call : Call) : Prop :=
  ∀ key, AddsTo call key →
    SameKind fun m => ((sortedSet s key).findMember m).or (firstScore atof m (call.params.drop 2))

section Steps
variable {atof : Bytes → Score} {s s' : YStore} {call : Call} {key : Bytes}

theorem ScoredStep.callStep (h : ScoredStep atof s call s') : CallStep s call s' := by
  obtain ⟨env, b, -, hexec⟩ := h
  exact ⟨env, b, hexec⟩

theorem sortedSet_of_sset {z : YSortedSet} (h : s.getObject key = some (.sset z)) :
    sortedSet s key = z := by
  rw [sortedSet, h]

theorem sortedSet_of_absent (h : s.getObject key = none) : sortedSet s key = {} := by
  rw [sortedSet, h]

/-- `ZADD` on a key that is absent or holds a sorted set runs to its end, replies with the number of
members that were added, and binds the set with its new members. -/
theorem zadd_performs (env : Env) (hsel : s.Selected) (hadds : AddsTo call key)
    (hkind : s.getObject key = none ∨ ∃ z, s.getObject key = some (.sset z)) :
    ∃ (w' : World) (n : ℕ), execCommand env call.params ⟨s, []⟩ = .ok true w' ∧
      w'.reply = formatInt n ∧ w'.store.getObject key =
        some (.sset (addPairs env (call.params.drop 2) (sortedSet s key))) ∧
      n + (sortedSet s key).memberCount =
        (addPairs env (call.params.drop 2) (sortedSet s key)).memberCount := by
  obtain ⟨haddr, heven⟩ := hadds
  obtain ⟨hname, hkey⟩ := addressed_eq_some haddr
  rcases hkind with hnone | ⟨z, hz⟩
  · rw [sortedSet_of_absent hnone]
    obtain ⟨n, hcount, hrun⟩ := zadd_absent (w := ⟨s, []⟩) env heven hkey hnone
    refine ⟨_, n, execCommand_ok hname hrun, rfl, ?_, hcount⟩
    rw [YStore.getObject_setValue (hsel.setValue key _), if_pos rfl]
  · rw [sortedSet_of_sset hz]
    obtain ⟨n, hcount, hrun⟩ := zadd_sset (w := ⟨s, []⟩) env heven hkey hz
    refine ⟨_, n, execCommand_ok hname hrun, rfl, ?_, hcount⟩
    rw [YStore.getObject_setValue hsel, if_pos rfl]

/-- On a key of another type it does not come to its end. -/
theorem ScoredStep.kind (h : ScoredStep atof s call s') (hadds : AddsTo call key) :
    s.getObject key = none ∨ ∃ z, s.getObject key = some (.sset z) := by
  obtain ⟨haddr, heven⟩ := hadds
  obtain ⟨hname, hkey⟩ := addressed_eq_some haddr
  obtain ⟨env, b, -, hexec⟩ := h
  rw [execCommand_run hname (getCommand_name _), Command.handler] at hexec
  cases hget : s.getObject key with
  | none => exact .inl rfl
  | some obj =>
      by_cases ht : obj.type = .sortedSet
      · obtain ⟨z, rfl⟩ := type_sortedSet ht
        exact .inr ⟨z, rfl⟩
      · rw [zadd_other (w := ⟨s, []⟩) heven hkey hget ht] at hexec
        cases hexec

theorem ScoredStep.zadd (hsel : s.Selected) (h : ScoredStep atof s call s')
    (hadds : AddsTo call key) : ∃ (env : Env) (n : ℕ), env.atof = atof ∧
      call.reply = formatInt n ∧ s'.getObject key =
        some (.sset (addPairs env (call.params.drop 2) (sortedSet s key))) ∧
      n + (sortedSet s key).memberCount =
        (addPairs env (call.params.drop 2) (sortedSet s key)).memberCount := by
  have hkind := h.kind hadds
  obtain ⟨env, b, henv, hexec⟩ := h
  obtain ⟨w', n, hrun, hreply, hobj, hcount⟩ := zadd_performs env hsel hadds hkind
  rw [hexec] at hrun
  simp only [EStateM.Result.ok.injEq] at hrun
  rw [← hrun.2] at hreply hobj
  exact ⟨env, n, henv, hreply, hobj, hcount⟩

/-- Only a `ZADD` with as many scores as members binds a sorted set. -/
theorem Command.change_ne_sset (env : Env) (params : List Bytes) (bound : Option YObject)
    {c : Command} (hc : c = .ZADD → params.length % 2 ≠ 0) (z : YSortedSet) :
    c.change env params bound ≠ .bind (.sset z) := by
  intro h
  have htype := Command.type_of_bind h
  cases c with
  | ZADD =>
      have hodd := hc rfl
      simp only [Command.change, zaddChange, if_neg hodd] at h
      split at h <;> cases h
  | _ => cases htype

theorem Change.sset_of_result {change : Change} {bound : Option YObject} {z : YSortedSet}
    (hbind : change ≠ .bind (.sset z)) (h : change.result bound = some (.sset z)) :
    bound = some (.sset z) := by
  cases change with
  | keep => exact h
  | bind obj =>
      rw [Change.result, Option.some_inj] at h
      exact absurd (by rw [h]) hbind
  | remove => cases h

/-- A sorted set that a `ZADD` on its key did not leave was there before. -/
theorem CallStep.sset (hsel : s.Selected) (h : CallStep s call s') (hadds : ¬ AddsTo call key)
    {z : YSortedSet} (hz : s'.getObject key = some (.sset z)) :
    s.getObject key = some (.sset z) := by
  obtain ⟨env, rfl⟩ := h.store hsel
  cases haddr : addressed call.params with
  | none => rwa [haddr] at hz
  | some pair =>
      obtain ⟨c, k⟩ := pair
      rw [haddr] at hz
      simp only at hz
      rw [Change.getObject_apply hsel] at hz
      split_ifs at hz with hk
      · subst hk
        apply Change.sset_of_result _ hz
        apply Command.change_ne_sset
        rintro rfl heven
        exact hadds ⟨haddr, heven⟩
      · exact hz

/-- All sorted sets are as `addMember` leaves them. -/
def AllBuilt (s : YStore) : Prop := ∀ key z, s.getObject key = some (.sset z) → z.Built

theorem AllBuilt.sortedSet (h : AllBuilt s) (key : Bytes) : (sortedSet s key).Built := by
  unfold Yedis.sortedSet
  split
  · exact h key _ (by assumption)
  · exact built_empty

theorem ScoredStep.allBuilt (hsel : s.Selected) (h : ScoredStep atof s call s')
    (hbuilt : AllBuilt s) : AllBuilt s' := by
  intro key z hz
  by_cases hadds : AddsTo call key
  · obtain ⟨env, n, -, -, hobj, -⟩ := h.zadd hsel hadds
    rw [hz, Option.some_inj, YObject.sset.injEq] at hobj
    rw [hobj]
    exact (hbuilt.sortedSet key).addPairs env _
  · exact hbuilt key z (h.callStep.sset hsel hadds hz)

/-- One command keeps all sorted sets mirrors exactly when it keeps their scores of one kind. -/
theorem ScoredStep.allMirror_iff (hsel : s.Selected) (h : ScoredStep atof s call s')
    (hbuilt : AllBuilt s) (hall : AllMirror s) : AllMirror s' ↔ OneKind atof s call := by
  have hadded : ∀ key, AddsTo call key → ∃ z, s'.getObject key = some (.sset z) ∧
      (z.Mirrors ↔ SameKind fun m => ((sortedSet s key).findMember m).or
        (firstScore atof m (call.params.drop 2))) := by
    intro key hadds
    obtain ⟨env, n, rfl, -, hobj, -⟩ := h.zadd hsel hadds
    refine ⟨_, hobj, ?_⟩
    rw [((hbuilt.sortedSet key).addPairs env _).mirrors_iff]
    apply iff_of_eq
    congr 1
    funext m
    exact findMember_addPairs_eq env _ _ m
  constructor
  · intro hall' key hadds
    obtain ⟨z, hobj, hiff⟩ := hadded key hadds
    exact hiff.mp (hall' key z hobj)
  · intro hkind key z hz
    by_cases hadds : AddsTo call key
    · obtain ⟨z', hobj, hiff⟩ := hadded key hadds
      rw [hz, Option.some_inj, YObject.sset.injEq] at hobj
      rw [hobj]
      exact hiff.mpr (hkind key hadds)
    · exact hall key z (h.callStep.sset hsel hadds hz)

theorem ScoredStep.counts (hsel : s.Selected) (h : ScoredStep atof s call s')
    (hadds : AddsTo call key) : ∃ n : ℕ, call.reply = formatInt n ∧
      n + (sortedSet s key).memberCount = (sortedSet s' key).memberCount := by
  obtain ⟨env, n, -, hreply, hobj, hcount⟩ := h.zadd hsel hadds
  rw [sortedSet_of_sset hobj]
  exact ⟨n, hreply, hcount⟩

end Steps

/-- In every run from the empty store: the sorted sets mirror in all states if and only if every
`ZADD` leaves its sorted set with scores that are all NaN or all numbers. The reply of a `ZADD` is
the growth of `m_Member2Scores`, and on a key that is absent or holds a sorted set every further
`ZADD` comes to its end, with no assertion failed. -/
theorem sorted_sets_mirror {atof : Bytes → Score} {trace : List (Transition YStore Call)}
    {s : YStore} (run : Run (ScoredStep atof) .start trace s) :
    ((∀ t ∈ trace, AllMirror t.dst) ↔ ∀ t ∈ trace, OneKind atof t.src t.label) ∧
    (∀ t ∈ trace, ∀ key, AddsTo t.label key → ∃ n : ℕ, t.label.reply = formatInt n ∧
      n + (sortedSet t.src key).memberCount = (sortedSet t.dst key).memberCount) ∧
    ∀ env params reply key, AddsTo ⟨params, reply⟩ key →
      (s.getObject key = none ∨ ∃ z, s.getObject key = some (.sset z)) →
      ∃ w', execCommand env params ⟨s, []⟩ = .ok true w' := by
  have hstart : YStore.start.Selected ∧ AllBuilt .start := by
    refine ⟨YStore.selected_start, fun key z hz => ?_⟩
    rw [YStore.getObject_start] at hz
    cases hz
  have hstep : ∀ s l s', s.Selected ∧ AllBuilt s → ScoredStep atof s l s' →
      s'.Selected ∧ AllBuilt s' := fun s l s' hI h =>
    ⟨h.callStep.selected hI.1, h.allBuilt hI.1 hI.2⟩
  refine ⟨?_, ?_, ?_⟩
  · apply run.always_iff (P := AllMirror) hstart hstep
    · intro key z hz
      rw [YStore.getObject_start] at hz
      cases hz
    · exact fun s l s' hI hall h => h.allMirror_iff hI.1 hI.2 hall
  · exact run.each_step (Q := fun s l s' => ∀ key, AddsTo l key → ∃ n : ℕ, l.reply = formatInt n ∧
      n + (sortedSet s key).memberCount = (sortedSet s' key).memberCount) hstart hstep
      fun s l s' hI h key hadds => h.counts hI.1 hadds
  · intro env params reply key hadds hkind
    obtain ⟨w', n, hrun, -⟩ := zadd_performs env (run.invariant hstart hstep).1 hadds hkind
    exact ⟨w', hrun⟩

/-- What `atof` makes of the score texts below. -/
def readScore (text : Bytes) : Score :=
  if text = ascii "nan" then .nan else if text = ascii "1" then .fin 1 else .fin 0

def scoreEnv : Env := { (default : Env) with atof := readScore }

theorem exists_zadd {s : YStore} (params : List Bytes) (key : Bytes) (hsel : s.Selected)
    (hadds : AddsTo ⟨params, []⟩ key)
    (hkind : s.getObject key = none ∨ ∃ z, s.getObject key = some (.sset z)) :
    ∃ reply s', ScoredStep readScore s ⟨params, reply⟩ s' ∧ s'.getObject key =
      some (.sset (addPairs scoreEnv (params.drop 2) (sortedSet s key))) := by
  obtain ⟨w', n, hexec, -, hobj, -⟩ := zadd_performs scoreEnv hsel hadds hkind
  exact ⟨w'.reply, w'.store, ⟨scoreEnv, true, rfl, hexec⟩, hobj⟩

/-- Two members of a new sorted set, one of them named twice. -/
theorem sorted_sets_mirror_zadd : ∃ (reply : Bytes) (s : YStore),
    ScoredStep readScore .start ⟨[ascii "ZADD", ascii "k", ascii "1", ascii "a", ascii "0",
      ascii "b", ascii "0", ascii "a"], reply⟩ s ∧ AllMirror s := by
  obtain ⟨reply, s, hstep, -⟩ := exists_zadd [ascii "ZADD", ascii "k", ascii "1", ascii "a",
    ascii "0", ascii "b", ascii "0", ascii "a"] (ascii "k") YStore.selected_start
    ⟨by decide, by decide⟩ (.inl (YStore.getObject_start _))
  refine ⟨reply, s, hstep, (sorted_sets_mirror (.next .start hstep)).1.mpr ?_ _ List.mem_cons_self⟩
  simp only [List.forall_mem_cons]
  refine ⟨fun key _ => .inr fun m score hscore => ?_, by simp⟩
  rw [sortedSet_of_absent (YStore.getObject_start key)] at hscore
  have hfirst : firstScore readScore m
      [ascii "1", ascii "a", ascii "0", ascii "b", ascii "0", ascii "a"] = some score := hscore
  simp only [firstScore] at hfirst
  split_ifs at hfirst
  · rw [← Option.some_inj.mp hfirst]
    decide
  · rw [← Option.some_inj.mp hfirst]
    decide

/-- The score of the second member is a number, but it is in the bucket of the first. -/
theorem sorted_sets_mirror_fails : ∃ trace s, Run (ScoredStep readScore) .start trace s ∧
    (labels trace).map Call.params = [[ascii "ZADD", ascii "k", ascii "1", ascii "b"],
      [ascii "ZADD", ascii "k", ascii "nan", ascii "a"]] ∧
    (sortedSet s (ascii "k")).findMember (ascii "b") = some (.fin 1) ∧
    (sortedSet s (ascii "k")).score2Members = [(.nan, {ascii "a", ascii "b"})] ∧ ¬ AllMirror s := by
  obtain ⟨reply₁, s₁, hstep₁, hobj₁⟩ := exists_zadd [ascii "ZADD", ascii "k", ascii "nan",
    ascii "a"] (ascii "k") YStore.selected_start ⟨by decide, by decide⟩
    (.inl (YStore.getObject_start _))
  have hsel₁ := hstep₁.callStep.selected YStore.selected_start
  obtain ⟨reply₂, s₂, hstep₂, hobj₂⟩ := exists_zadd [ascii "ZADD", ascii "k", ascii "1",
    ascii "b"] (ascii "k") hsel₁ ⟨by decide, by decide⟩ (.inr ⟨_, hobj₁⟩)
  rw [sortedSet_of_sset hobj₁, sortedSet_of_absent (YStore.getObject_start _)] at hobj₂
  refine ⟨_, s₂, .next (.next .start hstep₁) hstep₂, rfl, ?_, ?_, fun hall => ?_⟩
  · rw [sortedSet_of_sset hobj₂]
    decide
  · rw [sortedSet_of_sset hobj₂]
    decide
  · have hmirror := hall _ _ hobj₂
    have hkeys := hmirror.listed (ascii "b") (.fin 1) (by decide)
    exact absurd hkeys (by decide)

end Yedis
