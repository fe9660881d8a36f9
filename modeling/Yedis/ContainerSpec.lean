import Yedis.Handlers

/-!
# What the set, hash and sorted set handlers do

As for strings and lists: one equation for each handler and each kind of object its
key can be bound to. A handler that misses a parameter stops where it reads it.
-/

namespace Yedis

variable {params : List Bytes} {w : World} {key : Bytes}

namespace YSet

variable {env : Env}

theorem getSet_set {m : Finset Bytes} (hget : w.store.getObject key = some (.set m)) :
    getSet key w = .ok (some (.set m)) w := by
  simp [getSet, getValueByType_run (t := .set) hget rfl]

theorem getSet_absent (hget : w.store.getObject key = none) :
    getSet key w = .ok none ⟨w.store, w.reply ++ formatNull⟩ := by
  simp [getSet, getValueByType_absent hget]

theorem getSet_other {obj : YObject} (hget : w.store.getObject key = some obj)
    (ht : obj.type ≠ .set) : getSet key w = .ok none ⟨w.store, w.reply ++ errorType⟩ := by
  simp [getSet, getValueByType_other hget ht]

theorem insertAll_eq_foldl (members : List Bytes) (m : Finset Bytes) (n : ℕ) :
    members.foldl (fun (acc : Finset Bytes × ℕ) x =>
      if x ∈ acc.1 then (acc.1, acc.2) else (insert x acc.1, acc.2 + 1)) (m, n) =
      (m ∪ members.toFinset, n + (members.toFinset \ m).card) := by
  induction members generalizing m n with
  | nil => simp
  | cons x members ih =>
      rw [List.foldl_cons, List.toFinset_cons, Finset.union_insert, ← Finset.insert_union]
      simp only
      split_ifs with hx
      · rw [ih, Finset.insert_eq_of_mem hx, Finset.insert_sdiff_of_mem _ hx]
      · rw [ih, Prod.mk.injEq]
        refine ⟨rfl, ?_⟩
        have hnew : x ∉ members.toFinset \ insert x m := fun h =>
          (Finset.mem_sdiff.mp h).2 (Finset.mem_insert_self x m)
        have hdiff : insert x members.toFinset \ m = insert x (members.toFinset \ insert x m) := by
          ext y
          by_cases hy : y = x
          · simp [hy, hx]
          · simp [hy]
        rw [hdiff, Finset.card_insert_of_notMem hnew]
        omega

theorem insertAll_fst (m : Finset Bytes) (members : List Bytes) :
    (insertAll m members).1 = m ∪ members.toFinset :=
  congrArg Prod.fst (insertAll_eq_foldl members m 0)

/-- A member is counted when it is met for the first time. -/
theorem insertAll_snd (m : Finset Bytes) (members : List Bytes) :
    (insertAll m members).2 = (members.toFinset \ m).card := by
  have h := congrArg Prod.snd (insertAll_eq_foldl members m 0)
  rw [Nat.zero_add] at h
  exact h

/-- The world after members were added to `m`. -/
def added (w : World) (key : Bytes) (m : Finset Bytes) (members : List Bytes) : World :=
  ⟨w.store.setValue key (.set (insertAll m members).1),
    w.reply ++ formatInt (wrap32 (insertAll m members).2)⟩

theorem sadd_set {m : Finset Bytes} (hkey : params[1]? = some key)
    (hget : w.store.getObject key = some (.set m)) :
    sadd params w = .ok .ok (added w key m (params.drop 2)) := by
  simp [sadd, creatrOrGetSet, param_run _ hkey, getValueByType_run (t := .set) hget rfl,
    YObject.castSet, added]

theorem sadd_absent (hkey : params[1]? = some key) (hget : w.store.getObject key = none) :
    sadd params w = .ok .ok
      (added ⟨w.store.setValue key .createSet, w.reply⟩ key ∅ (params.drop 2)) := by
  simp [sadd, creatrOrGetSet, param_run _ hkey, getValueByType_absent hget, YObject.castSet,
    YObject.createSet, added]

theorem sadd_other {obj : YObject} (hkey : params[1]? = some key)
    (hget : w.store.getObject key = some obj) (ht : obj.type ≠ .set) :
    sadd params w = .ok .type ⟨w.store, w.reply ++ errorType ++ errorType⟩ := by
  simp [sadd, creatrOrGetSet, param_run _ hkey, getValueByType_other hget ht]

theorem scard_set {m : Finset Bytes} (hkey : params[1]? = some key)
    (hget : w.store.getObject key = some (.set m)) :
    scard params w = .ok .ok ⟨w.store, w.reply ++ formatInt m.card⟩ := by
  simp [scard, param_run _ hkey, getSet_set hget, YObject.castSet]

theorem scard_absent (hkey : params[1]? = some key) (hget : w.store.getObject key = none) :
    scard params w = .ok .type ⟨w.store, w.reply ++ formatNull ++ errorType⟩ := by
  simp [scard, param_run _ hkey, getSet_absent hget]

theorem scard_other {obj : YObject} (hkey : params[1]? = some key)
    (hget : w.store.getObject key = some obj) (ht : obj.type ≠ .set) :
    scard params w = .ok .type ⟨w.store, w.reply ++ errorType ++ errorType⟩ := by
  simp [scard, param_run _ hkey, getSet_other hget ht]

theorem smember_set {m : Finset Bytes} (hkey : params[1]? = some key)
    (hget : w.store.getObject key = some (.set m)) :
    smember env params w = .ok .ok ⟨w.store,
      w.reply ++ preFormatMultiBulk m.card ++ (env.order m).flatMap formatBulk⟩ := by
  simp [smember, param_run _ hkey, getSet_set hget, YObject.castSet]

theorem smember_absent (hkey : params[1]? = some key) (hget : w.store.getObject key = none) :
    smember env params w = .ok .type ⟨w.store, w.reply ++ formatNull ++ errorType⟩ := by
  simp [smember, param_run _ hkey, getSet_absent hget]

theorem smember_other {obj : YObject} (hkey : params[1]? = some key)
    (hget : w.store.getObject key = some obj) (ht : obj.type ≠ .set) :
    smember env params w = .ok .type ⟨w.store, w.reply ++ errorType ++ errorType⟩ := by
  simp [smember, param_run _ hkey, getSet_other hget ht]

theorem spop_set {m : Finset Bytes} (hkey : params[1]? = some key)
    (hget : w.store.getObject key = some (.set m)) (hm : m ≠ ∅) :
    spop env params w = .ok .ok ⟨if m.erase (env.pick m) = ∅ then w.store.deleteKey key
      else w.store.setValue key (.set (m.erase (env.pick m))),
      w.reply ++ formatBulk (env.pick m)⟩ := by
  by_cases hlast : m.erase (env.pick m) = ∅
  · simp [spop, param_run _ hkey, getSet_set hget, YObject.castSet, hm, if_pos hlast]
  · simp [spop, param_run _ hkey, getSet_set hget, YObject.castSet, hm, if_neg hlast]

theorem spop_empty (hkey : params[1]? = some key)
    (hget : w.store.getObject key = some (.set ∅)) :
    spop env params w = .ok .notExist ⟨w.store, w.reply ++ formatNull⟩ := by
  simp [spop, param_run _ hkey, getSet_set hget, YObject.castSet]

theorem spop_absent (hkey : params[1]? = some key) (hget : w.store.getObject key = none) :
    spop env params w = .ok .type ⟨w.store, w.reply ++ formatNull ++ errorType⟩ := by
  simp [spop, param_run _ hkey, getSet_absent hget]

theorem spop_other {obj : YObject} (hkey : params[1]? = some key)
    (hget : w.store.getObject key = some obj) (ht : obj.type ≠ .set) :
    spop env params w = .ok .type ⟨w.store, w.reply ++ errorType ++ errorType⟩ := by
  simp [spop, param_run _ hkey, getSet_other hget ht]

/-- The walk over a set meets each member once. -/
theorem order_length (m : Finset Bytes) : (env.order m).length = m.card := by
  rw [← List.toFinset_card_of_nodup (env.order_nodup m)]
  congr 1
  ext x
  rw [List.mem_toFinset, env.mem_order]

end YSet

namespace YHash

theorem hset_hash {m : Finmap fun _ : Bytes => Bytes} {field val : Bytes}
    (hkey : params[1]? = some key) (hget : w.store.getObject key = some (.hash m))
    (hfield : params[2]? = some field) (hval : params[3]? = some val) :
    hset params w =
      .ok .ok ⟨w.store.setValue key (.hash (m.insert field val)), w.reply ++ formatInt 1⟩ := by
  simp [hset, getOrCreateHash, param_run _ hkey, param_run _ hfield, param_run _ hval,
    getValueByType_run (t := .hash) hget rfl, YObject.castHash]

theorem hset_absent {field val : Bytes} (hkey : params[1]? = some key)
    (hget : w.store.getObject key = none) (hfield : params[2]? = some field)
    (hval : params[3]? = some val) : hset params w =
      .ok .ok ⟨(w.store.setValue key .createHash).setValue key
        (.hash ((∅ : Finmap fun _ : Bytes => Bytes).insert field val)),
        w.reply ++ formatInt 1⟩ := by
  simp [hset, getOrCreateHash, param_run _ hkey, param_run _ hfield, param_run _ hval,
    getValueByType_absent hget, YObject.castHash, YObject.createHash]

theorem hset_other {obj : YObject} (hkey : params[1]? = some key)
    (hget : w.store.getObject key = some obj) (ht : obj.type ≠ .hash) :
    hset params w = .ok .type ⟨w.store, w.reply ++ errorType⟩ := by
  simp [hset, getOrCreateHash, param_run _ hkey, getValueByType_other hget ht]

theorem hset_hash_missing {m : Finmap fun _ : Bytes => Bytes} (hkey : params[1]? = some key)
    (hget : w.store.getObject key = some (.hash m)) (hmiss : params[3]? = none) :
    hset params w = .error .paramIndex w := by
  cases hfield : params[2]? with
  | none =>
      simp [hset, getOrCreateHash, param_run _ hkey, param_none _ hfield,
        getValueByType_run (t := .hash) hget rfl]
  | some field =>
      simp [hset, getOrCreateHash, param_run _ hkey, param_run _ hfield, param_none _ hmiss,
        getValueByType_run (t := .hash) hget rfl]

/-- A missing field or value is noticed after the hash was made. -/
theorem hset_absent_missing (hkey : params[1]? = some key)
    (hget : w.store.getObject key = none) (hmiss : params[3]? = none) :
    hset params w = .error .paramIndex ⟨w.store.setValue key .createHash, w.reply⟩ := by
  cases hfield : params[2]? with
  | none =>
      simp [hset, getOrCreateHash, param_run _ hkey, param_none _ hfield,
        getValueByType_absent hget]
  | some field =>
      simp [hset, getOrCreateHash, param_run _ hkey, param_run _ hfield, param_none _ hmiss,
        getValueByType_absent hget]

theorem hget_hash {m : Finmap fun _ : Bytes => Bytes} {field : Bytes}
    (hkey : params[1]? = some key) (hget : w.store.getObject key = some (.hash m))
    (hfield : params[2]? = some field) : YHash.hget params w =
      .ok .ok ⟨w.store, w.reply ++ match m.lookup field with
        | some val => formatBulk val
        | none => formatNull⟩ := by
  cases hlookup : m.lookup field <;>
    simp [YHash.hget, getHash, param_run _ hkey, param_run _ hfield,
      getValueByType_run (t := .hash) hget rfl, YObject.castHash, hlookup]

theorem hget_absent (hkey : params[1]? = some key) (hget : w.store.getObject key = none) :
    YHash.hget params w = .ok .type ⟨w.store, w.reply ++ errorType⟩ := by
  simp [YHash.hget, getHash, param_run _ hkey, getValueByType_absent hget]

theorem hget_other {obj : YObject} (hkey : params[1]? = some key)
    (hget : w.store.getObject key = some obj) (ht : obj.type ≠ .hash) :
    YHash.hget params w = .ok .type ⟨w.store, w.reply ++ errorType⟩ := by
  simp [YHash.hget, getHash, param_run _ hkey, getValueByType_other hget ht]

end YHash

namespace YSortedSet

variable {env : Env}

theorem addMember_run {z : YSortedSet} {member : Bytes} (h : z.findMember member = none)
    (score : Score) : addMember z member score w =
      .ok ⟨insertScore member score z.score2Members, z.member2Scores.insert member score⟩ w := by
  simp [addMember, h]

/-- The sorted set with the pairs whose member it lacks. -/
def addPairs (env : Env) : List Bytes → YSortedSet → YSortedSet
  | score :: member :: rest, z =>
    if (z.findMember member).isSome then addPairs env rest z
    else addPairs env rest ⟨insertScore member (env.atof score) z.score2Members,
      z.member2Scores.insert member (env.atof score)⟩
  | _, z => z

/-- The members that a list of pairs names. -/
def pairMembers : List Bytes → List Bytes
  | _ :: member :: rest => member :: pairMembers rest
  | _ => []

theorem addPairs_short (env : Env) {pairs : List Bytes} (z : YSortedSet)
    (h : ∀ (score member : Bytes) (rest : List Bytes), pairs = score :: member :: rest → False) :
    addPairs env pairs z = z ∧ pairMembers pairs = [] := by
  match pairs with
  | [] => exact ⟨rfl, rfl⟩
  | [score] => exact ⟨rfl, rfl⟩
  | score :: member :: rest => exact (h score member rest rfl).elim

theorem findMember_insert (z : YSortedSet) (scores : List (Score × Finset Bytes)) (member m : Bytes)
    (score : Score) : (⟨scores, z.member2Scores.insert member score⟩ : YSortedSet).findMember m =
      if m = member then some score else z.findMember m := by
  unfold findMember
  split_ifs with h
  · rw [h, Finmap.lookup_insert]
  · rw [Finmap.lookup_insert_of_ne _ h]

/-- The number of members in `m_Member2Scores`. -/
def memberCount (z : YSortedSet) : ℕ := z.member2Scores.keys.card

theorem memberCount_insert {z : YSortedSet} {member : Bytes} (h : z.findMember member = none)
    (scores : List (Score × Finset Bytes)) (score : Score) :
    memberCount ⟨scores, z.member2Scores.insert member score⟩ = memberCount z + 1 := by
  have hkeys : (z.member2Scores.insert member score).keys = insert member z.member2Scores.keys := by
    ext m
    rw [Finmap.mem_keys, Finmap.mem_insert, Finset.mem_insert, Finmap.mem_keys]
  have hnew : member ∉ z.member2Scores.keys := by
    rw [Finmap.mem_keys, ← Finmap.lookup_eq_none]
    exact h
  rw [memberCount, hkeys, Finset.card_insert_of_notMem hnew, memberCount]

/-- The loop of `zadd` fails no assertion and counts the members that are added. -/
theorem addAll_run (env : Env) (w : World) (pairs : List Bytes) (z : YSortedSet) (n : ℕ) :
    ∃ n' : ℕ, n' + z.memberCount = n + (addPairs env pairs z).memberCount ∧
      addAll env pairs z n w = .ok (addPairs env pairs z, n') w := by
  induction pairs, z, n using addAll.induct with
  | case1 score member rest z n hnew ih =>
      obtain ⟨n', hcount, hrun⟩ := ih ⟨insertScore member (env.atof score) z.score2Members,
        z.member2Scores.insert member (env.atof score)⟩
      rw [memberCount_insert hnew] at hcount
      simp [addAll, addPairs, hnew, addMember_run hnew]
      exact ⟨n', by omega, hrun⟩
  | case2 score member rest z n s hold ih =>
      obtain ⟨n', hcount, hrun⟩ := ih
      simp [addAll, addPairs, hold]
      exact ⟨n', hcount, hrun⟩
  | case3 pairs z n hshort =>
      refine ⟨n, ?_⟩
      rw [(addPairs_short env z hshort).1]
      refine ⟨rfl, ?_⟩
      unfold addAll
      split
      · rename_i score member rest
        exact absurd rfl (hshort score member rest)
      · rfl

theorem findMember_addPairs (env : Env) (pairs : List Bytes) (z : YSortedSet) (m : Bytes) :
    (addPairs env pairs z).findMember m = none ↔ z.findMember m = none ∧ m ∉ pairMembers pairs := by
  induction pairs, z using addPairs.induct env with
  | case1 score member rest z hold ih =>
      rw [addPairs, if_pos hold, ih, pairMembers, List.mem_cons, not_or]
      constructor
      · rintro ⟨hnone, hrest⟩
        refine ⟨hnone, ?_, hrest⟩
        rintro rfl
        simp [hnone] at hold
      · rintro ⟨hnone, -, hrest⟩
        exact ⟨hnone, hrest⟩
  | case2 score member rest z hnew ih =>
      rw [addPairs, if_neg hnew, ih, findMember_insert, pairMembers, List.mem_cons]
      by_cases hm : m = member
      · simp [hm]
      · simp [hm]
  | case3 pairs z hshort =>
      obtain ⟨hsame, hmembers⟩ := addPairs_short env z hshort
      simp [hsame, hmembers]

/-- The sorted set stays as it was exactly when it has all the members named. -/
theorem addPairs_eq_self (env : Env) (pairs : List Bytes) (z : YSortedSet) :
    addPairs env pairs z = z ↔ ∀ m ∈ pairMembers pairs, z.findMember m ≠ none := by
  constructor
  · intro heq m hm hnone
    have hadd := (findMember_addPairs env pairs z m).not.mpr fun h => h.2 hm
    rw [heq] at hadd
    exact hadd hnone
  · intro hall
    induction pairs, z using addPairs.induct env with
    | case1 score member rest z hold ih =>
        rw [addPairs, if_pos hold]
        exact ih fun m hm => hall m (by rw [pairMembers]; exact List.mem_cons_of_mem _ hm)
    | case2 score member rest z hnew ih =>
        have hmember := hall member (by rw [pairMembers]; exact List.mem_cons_self)
        exact absurd (Option.isSome_iff_ne_none.mpr hmember) hnew
    | case3 pairs z hshort => exact (addPairs_short env z hshort).1

theorem zadd_odd (hodd : params.length % 2 ≠ 0) :
    zadd env params w = .ok .syntaxError ⟨w.store, w.reply ++ ascii "-ERR syntax error\r\n"⟩ := by
  simp [zadd, hodd]

theorem zadd_sset (env : Env) {z : YSortedSet} (heven : params.length % 2 = 0)
    (hkey : params[1]? = some key)
    (hget : w.store.getObject key = some (.sset z)) :
    ∃ n' : ℕ, n' + z.memberCount = (addPairs env (params.drop 2) z).memberCount ∧
      zadd env params w = .ok .ok ⟨w.store.setValue key (.sset (addPairs env (params.drop 2) z)),
        w.reply ++ formatInt n'⟩ := by
  obtain ⟨n', hcount, hrun⟩ := addAll_run env w (params.drop 2) z 0
  rw [Nat.zero_add] at hcount
  refine ⟨n', hcount, ?_⟩
  simp [zadd, heven, getOrCreateSortedset, param_run _ hkey,
    getValueByType_run (t := .sortedSet) hget rfl, YObject.castSortedSet, hrun]

theorem zadd_absent (env : Env) (heven : params.length % 2 = 0) (hkey : params[1]? = some key)
    (hget : w.store.getObject key = none) :
    ∃ n' : ℕ, n' = (addPairs env (params.drop 2) {}).memberCount ∧
      zadd env params w = .ok .ok ⟨(w.store.setValue key .createSSet).setValue key
        (.sset (addPairs env (params.drop 2) {})), w.reply ++ formatInt n'⟩ := by
  obtain ⟨n', hcount, hrun⟩ :=
    addAll_run env ⟨w.store.setValue key .createSSet, w.reply⟩ (params.drop 2) {} 0
  have hempty : memberCount {} = 0 := rfl
  rw [Nat.zero_add, hempty, Nat.add_zero] at hcount
  refine ⟨n', hcount, ?_⟩
  simp [zadd, heven, getOrCreateSortedset, param_run _ hkey, getValueByType_absent hget,
    YObject.castSortedSet, YObject.createSSet] at hrun ⊢
  rw [hrun]

/-- With a key of another type the null pointer is used. -/
theorem zadd_other {obj : YObject} (heven : params.length % 2 = 0) (hkey : params[1]? = some key)
    (hget : w.store.getObject key = some obj) (ht : obj.type ≠ .sortedSet) :
    zadd env params w = .error .nullObject ⟨w.store, w.reply ++ errorType⟩ := by
  simp [zadd, heven, getOrCreateSortedset, param_run _ hkey, getValueByType_other hget ht]

end YSortedSet

end Yedis
