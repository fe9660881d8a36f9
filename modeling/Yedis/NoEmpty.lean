import Yedis.KeySpace
import Yedis.Runs

/-!
# Empty containers

`LPUSH`, `RPUSH`, `SADD` and `ZADD` create the container of a new key before they look
for elements, so given a key and nothing else they leave an empty one. No other
command does, and `pop` fails its assertion on an empty list only.
-/

namespace Yedis
open YList YSet YSortedSet Runs

def YObject.IsEmpty : YObject → Prop
  | list l => l = []
  | set m => m = ∅
  | hash m => m = ∅
  | sset z => z.member2Scores = ∅
  | _ => False

/-- No key of the selected database, the only one there is, holds an empty container. -/
def NoEmpty (s : YStore) : Prop := ∀ key obj, s.getObject key = some obj → ¬ obj.IsEmpty

theorem member2Scores_eq_empty (z : YSortedSet) :
    z.member2Scores = ∅ ↔ ∀ m, z.findMember m = none := by
  constructor
  · intro h m
    rw [findMember, h, Finmap.lookup_empty]
  · intro h
    apply Finmap.ext_lookup
    intro m
    rw [Finmap.lookup_empty]
    exact h m

theorem addPairs_eq_empty (env : Env) (pairs : List Bytes) (z : YSortedSet) :
    (addPairs env pairs z).member2Scores = ∅ ↔ z.member2Scores = ∅ ∧ pairMembers pairs = [] := by
  rw [member2Scores_eq_empty, member2Scores_eq_empty, List.eq_nil_iff_forall_not_mem, ← forall_and]
  exact forall_congr' fun m => findMember_addPairs env pairs z m

theorem pairMembers_eq_nil (pairs : List Bytes) : pairMembers pairs = [] ↔ pairs.length < 2 := by
  match pairs with
  | [] => simp [pairMembers]
  | [score] => simp [pairMembers]
  | score :: member :: rest => simp [pairMembers]

/-- The commands that create a container before they look for elements. -/
def Command.creates : Command → Prop
  | .LPUSH => True
  | .RPUSH => True
  | .SADD => True
  | .ZADD => True
  | _ => False

/-- A creating command is given something besides a key that does not exist yet. -/
def Fills (s : YStore) (params : List Bytes) : Prop :=
  ∀ c key, addressed params = some (c, key) → c.creates →
    s.getObject key ≠ none ∨ 2 < params.length

/-- The object a change leaves, if any, is no empty container. -/
def Change.Sound (bound : Option YObject) (change : Change) : Prop :=
  ∀ obj, change.result bound = some obj → ¬ obj.IsEmpty

theorem noEmpty_apply {s : YStore} (hsel : s.Selected) (hne : NoEmpty s) (key : Bytes)
    (change : Change) : NoEmpty (change.apply s key) ↔ change.Sound (s.getObject key) := by
  constructor
  · intro h obj hobj
    apply h key obj
    rw [Change.getObject_apply hsel, if_pos rfl]
    exact hobj
  · intro h k obj hobj
    rw [Change.getObject_apply hsel] at hobj
    split_ifs at hobj with hk
    · exact h obj hobj
    · exact hne k obj hobj

section Changes
variable {bound : Option YObject}

theorem sound_remove : Change.remove.Sound bound := by
  intro obj hobj
  cases hobj

theorem sound_bind (obj : YObject) : (Change.bind obj).Sound bound ↔ ¬ obj.IsEmpty := by
  simp [Change.Sound, Change.result]

theorem setChange_sound (hb : ∀ obj, bound = some obj → ¬ obj.IsEmpty) (value : Option Bytes) :
    (setChange value).Sound bound := by
  cases value with
  | none => exact hb
  | some v =>
      apply (sound_bind _).mpr
      unfold YObject.createString
      cases stringToLong v <;> exact id

theorem setnxChange_sound (hb : ∀ obj, bound = some obj → ¬ obj.IsEmpty) (value : Option Bytes) :
    (setnxChange value bound).Sound bound := by
  cases value with
  | none => exact hb
  | some v =>
      cases bound with
      | none => exact setChange_sound hb (some v)
      | some obj => exact hb

theorem pushChange_sound (hb : ∀ obj, bound = some obj → ¬ obj.IsEmpty) (pos : ListPosition)
    (create : Bool) (elements : List Bytes) : (pushChange pos create elements bound).Sound bound ↔
      (create = true → bound ≠ none ∨ elements ≠ []) := by
  cases bound with
  | none =>
      cases create with
      | true =>
          rw [pushChange, if_pos rfl, sound_bind]
          simp [YObject.IsEmpty, pushAll_eq_nil]
      | false => exact iff_of_true hb (by simp)
  | some obj =>
      refine iff_of_true ?_ (by simp)
      cases obj with
      | list l =>
          refine (sound_bind _).mpr fun hnil => ?_
          exact hb _ rfl ((pushAll_eq_nil _ _ _).mp hnil).1
      | _ => exact hb

theorem popChange_sound (hb : ∀ obj, bound = some obj → ¬ obj.IsEmpty) (pos : ListPosition) :
    (popChange pos bound).Sound bound := by
  unfold popChange
  split
  · split_ifs with hnil
    · exact sound_remove
    · exact (sound_bind _).mpr hnil
  · exact hb

theorem saddChange_sound (hb : ∀ obj, bound = some obj → ¬ obj.IsEmpty) (members : List Bytes) :
    (saddChange members bound).Sound bound ↔ bound ≠ none ∨ members ≠ [] := by
  cases bound with
  | none =>
      rw [saddChange, sound_bind]
      simp [YObject.IsEmpty, insertAll_fst]
  | some obj =>
      refine iff_of_true ?_ (by simp)
      cases obj with
      | set m =>
          refine (sound_bind _).mpr fun hempty => ?_
          rw [YObject.IsEmpty, insertAll_fst, Finset.union_eq_empty] at hempty
          exact hb _ rfl hempty.1
      | _ => exact hb

theorem spopChange_sound (hb : ∀ obj, bound = some obj → ¬ obj.IsEmpty) (env : Env) :
    (spopChange env bound).Sound bound := by
  unfold spopChange
  split
  · split_ifs with hempty hlast
    · exact hb
    · exact sound_remove
    · exact (sound_bind _).mpr hlast
  · exact hb

theorem hsetChange_sound (hb : ∀ obj, bound = some obj → ¬ obj.IsEmpty) (field val : Option Bytes)
    (hnew : bound = none → field ≠ none ∧ val ≠ none) : (hsetChange field val bound).Sound bound := by
  have hinsert : ∀ (m : Finmap fun _ : Bytes => Bytes) (field val : Bytes),
      ¬ (YObject.hash (m.insert field val)).IsEmpty := by
    intro m field val hempty
    have hlookup := congrArg (Finmap.lookup field) hempty
    rw [Finmap.lookup_insert, Finmap.lookup_empty] at hlookup
    cases hlookup
  cases field with
  | none =>
      cases bound with
      | none => exact absurd rfl (hnew rfl).1
      | some obj => cases obj <;> exact hb
  | some field =>
      cases val with
      | none =>
          cases bound with
          | none => exact absurd rfl (hnew rfl).2
          | some obj => cases obj <;> exact hb
      | some val =>
          cases bound with
          | none => exact (sound_bind _).mpr (hinsert ∅ field val)
          | some obj =>
              cases obj with
              | hash m => exact (sound_bind _).mpr (hinsert m field val)
              | _ => exact hb

theorem zaddChange_sound (hb : ∀ obj, bound = some obj → ¬ obj.IsEmpty) (env : Env)
    {params : List Bytes} (hlen : 1 < params.length) :
    (zaddChange env params bound).Sound bound ↔ bound ≠ none ∨ 2 < params.length := by
  have hpairs : pairMembers (params.drop 2) = [] ↔ params.length < 4 := by
    rw [pairMembers_eq_nil, List.length_drop]
    omega
  cases bound with
  | none =>
      rw [zaddChange]
      split_ifs with heven
      · rw [sound_bind, YObject.IsEmpty, addPairs_eq_empty, hpairs]
        simp
        omega
      · refine iff_of_true hb (Or.inr ?_)
        omega
  | some obj =>
      refine iff_of_true ?_ (by simp)
      cases obj with
      | sset z =>
          rw [zaddChange]
          split_ifs with heven
          · refine (sound_bind _).mpr fun hempty => ?_
            exact hb _ rfl ((addPairs_eq_empty env _ z).mp hempty).1
          · exact hb
      | _ => exact hb

end Changes

/-- `HSET` of a new key runs to its end only if it is given a field and a value. -/
theorem hset_completes {env : Env} {params : List Bytes} {s : YStore} {key : Bytes} {b : Bool}
    {w : World} (hname : params[0]? = some Command.HSET.name) (hkey : params[1]? = some key)
    (h : execCommand env params ⟨s, []⟩ = .ok b w) (hget : s.getObject key = none) :
    params[2]? ≠ none ∧ params[3]? ≠ none := by
  have hval : params[3]? ≠ none := by
    intro hval
    rw [execCommand_run hname (getCommand_name _), Command.handler,
      YHash.hset_absent_missing hkey hget hval] at h
    cases h
  refine ⟨?_, hval⟩
  rw [ne_eq, List.getElem?_eq_none_iff] at hval ⊢
  omega

/-- Among non-empty containers, what a command leaves is no empty one exactly when it is given
something to fill a container that it creates. -/
theorem change_sound {bound : Option YObject} (hb : ∀ obj, bound = some obj → ¬ obj.IsEmpty)
    (env : Env) {params : List Bytes} (hlen : 1 < params.length) (c : Command)
    (hset : c = .HSET → bound = none → params[2]? ≠ none ∧ params[3]? ≠ none) :
    (c.change env params bound).Sound bound ↔
      (c.creates → bound ≠ none ∨ 2 < params.length) := by
  have helements : params.drop 2 ≠ [] ↔ 2 < params.length := by
    rw [ne_eq, List.drop_eq_nil_iff, not_le]
  cases c with
  | set => exact iff_of_true (setChange_sound hb _) (by simp [Command.creates])
  | setnx => exact iff_of_true (setnxChange_sound hb _) (by simp [Command.creates])
  | LPUSH =>
      rw [Command.change, pushChange_sound hb, helements]
      simp [Command.creates]
  | RPUSH =>
      rw [Command.change, pushChange_sound hb, helements]
      simp [Command.creates]
  | LPUSHX =>
      rw [Command.change, pushChange_sound hb]
      simp [Command.creates]
  | RPUSHX =>
      rw [Command.change, pushChange_sound hb]
      simp [Command.creates]
  | LPOP => exact iff_of_true (popChange_sound hb _) (by simp [Command.creates])
  | RPOP => exact iff_of_true (popChange_sound hb _) (by simp [Command.creates])
  | SADD =>
      rw [Command.change, saddChange_sound hb, helements]
      simp [Command.creates]
  | SPOP => exact iff_of_true (spopChange_sound hb _) (by simp [Command.creates])
  | HSET => exact iff_of_true (hsetChange_sound hb _ _ (hset rfl)) (by simp [Command.creates])
  | ZADD =>
      rw [Command.change, zaddChange_sound hb env hlen]
      simp [Command.creates]
  | _ => exact iff_of_true hb (by simp [Command.creates])

/-- A command that ends leaves no empty container exactly when it fills what it creates. -/
theorem CallStep.noEmpty {s s' : YStore} {call : Call} (h : CallStep s call s')
    (hsel : s.Selected) (hne : NoEmpty s) : NoEmpty s' ↔ Fills s call.params := by
  obtain ⟨env, hstore⟩ := h.store hsel
  cases haddr : addressed call.params with
  | none =>
      rw [haddr] at hstore
      rw [hstore]
      exact iff_of_true hne (by simp [Fills, haddr])
  | some pair =>
      obtain ⟨c, key⟩ := pair
      rw [haddr] at hstore
      simp only at hstore
      obtain ⟨hname, hkey⟩ := addressed_eq_some haddr
      obtain ⟨env', b, hexec⟩ := h
      have hset : c = .HSET → s.getObject key = none →
          call.params[2]? ≠ none ∧ call.params[3]? ≠ none := by
        rintro rfl
        exact hset_completes hname hkey hexec
      rw [hstore, noEmpty_apply hsel hne,
        change_sound (hne key) env (List.getElem?_eq_some_iff.mp hkey).1 c hset]
      simp [Fills, haddr]

/-- Where no list is empty the assertion of `pop` holds. -/
theorem pop_completes {w : World} (h : NoEmpty w.store) (key : Bytes) (pos : ListPosition) :
    ∃ r w', YList.pop key pos w = .ok r w' := by
  cases hget : w.store.getObject key with
  | none => exact ⟨.error .notExist, w, by simp [pop, getValueByType_absent hget]⟩
  | some obj =>
      by_cases ht : obj.type = .list
      · obtain ⟨l, rfl⟩ := type_list ht
        cases l with
        | nil => exact absurd rfl (h key _ hget)
        | cons front rest =>
            rcases hp : takeElement pos front rest with ⟨result, list⟩
            by_cases hnil : list = [] <;>
              simp [pop, getValueByType_run (t := .list) hget rfl, YObject.castList, hp, hnil]
      · exact ⟨.error .type, w, by simp [pop, getValueByType_other hget ht]⟩

/-- In a run of commands no state has an empty container if and only if every creating command
fills what it creates; then the assertion of `pop` holds in all these states. -/
theorem no_empty_containers {trace : List (Transition YStore Call)} {s : YStore}
    (run : Run CallStep .start trace s) :
    ((∀ t ∈ trace, NoEmpty t.dst) ↔ ∀ t ∈ trace, Fills t.src t.label.params) ∧
      ((∀ t ∈ trace, Fills t.src t.label.params) → NoEmpty s ∧ ∀ key pos reply,
        ∃ r w', YList.pop key pos ⟨s, reply⟩ = .ok r w') := by
  have hstart : NoEmpty .start := by
    intro key obj hobj
    rw [YStore.getObject_start] at hobj
    cases hobj
  have hiff := run.always_iff (I := YStore.Selected) (P := NoEmpty)
    (Q := fun s call => Fills s call.params) YStore.selected_start
    (fun _ _ _ hsel hstep => hstep.selected hsel) hstart
    (fun _ _ _ hsel hne hstep => hstep.noEmpty hsel hne)
  refine ⟨hiff, fun hfills => ?_⟩
  have hne := run.last_of_all hstart (hiff.mpr hfills)
  exact ⟨hne, fun key pos reply => pop_completes (w := ⟨s, reply⟩) hne key pos⟩

/-- A push onto a new key. -/
theorem callStep_lpush (elements : List Bytes) :
    ∃ reply, CallStep .start ⟨ascii "LPUSH" :: ascii "k" :: elements, reply⟩
      ((YStore.start.setValue (ascii "k") .createList).setValue (ascii "k")
        (.list (pushAll .head [] elements))) := by
  have hrun : push (ascii "LPUSH" :: ascii "k" :: elements) .head true ⟨.start, []⟩ = _ :=
    push_create rfl (YStore.getObject_start (ascii "k")) .head
  exact ⟨_, default, true, execCommand_ok (c := .LPUSH) rfl hrun⟩

/-- After `LPUSH k v` there is no empty container. -/
theorem no_empty_containers_lpush : ∃ s reply,
    CallStep .start ⟨[ascii "LPUSH", ascii "k", ascii "v"], reply⟩ s ∧ NoEmpty s := by
  obtain ⟨reply, hstep⟩ := callStep_lpush [ascii "v"]
  refine ⟨_, reply, hstep, ((no_empty_containers (.next .start hstep)).2 ?_).1⟩
  intro t ht
  rw [List.mem_singleton] at ht
  rw [ht]
  exact fun _ _ _ _ => Or.inr (by simp)

/-- `LPUSH k` leaves an empty list, on which the next `LPOP k` fails its assertion. -/
theorem no_empty_containers_fails : ∃ s reply,
    CallStep .start ⟨[ascii "LPUSH", ascii "k"], reply⟩ s ∧ ¬ NoEmpty s ∧
      YList.pop (ascii "k") .head ⟨s, []⟩ = .error .assertion ⟨s, []⟩ := by
  obtain ⟨reply, hstep⟩ := callStep_lpush []
  have hget : ((YStore.start.setValue (ascii "k") .createList).setValue (ascii "k")
      (.list (pushAll .head [] []))).getObject (ascii "k") = some (.list []) := by
    rw [YStore.getObject_setValue (YStore.selected_start.setValue _ _), if_pos rfl]
    rfl
  exact ⟨_, reply, hstep, fun hne => hne _ _ hget rfl, pop_empty hget .head⟩

end Yedis
