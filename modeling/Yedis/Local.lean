import Yedis.KeySpace
import Yedis.TwoRuns

/-!
# A handler looks at its key only

Run in two stores that agree on the key it is given, a handler answers the same and
leaves stores that agree on that key.
-/

namespace Yedis
open TwoRuns YString YList YSet YHash YSortedSet

/-- Two worlds that agree on a key and on what was replied. -/
structure SameAt (key : Bytes) (w w' : World) : Prop where
  selected : w.store.Selected
  selected' : w'.store.Selected
  object : w.store.getObject key = w'.store.getObject key
  reply : w.reply = w'.reply

/-- The computation depends on the key only. -/
abbrev Local {α : Type} (key : Bytes) (x : Exec α) : Prop := Alike (SameAt key) x x

section Primitives
variable {key : Bytes}

theorem param_eq_pure {params : List Bytes} {i : ℕ} {p : Bytes} (h : params[i]? = some p) :
    param params i = pure p := by
  rw [param, h]

theorem local_param (params : List Bytes) (i : ℕ) : Local key (param params i) := by
  unfold param
  cases params[i]? with
  | none => exact .throw _
  | some p => exact .pure p

theorem local_pushData (data : Bytes) : Local key (pushData data) := by
  refine .modify fun w w' h => ?_
  exact { h with reply := by simp only [h.reply] }

theorem local_getValueByType (type : YType) : Local key (getValueByType key type) := by
  refine .read fun w w' h => ?_
  rw [YStore.getValueByType, YStore.getValueByType, h.object]

theorem local_setValue (value : YObject) :
    Local key (modifyStore fun store => store.setValue key value) := by
  refine .modify fun w w' h => ?_
  exact
    { selected := h.selected.setValue key value
      selected' := h.selected'.setValue key value
      object := by
        rw [YStore.getObject_setValue h.selected, YStore.getObject_setValue h.selected',
          if_pos rfl, if_pos rfl]
      reply := h.reply }

theorem local_deleteKey : Local key (modifyStore fun store => store.deleteKey key) := by
  refine .modify fun w w' h => ?_
  exact
    { selected := h.selected.deleteKey key
      selected' := h.selected'.deleteKey key
      object := by
        rw [YStore.getObject_deleteKey h.selected, YStore.getObject_deleteKey h.selected',
          if_pos rfl, if_pos rfl]
      reply := h.reply }

end Primitives

section Handlers
variable {key : Bytes} {params : List Bytes}

theorem local_getCmd (hkey : params[1]? = some key) : Local key (getCmd params) := by
  rw [getCmd, param_eq_pure hkey, pure_bind]
  refine (local_getValueByType .string).bind fun r => ?_
  cases r with
  | error err =>
      simp only
      split_ifs with herr
      · exact (local_pushData _).bind fun _ => .pure _
      · exact (local_pushData _).bind fun _ => .pure _
  | ok value => exact (local_pushData _).bind fun _ => .pure _

theorem local_setValueOf (value : Bytes) (exclusive : Bool) :
    Local key (YString.setValue key value exclusive) := by
  have hstore : Local key (do
      modifyStore fun store => store.setValue key (.createString value)
      return true) := (local_setValue _).bind fun _ => .pure _
  cases exclusive with
  | false => exact hstore
  | true =>
      refine .get_bind fun w w' h => ?_
      have hvalue : w.store.getValue key = w'.store.getValue key := by
        rw [YStore.getValue, YStore.getValue, YStore.getValueByType, YStore.getValueByType,
          h.object]
      rw [hvalue]
      cases w'.store.getValue key with
      | error err => exact hstore w w' h
      | ok obj => exact .ok false h

theorem local_setCmd (hkey : params[1]? = some key) : Local key (setCmd params) := by
  rw [setCmd, param_eq_pure hkey, pure_bind]
  exact (local_param params 2).bind fun value => (local_setValueOf value false).bind fun _ =>
    (local_pushData _).bind fun _ => .pure _

theorem local_setnxCmd (hkey : params[1]? = some key) : Local key (setnxCmd params) := by
  rw [setnxCmd, param_eq_pure hkey, pure_bind]
  refine (local_param params 2).bind fun value => ?_
  refine (local_setValueOf value true).bind fun stored => ?_
  cases stored with
  | true => exact (local_pushData _).bind fun _ => .pure _
  | false => exact (local_pushData _).bind fun _ => .pure _

theorem local_push (hkey : params[1]? = some key) (pos : ListPosition) (create : Bool) :
    Local key (push params pos create) := by
  rw [push, param_eq_pure hkey, pure_bind]
  have hstore : ∀ list : List Bytes, Local key (do
      modifyStore fun store => store.setValue key (.list list)
      pushData (formatInt list.length)
      return YError.ok) := fun list =>
    (local_setValue _).bind fun _ => (local_pushData _).bind fun _ => .pure _
  refine (local_getValueByType .list).bind fun r => ?_
  cases r with
  | error err =>
      simp only
      split_ifs with herr hcreate
      · exact (local_pushData _).bind fun _ => .pure _
      · exact (local_setValue _).bind fun _ => hstore _
      · exact (local_pushData _).bind fun _ => .pure _
  | ok value => exact hstore _

theorem local_pop (pos : ListPosition) : Local key (pop key pos) := by
  refine (local_getValueByType .list).bind fun r => ?_
  cases r with
  | error err => exact .pure _
  | ok value =>
      simp only
      cases value.castList with
      | nil => exact .throw _
      | cons front rest =>
          simp only
          split_ifs with hlast
          · exact local_deleteKey.bind fun _ => .pure _
          · exact (local_setValue _).bind fun _ => .pure _

theorem local_popCmd (hkey : params[1]? = some key) (pos : ListPosition) :
    Local key (popCmd pos params) := by
  rw [popCmd, param_eq_pure hkey, pure_bind]
  refine (local_pop pos).bind fun r => ?_
  cases r with
  | error err => exact .pure _
  | ok result => exact (local_pushData _).bind fun _ => .pure _

theorem local_llen (hkey : params[1]? = some key) : Local key (llen params) := by
  rw [llen, param_eq_pure hkey, pure_bind]
  refine (local_getValueByType .list).bind fun r => ?_
  cases r with
  | error err =>
      simp only
      split_ifs with herr
      · exact (local_pushData _).bind fun _ => .pure _
      · exact (local_pushData _).bind fun _ => .pure _
  | ok value => exact (local_pushData _).bind fun _ => .pure _

theorem local_index2Iterator (start stop : ℤ) (list : List Bytes) :
    Local key (index2Iterator start stop list) := by
  unfold index2Iterator
  split_ifs with hhalf hassert hassert
  · exact .pure _
  · exact (Alike.throw _).bind fun _ => .pure _
  · exact .pure _
  · exact (Alike.throw _).bind fun _ => .pure _

theorem local_getRange (start stop : ℤ) (list : List Bytes) :
    Local key (getRange start stop list) := by
  unfold getRange
  split_ifs with hempty hpart
  · exact .pure _
  · exact (local_index2Iterator start stop list).bind fun _ => .pure _
  · exact .pure _

theorem local_lrange (hkey : params[1]? = some key) : Local key (lrange params) := by
  rw [lrange, param_eq_pure hkey, pure_bind]
  refine (local_getValueByType .list).bind fun r => ?_
  cases r with
  | error err => exact .pure _
  | ok value =>
      refine (local_param params 2).bind fun p => ?_
      cases YedisStrtol p with
      | none => exact .pure _
      | some start =>
          refine (local_param params 3).bind fun q => ?_
          cases YedisStrtol q with
          | none => exact .pure _
          | some stop =>
              exact (local_getRange _ _ _).bind fun _ =>
                (local_pushData _).bind fun _ => (local_pushData _).bind fun _ => .pure _

theorem local_getSet : Local key (getSet key) := by
  refine (local_getValueByType .set).bind fun r => ?_
  cases r with
  | error err =>
      simp only
      split_ifs with herr
      · exact (local_pushData _).bind fun _ => .pure _
      · exact (local_pushData _).bind fun _ => .pure _
  | ok value => exact .pure _

theorem local_creatrOrGetSet : Local key (creatrOrGetSet key) := by
  refine (local_getValueByType .set).bind fun r => ?_
  cases r with
  | error err =>
      simp only
      split_ifs with herr
      · exact (local_pushData _).bind fun _ => .pure _
      · exact (local_setValue _).bind fun _ => .pure _
  | ok value => exact .pure _

theorem local_sadd (hkey : params[1]? = some key) : Local key (sadd params) := by
  rw [sadd, param_eq_pure hkey, pure_bind]
  refine local_creatrOrGetSet.bind fun r => ?_
  cases r with
  | none => exact (local_pushData _).bind fun _ => .pure _
  | some value => exact (local_setValue _).bind fun _ => (local_pushData _).bind fun _ => .pure _

theorem local_scard (hkey : params[1]? = some key) : Local key (scard params) := by
  rw [scard, param_eq_pure hkey, pure_bind]
  refine local_getSet.bind fun r => ?_
  cases r with
  | none => exact (local_pushData _).bind fun _ => .pure _
  | some value => exact (local_pushData _).bind fun _ => .pure _

theorem local_smember (env : Env) (hkey : params[1]? = some key) :
    Local key (smember env params) := by
  rw [smember, param_eq_pure hkey, pure_bind]
  refine local_getSet.bind fun r => ?_
  cases r with
  | none => exact (local_pushData _).bind fun _ => .pure _
  | some value => exact (local_pushData _).bind fun _ => (local_pushData _).bind fun _ => .pure _

theorem local_spop (env : Env) (hkey : params[1]? = some key) : Local key (spop env params) := by
  rw [spop, param_eq_pure hkey, pure_bind]
  refine local_getSet.bind fun r => ?_
  cases r with
  | none => exact (local_pushData _).bind fun _ => .pure _
  | some value =>
      simp only
      split_ifs with hempty hlast
      · exact (local_pushData _).bind fun _ => .pure _
      · exact (local_pushData _).bind fun _ => local_deleteKey.bind fun _ => .pure _
      · exact (local_pushData _).bind fun _ => (local_setValue _).bind fun _ => .pure _

theorem local_getHash : Local key (getHash key) := by
  refine (local_getValueByType .hash).bind fun r => ?_
  cases r with
  | error err => exact (local_pushData _).bind fun _ => .pure _
  | ok value => exact .pure _

theorem local_getOrCreateHash : Local key (getOrCreateHash key) := by
  refine (local_getValueByType .hash).bind fun r => ?_
  cases r with
  | error err =>
      simp only
      split_ifs with herr
      · exact (local_pushData _).bind fun _ => .pure _
      · exact (local_setValue _).bind fun _ => .pure _
  | ok value => exact .pure _

theorem local_hset (hkey : params[1]? = some key) : Local key (YHash.hset params) := by
  rw [YHash.hset, param_eq_pure hkey, pure_bind]
  refine local_getOrCreateHash.bind fun r => ?_
  cases r with
  | none => exact .pure _
  | some value =>
      exact (local_param params 2).bind fun _ => (local_param params 3).bind fun _ =>
        (local_setValue _).bind fun _ => (local_pushData _).bind fun _ => .pure _

theorem local_hget (hkey : params[1]? = some key) : Local key (YHash.hget params) := by
  rw [YHash.hget, param_eq_pure hkey, pure_bind]
  refine local_getHash.bind fun r => ?_
  cases r with
  | none => exact .pure _
  | some value =>
      refine (local_param params 2).bind fun field => ?_
      simp only
      cases value.castHash.lookup field with
      | none => exact (local_pushData _).bind fun _ => .pure _
      | some val => exact (local_pushData _).bind fun _ => .pure _

theorem local_getOrCreateSortedset : Local key (getOrCreateSortedset key) := by
  refine (local_getValueByType .sortedSet).bind fun r => ?_
  cases r with
  | error err =>
      simp only
      split_ifs with herr
      · exact (local_pushData _).bind fun _ => .pure _
      · exact (local_setValue _).bind fun _ => .pure _
  | ok value => exact .pure _

theorem local_addMember (sset : YSortedSet) (member : Bytes) (score : Score) :
    Local key (addMember sset member score) := by
  unfold addMember
  split_ifs with hassert
  · exact (Alike.throw _).bind fun _ => .pure _
  · exact .pure _

theorem local_addAll (env : Env) (pairs : List Bytes) (sset : YSortedSet) (newMembers : ℕ) :
    Local key (addAll env pairs sset newMembers) := by
  induction pairs, sset, newMembers using addAll.induct with
  | case1 score member rest sset newMembers hnew ih =>
      rw [addAll, hnew]
      exact (local_addMember _ _ _).bind fun added => ih added
  | case2 score member rest sset newMembers s hold ih =>
      rw [addAll, hold]
      exact ih
  | case3 pairs sset newMembers hshort =>
      unfold addAll
      split
      · rename_i score member rest
        exact absurd rfl (hshort score member rest)
      · exact .pure _

theorem local_zadd (env : Env) (hkey : params[1]? = some key) : Local key (zadd env params) := by
  unfold zadd
  split_ifs with hodd
  · exact (local_pushData _).bind fun _ => .pure _
  · rw [param_eq_pure hkey, pure_bind]
    refine local_getOrCreateSortedset.bind fun r => ?_
    cases r with
    | none => exact .throw _
    | some value =>
        exact (local_addAll env _ _ _).bind fun _ => (local_setValue _).bind fun _ =>
          (local_pushData _).bind fun _ => .pure _

theorem local_command : Local key (Command.command params) := by
  refine (local_param params 0).bind fun name => ?_
  simp only
  split_ifs with hname
  · exact (local_pushData _).bind fun _ => .pure _
  · exact .pure _

theorem local_handler (env : Env) (c : Command) (hkey : params[1]? = some key) :
    Local key (c.handler env params) := by
  cases c with
  | COMMAND => exact local_command
  | set => exact local_setCmd hkey
  | get => exact local_getCmd hkey
  | setnx => exact local_setnxCmd hkey
  | LPUSH => exact local_push hkey .head true
  | RPUSH => exact local_push hkey .tail true
  | LPUSHX => exact local_push hkey .head false
  | RPUSHX => exact local_push hkey .tail false
  | LPOP => exact local_popCmd hkey .head
  | RPOP => exact local_popCmd hkey .tail
  | LLEN => exact local_llen hkey
  | LRANGE => exact local_lrange hkey
  | SADD => exact local_sadd hkey
  | SCARD => exact local_scard hkey
  | SMEMBERS => exact local_smember env hkey
  | SPOP => exact local_spop env hkey
  | HGET => exact local_hget hkey
  | HSET => exact local_hset hkey
  | ZADD => exact local_zadd env hkey

/-- A command depends on the key it is addressed to only. -/
theorem local_execCommand (env : Env) {c : Command} (haddr : addressed params = some (c, key)) :
    Local key (execCommand env params) := by
  have hkey := (addressed_eq_some haddr).2
  refine (local_param params 0).bind fun cmd => ?_
  cases getCommand cmd with
  | none => exact (local_pushData _).bind fun _ => .pure _
  | some temp => exact (local_handler env temp hkey).bind fun _ => .pure _

end Handlers

end Yedis
