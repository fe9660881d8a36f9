import Yedis.Command

/-!
# The key space

What each command is for: it reads the object bound to its key and keeps, replaces
or removes it. `handler_store` says that the handlers do just that, also when they
stop with a fault.
-/

namespace Yedis

/-- What happens to the key of a command. -/
inductive Change
  | keep
  | bind (obj : YObject)
  | remove

def Change.apply (s : YStore) (key : Bytes) : Change → YStore
  | keep => s
  | bind obj => s.setValue key obj
  | remove => s.deleteKey key

/-- The object the key is bound to afterwards. -/
def Change.result (bound : Option YObject) : Change → Option YObject
  | keep => bound
  | bind obj => some obj
  | remove => none

theorem Change.selected_apply {s : YStore} (h : s.Selected) (key : Bytes) (change : Change) :
    (change.apply s key).Selected := by
  cases change with
  | keep => exact h
  | bind obj => exact h.setValue key obj
  | remove => exact h.deleteKey key

theorem Change.getObject_apply {s : YStore} (h : s.Selected) (key k : Bytes) (change : Change) :
    (change.apply s key).getObject k =
      if k = key then change.result (s.getObject key) else s.getObject k := by
  cases change with
  | keep =>
      split_ifs with hk
      · rw [hk]
        rfl
      · rfl
  | bind obj => exact YStore.getObject_setValue h key k obj
  | remove => exact YStore.getObject_deleteKey h key k

theorem Change.apply_eq_self {s : YStore} (h : s.Selected) (key : Bytes) (change : Change) :
    change.apply s key = s ↔ change.result (s.getObject key) = s.getObject key := by
  cases change with
  | keep => exact iff_of_true rfl rfl
  | bind obj => exact (YStore.setValue_eq_self h key obj).trans eq_comm
  | remove => exact (YStore.deleteKey_eq_self h key).trans eq_comm

open YList YSet YSortedSet

def pushChange (pos : ListPosition) (create : Bool) (elements : List Bytes) :
    Option YObject → Change
  | none => if create then .bind (.list (pushAll pos [] elements)) else .keep
  | some (.list l) => .bind (.list (pushAll pos l elements))
  | some _ => .keep

def popChange (pos : ListPosition) : Option YObject → Change
  | some (.list (front :: rest)) =>
    if (takeElement pos front rest).2 = [] then .remove
    else .bind (.list (takeElement pos front rest).2)
  | _ => .keep

def setChange : Option Bytes → Change
  | some value => .bind (.createString value)
  | none => .keep

def setnxChange : Option Bytes → Option YObject → Change
  | some value, none => .bind (.createString value)
  | _, _ => .keep

def saddChange (members : List Bytes) : Option YObject → Change
  | none => .bind (.set (insertAll ∅ members).1)
  | some (.set m) => .bind (.set (insertAll m members).1)
  | some _ => .keep

def spopChange (env : Env) : Option YObject → Change
  | some (.set m) =>
    if m = ∅ then .keep
    else if m.erase (env.pick m) = ∅ then .remove
    else .bind (.set (m.erase (env.pick m)))
  | _ => .keep

/-- Without a field or a value a new hash is left empty. -/
def hsetChange (field val : Option Bytes) : Option YObject → Change
  | none =>
    match field, val with
    | some field, some val => .bind (.hash ((∅ : Finmap fun _ : Bytes => Bytes).insert field val))
    | _, _ => .bind .createHash
  | some (.hash m) =>
    match field, val with
    | some field, some val => .bind (.hash (m.insert field val))
    | _, _ => .keep
  | some _ => .keep

def zaddChange (env : Env) (params : List Bytes) : Option YObject → Change
  | none =>
    if params.length % 2 = 0 then .bind (.sset (addPairs env (params.drop 2) {})) else .keep
  | some (.sset z) =>
    if params.length % 2 = 0 then .bind (.sset (addPairs env (params.drop 2) z)) else .keep
  | some _ => .keep

/-- The change a command makes, given its parameters and the object its key is bound to. -/
def Command.change (env : Env) (params : List Bytes) (bound : Option YObject) : Command → Change
  | set => setChange params[2]?
  | setnx => setnxChange params[2]? bound
  | LPUSH => pushChange .head true (params.drop 2) bound
  | RPUSH => pushChange .tail true (params.drop 2) bound
  | LPUSHX => pushChange .head false (params.drop 2) bound
  | RPUSHX => pushChange .tail false (params.drop 2) bound
  | LPOP => popChange .head bound
  | RPOP => popChange .tail bound
  | SADD => saddChange (params.drop 2) bound
  | SPOP => spopChange env bound
  | HSET => hsetChange params[2]? params[3]? bound
  | ZADD => zaddChange env params bound
  | _ => .keep

/-- The type of what a command binds. -/
def Command.binds : Command → YType
  | set | setnx => .string
  | LPUSH | RPUSH | LPUSHX | RPUSHX | LPOP | RPOP => .list
  | SADD | SPOP => .set
  | HSET => .hash
  | ZADD => .sortedSet
  | _ => .invalid

theorem Command.type_of_bind {env : Env} {params : List Bytes} {bound : Option YObject}
    {c : Command} {obj : YObject} (h : c.change env params bound = .bind obj) :
    obj.type = c.binds := by
  cases c with
  | set =>
      simp only [change, setChange] at h
      split at h
      · rw [← Change.bind.inj h]
        exact YObject.type_createString _
      · cases h
  | setnx =>
      simp only [change, setnxChange] at h
      split at h
      · rw [← Change.bind.inj h]
        exact YObject.type_createString _
      · cases h
  | LPUSH | RPUSH | LPUSHX | RPUSHX =>
      simp only [change, pushChange] at h
      split at h
      · split_ifs at h
        all_goals
          cases h
          rfl
      · cases h
        rfl
      · cases h
  | LPOP | RPOP =>
      simp only [change, popChange] at h
      split at h
      · split_ifs at h
        cases h
        rfl
      · cases h
  | SADD =>
      simp only [change, saddChange] at h
      split at h
      · cases h
        rfl
      · cases h
        rfl
      · cases h
  | SPOP =>
      simp only [change, spopChange] at h
      split at h
      · split_ifs at h
        cases h
        rfl
      · cases h
  | HSET =>
      simp only [change, hsetChange] at h
      split at h
      · split at h
        · cases h
          rfl
        · cases h
          rfl
      · split at h
        · cases h
          rfl
        · cases h
      · cases h
  | ZADD =>
      simp only [change, zaddChange] at h
      split at h
      · split_ifs at h
        cases h
        rfl
      · split_ifs at h
        cases h
        rfl
      · cases h
  | _ => cases h

/-- The store after the run, however it ended. -/
def storeAfter {α : Type} : EStateM.Result ExecFault World α → YStore
  | .ok _ w => w.store
  | .error _ w => w.store

/-- The computation never writes to the store. -/
def Keeps {α : Type} (x : Exec α) : Prop := ∀ w, storeAfter (x w) = w.store

namespace Keeps
variable {α β : Type}

theorem bind {x : Exec α} {f : α → Exec β} (hx : Keeps x) (hf : ∀ a, Keeps (f a)) :
    Keeps (x >>= f) := by
  intro w
  have hxw := hx w
  rw [exec_bind]
  cases hrun : x w with
  | ok a w' =>
      rw [hrun] at hxw
      exact (hf a w').trans hxw
  | error e w' =>
      rw [hrun] at hxw
      exact hxw

theorem pure (a : α) : Keeps (pure a) := fun _ => rfl

theorem throw (e : ExecFault) : Keeps (throw e : Exec α) := fun _ => rfl

theorem pushData (data : Bytes) : Keeps (pushData data) := fun _ => rfl

theorem param (params : List Bytes) (i : ℕ) : Keeps (param params i) := by
  intro w
  cases h : params[i]? with
  | none => rw [param_none w h, storeAfter]
  | some p => rw [param_run w h, storeAfter]

theorem getValueByType (key : Bytes) (type : YType) : Keeps (getValueByType key type) :=
  fun _ => rfl

theorem getSet (key : Bytes) : Keeps (getSet key) := by
  refine (getValueByType key .set).bind fun r => ?_
  cases r with
  | error err =>
      simp only
      split_ifs with herr
      · exact (pushData _).bind fun _ => pure _
      · exact (pushData _).bind fun _ => pure _
  | ok value => exact pure _

theorem index2Iterator (start stop : ℤ) (list : List Bytes) :
    Keeps (index2Iterator start stop list) := by
  unfold YList.index2Iterator
  split_ifs with hhalf hassert hassert
  · exact pure _
  · exact (throw _).bind fun _ => pure _
  · exact pure _
  · exact (throw _).bind fun _ => pure _

theorem getRange (start stop : ℤ) (list : List Bytes) : Keeps (getRange start stop list) := by
  unfold YList.getRange
  split_ifs with hempty hpart
  · exact pure _
  · exact (index2Iterator start stop list).bind fun _ => pure _
  · exact pure _

theorem command (params : List Bytes) : Keeps (Command.command params) := by
  refine (param params 0).bind fun name => ?_
  simp only
  split_ifs with hname
  · exact (pushData _).bind fun _ => pure _
  · exact pure _

theorem getCmd (params : List Bytes) : Keeps (YString.getCmd params) := by
  refine (param params 1).bind fun key => (getValueByType key .string).bind fun r => ?_
  cases r with
  | error err =>
      simp only
      split_ifs with herr
      · exact (pushData _).bind fun _ => pure _
      · exact (pushData _).bind fun _ => pure _
  | ok value => exact (pushData _).bind fun _ => pure _

theorem llen (params : List Bytes) : Keeps (llen params) := by
  refine (param params 1).bind fun key => (getValueByType key .list).bind fun r => ?_
  cases r with
  | error err =>
      simp only
      split_ifs with herr
      · exact (pushData _).bind fun _ => pure _
      · exact (pushData _).bind fun _ => pure _
  | ok value => exact (pushData _).bind fun _ => pure _

theorem lrange (params : List Bytes) : Keeps (lrange params) := by
  refine (param params 1).bind fun key => (getValueByType key .list).bind fun r => ?_
  cases r with
  | error err => exact pure _
  | ok value =>
      refine (param params 2).bind fun p => ?_
      cases YedisStrtol p with
      | none => exact pure _
      | some start =>
          refine (param params 3).bind fun q => ?_
          cases YedisStrtol q with
          | none => exact pure _
          | some stop =>
              exact (getRange _ _ _).bind fun _ =>
                (pushData _).bind fun _ => (pushData _).bind fun _ => pure _

theorem scard (params : List Bytes) : Keeps (scard params) := by
  refine (param params 1).bind fun key => (getSet key).bind fun r => ?_
  cases r with
  | none => exact (pushData _).bind fun _ => pure _
  | some value => exact (pushData _).bind fun _ => pure _

theorem smember (env : Env) (params : List Bytes) : Keeps (smember env params) := by
  refine (param params 1).bind fun key => (getSet key).bind fun r => ?_
  cases r with
  | none => exact (pushData _).bind fun _ => pure _
  | some value => exact (pushData _).bind fun _ => (pushData _).bind fun _ => pure _

theorem hget (params : List Bytes) : Keeps (YHash.hget params) := by
  refine (param params 1).bind fun key => ?_
  refine bind ((getValueByType key .hash).bind fun r => ?_) fun r => ?_
  · cases r with
    | error err => exact (pushData _).bind fun _ => pure _
    | ok value => exact pure _
  · cases r with
    | none => exact pure _
    | some value =>
        refine (param params 2).bind fun field => ?_
        simp only
        cases value.castHash.lookup field with
        | none => exact (pushData _).bind fun _ => pure _
        | some val => exact (pushData _).bind fun _ => pure _

end Keeps

section Handlers
variable {env : Env} {params : List Bytes} {w : World} {key : Bytes}

theorem push_store (hsel : w.store.Selected) (hkey : params[1]? = some key) (pos : ListPosition)
    (create : Bool) : storeAfter (push params pos create w) =
      (pushChange pos create (params.drop 2) (w.store.getObject key)).apply w.store key := by
  cases hget : w.store.getObject key with
  | none =>
      cases create with
      | true =>
          rw [push_create hkey hget]
          exact YStore.setValue_setValue hsel key _ _
      | false =>
          rw [push_absent hkey hget]
          rfl
  | some obj =>
      by_cases ht : obj.type = .list
      · obtain ⟨l, rfl⟩ := type_list ht
        rw [push_list hkey hget]
        rfl
      · rw [push_other hkey hget ht]
        cases obj <;> first | rfl | exact absurd rfl ht

theorem popCmd_store (hkey : params[1]? = some key) (pos : ListPosition) :
    storeAfter (popCmd pos params w) =
      (popChange pos (w.store.getObject key)).apply w.store key := by
  cases hget : w.store.getObject key with
  | none =>
      rw [popCmd_absent hkey hget]
      rfl
  | some obj =>
      by_cases ht : obj.type = .list
      · obtain ⟨l, rfl⟩ := type_list ht
        cases l with
        | nil =>
            rw [popCmd_empty hkey hget]
            rfl
        | cons front rest =>
            rw [popCmd_list hkey hget, popChange]
            split_ifs with hlast
            · simp only [storeAfter, Change.apply]
            · simp only [storeAfter, Change.apply]
      · rw [popCmd_other hkey hget ht]
        cases obj <;> first | rfl | exact absurd rfl ht

theorem setCmd_store (hkey : params[1]? = some key) :
    storeAfter (YString.setCmd params w) =
      (setChange params[2]?).apply w.store key := by
  cases hvalue : params[2]? with
  | none =>
      simp [YString.setCmd, param_run _ hkey, param_none _ hvalue, storeAfter, setChange, Change.apply]
  | some value =>
      rw [YString.setCmd_run hkey hvalue]
      rfl

theorem setnxCmd_store (hkey : params[1]? = some key) :
    storeAfter (YString.setnxCmd params w) =
      (setnxChange params[2]? (w.store.getObject key)).apply w.store key := by
  cases hvalue : params[2]? with
  | none =>
      cases w.store.getObject key <;>
        simp [YString.setnxCmd, param_run _ hkey, param_none _ hvalue, storeAfter, setnxChange,
          Change.apply]
  | some value =>
      cases hget : w.store.getObject key with
      | none =>
          rw [YString.setnxCmd_absent hkey hvalue hget]
          rfl
      | some obj =>
          rw [YString.setnxCmd_present hkey hvalue hget]
          rfl

theorem sadd_store (hsel : w.store.Selected) (hkey : params[1]? = some key) :
    storeAfter (sadd params w) =
      (saddChange (params.drop 2) (w.store.getObject key)).apply w.store key := by
  cases hget : w.store.getObject key with
  | none =>
      rw [sadd_absent hkey hget]
      exact YStore.setValue_setValue hsel key _ _
  | some obj =>
      by_cases ht : obj.type = .set
      · obtain ⟨m, rfl⟩ := type_set ht
        rw [sadd_set hkey hget]
        rfl
      · rw [sadd_other hkey hget ht]
        cases obj <;> first | rfl | exact absurd rfl ht

theorem spop_store (hkey : params[1]? = some key) : storeAfter (spop env params w) =
    (spopChange env (w.store.getObject key)).apply w.store key := by
  cases hget : w.store.getObject key with
  | none =>
      rw [spop_absent hkey hget]
      rfl
  | some obj =>
      by_cases ht : obj.type = .set
      · obtain ⟨m, rfl⟩ := type_set ht
        by_cases hm : m = ∅
        · subst hm
          rw [spop_empty hkey hget]
          rfl
        · rw [spop_set hkey hget hm]
          simp only [storeAfter, spopChange, if_neg hm]
          split_ifs with hlast
          · rfl
          · rfl
      · rw [spop_other hkey hget ht]
        cases obj <;> first | rfl | exact absurd rfl ht

theorem hset_store (hsel : w.store.Selected) (hkey : params[1]? = some key) :
    storeAfter (YHash.hset params w) =
      (hsetChange params[2]? params[3]? (w.store.getObject key)).apply w.store key := by
  by_cases hmiss : params[3]? = none
  · cases hget : w.store.getObject key with
    | none =>
        rw [YHash.hset_absent_missing hkey hget hmiss, hmiss]
        cases params[2]? <;> rfl
    | some obj =>
        by_cases ht : obj.type = .hash
        · obtain ⟨m, rfl⟩ := type_hash ht
          rw [YHash.hset_hash_missing hkey hget hmiss, hmiss]
          cases params[2]? <;> rfl
        · rw [YHash.hset_other hkey hget ht, hmiss]
          cases obj <;> first | rfl | exact absurd rfl ht
  · obtain ⟨val, hval⟩ := Option.ne_none_iff_exists'.mp hmiss
    have hlen := (List.getElem?_eq_some_iff.mp hval).1
    obtain ⟨field, hfield⟩ : ∃ field, params[2]? = some field :=
      ⟨params[2], List.getElem?_eq_getElem (by omega)⟩
    rw [hfield, hval]
    cases hget : w.store.getObject key with
    | none =>
        rw [YHash.hset_absent hkey hget hfield hval]
        exact YStore.setValue_setValue hsel key _ _
    | some obj =>
        by_cases ht : obj.type = .hash
        · obtain ⟨m, rfl⟩ := type_hash ht
          rw [YHash.hset_hash hkey hget hfield hval]
          rfl
        · rw [YHash.hset_other hkey hget ht]
          cases obj <;> first | rfl | exact absurd rfl ht

theorem zadd_store (hsel : w.store.Selected) (hkey : params[1]? = some key) :
    storeAfter (zadd env params w) =
      (zaddChange env params (w.store.getObject key)).apply w.store key := by
  by_cases heven : params.length % 2 = 0
  · cases hget : w.store.getObject key with
    | none =>
        obtain ⟨n, -, hrun⟩ := zadd_absent env heven hkey hget
        rw [hrun, zaddChange, if_pos heven]
        exact YStore.setValue_setValue hsel key _ _
    | some obj =>
        by_cases ht : obj.type = .sortedSet
        · obtain ⟨z, rfl⟩ := type_sortedSet ht
          obtain ⟨n, -, hrun⟩ := zadd_sset env heven hkey hget
          rw [hrun, zaddChange, if_pos heven]
          rfl
        · rw [zadd_other heven hkey hget ht]
          cases obj <;> first | rfl | exact absurd rfl ht
  · rw [zadd_odd heven]
    cases w.store.getObject key with
    | none => simp only [zaddChange, if_neg heven, storeAfter, Change.apply]
    | some obj => cases obj <;> simp only [zaddChange, if_neg heven, storeAfter, Change.apply]

/-- A handler makes the change of its command to the key it is given, and no other. -/
theorem handler_store (c : Command) (hsel : w.store.Selected) (hkey : params[1]? = some key) :
    storeAfter (c.handler env params w) =
      (c.change env params (w.store.getObject key)).apply w.store key := by
  cases c with
  | COMMAND => exact Keeps.command params w
  | set => exact setCmd_store hkey
  | get => exact Keeps.getCmd params w
  | setnx => exact setnxCmd_store hkey
  | LPUSH => exact push_store hsel hkey .head true
  | RPUSH => exact push_store hsel hkey .tail true
  | LPUSHX => exact push_store hsel hkey .head false
  | RPUSHX => exact push_store hsel hkey .tail false
  | LPOP => exact popCmd_store hkey .head
  | RPOP => exact popCmd_store hkey .tail
  | LLEN => exact Keeps.llen params w
  | LRANGE => exact Keeps.lrange params w
  | SADD => exact sadd_store hsel hkey
  | SCARD => exact Keeps.scard params w
  | SMEMBERS => exact Keeps.smember env params w
  | SPOP => exact spop_store hkey
  | HGET => exact Keeps.hget params w
  | HSET => exact hset_store hsel hkey
  | ZADD => exact zadd_store hsel hkey

/-- Without a key nothing happens to the store. -/
theorem handler_store_no_key (c : Command) (hkey : params[1]? = none) :
    storeAfter (c.handler env params w) = w.store := by
  cases c with
  | COMMAND => exact Keeps.command params w
  | get => exact Keeps.getCmd params w
  | LLEN => exact Keeps.llen params w
  | LRANGE => exact Keeps.lrange params w
  | SCARD => exact Keeps.scard params w
  | SMEMBERS => exact Keeps.smember env params w
  | HGET => exact Keeps.hget params w
  | set => simp [Command.handler, YString.setCmd, param_none _ hkey, storeAfter]
  | setnx => simp [Command.handler, YString.setnxCmd, param_none _ hkey, storeAfter]
  | LPUSH => simp [Command.handler, lpush, push, param_none _ hkey, storeAfter]
  | RPUSH => simp [Command.handler, rpush, push, param_none _ hkey, storeAfter]
  | LPUSHX => simp [Command.handler, lpushx, push, param_none _ hkey, storeAfter]
  | RPUSHX => simp [Command.handler, rpushx, push, param_none _ hkey, storeAfter]
  | LPOP => simp [Command.handler, lpop, popCmd, param_none _ hkey, storeAfter]
  | RPOP => simp [Command.handler, rpop, popCmd, param_none _ hkey, storeAfter]
  | SADD => simp [Command.handler, sadd, param_none _ hkey, storeAfter]
  | SPOP => simp [Command.handler, spop, param_none _ hkey, storeAfter]
  | HSET => simp [Command.handler, YHash.hset, param_none _ hkey, storeAfter]
  | ZADD =>
      by_cases hodd : params.length % 2 ≠ 0
      · rw [Command.handler, zadd_odd hodd, storeAfter]
      · rw [not_not] at hodd
        simp [Command.handler, zadd, hodd, param_none _ hkey, storeAfter]

/-- The command that `execCommand` finds and the key it acts on. -/
def addressed (params : List Bytes) : Option (Command × Bytes) := do
  let c ← getCommand (← params[0]?)
  return (c, ← params[1]?)

theorem addressed_eq_some {params : List Bytes} {c : Command} {key : Bytes}
    (h : addressed params = some (c, key)) :
    params[0]? = some c.name ∧ params[1]? = some key := by
  simp only [addressed, Option.bind_eq_bind, Option.bind_eq_some_iff, Option.pure_def,
    Option.some.injEq, Prod.mk.injEq] at h
  obtain ⟨cmd, hcmd, c', hc', key', hkey', rfl, rfl⟩ := h
  rw [name_of_getCommand hc']
  exact ⟨hcmd, hkey'⟩

theorem execCommand_store (env : Env) (params : List Bytes) (hsel : w.store.Selected) :
    storeAfter (execCommand env params w) =
      match addressed params with
      | some (c, key) => (c.change env params (w.store.getObject key)).apply w.store key
      | none => w.store := by
  cases hname : params[0]? with
  | none =>
      rw [execCommand_empty hname]
      simp [addressed, hname, storeAfter]
  | some cmd =>
      cases hcmd : getCommand cmd with
      | none =>
          rw [execCommand_unknown hname hcmd]
          simp [addressed, hname, hcmd, storeAfter]
      | some c =>
          have hrun : storeAfter (execCommand env params w) =
              storeAfter (c.handler env params w) := by
            rw [execCommand_run hname hcmd]
            cases c.handler env params w <;> rfl
          rw [hrun]
          cases hkey : params[1]? with
          | none =>
              rw [handler_store_no_key c hkey]
              simp [addressed, hname, hkey]
          | some key =>
              rw [handler_store c hsel hkey]
              simp [addressed, hname, hcmd, hkey]

end Handlers

section Addressed
variable {s : YStore} {params : List Bytes} {c : Command} {key key' : Bytes}

theorem execCommand_selected (env : Env) (hsel : s.Selected) (reply : Bytes) :
    (storeAfter (execCommand env params ⟨s, reply⟩)).Selected := by
  rw [execCommand_store (w := ⟨s, reply⟩) env params hsel]
  cases addressed params with
  | none => exact hsel
  | some pair => exact Change.selected_apply hsel _ _

theorem execCommand_change (env : Env) (hsel : s.Selected)
    (haddr : addressed params = some (c, key)) (reply : Bytes) :
    storeAfter (execCommand env params ⟨s, reply⟩) =
      (c.change env params (s.getObject key)).apply s key := by
  have hstore := execCommand_store (w := ⟨s, reply⟩) env params hsel
  rwa [haddr] at hstore

/-- Another key's object survives a command. -/
theorem execCommand_getObject_ne (env : Env) (hsel : s.Selected)
    (haddr : addressed params = some (c, key)) (hne : key' ≠ key) (reply : Bytes) :
    (storeAfter (execCommand env params ⟨s, reply⟩)).getObject key' = s.getObject key' := by
  rw [execCommand_change env hsel haddr, Change.getObject_apply hsel, if_neg hne]

end Addressed

/-! ### Runs of commands -/

structure Call where
  params : List Bytes
  reply : Bytes

/-- A command, executed with an empty reply buffer, runs to its end. -/
def CallStep (s : YStore) (call : Call) (s' : YStore) : Prop :=
  ∃ (env : Env) (b : Bool), execCommand env call.params ⟨s, []⟩ = .ok b ⟨s', call.reply⟩

theorem CallStep.store {s s' : YStore} {call : Call} (h : CallStep s call s')
    (hsel : s.Selected) : ∃ env : Env, s' =
      match addressed call.params with
      | some (c, key) => (c.change env call.params (s.getObject key)).apply s key
      | none => s := by
  obtain ⟨env, b, hexec⟩ := h
  have hstore := execCommand_store (w := ⟨s, []⟩) env call.params hsel
  rw [hexec] at hstore
  exact ⟨env, hstore⟩

theorem CallStep.selected {s s' : YStore} {call : Call} (h : CallStep s call s')
    (hsel : s.Selected) : s'.Selected := by
  obtain ⟨env, rfl⟩ := h.store hsel
  cases addressed call.params with
  | none => exact hsel
  | some pair => exact Change.selected_apply hsel _ _

section CallStep
variable {s s' : YStore} {call : Call} {c : Command} {key key' : Bytes}

theorem CallStep.getObject_ne (h : CallStep s call s') (hsel : s.Selected)
    (haddr : addressed call.params = some (c, key)) (hne : key' ≠ key) :
    s'.getObject key' = s.getObject key' := by
  obtain ⟨env, b, hexec⟩ := h
  have hframe := execCommand_getObject_ne env hsel haddr hne []
  rwa [hexec] at hframe

/-- A store that holds one value for each key in `K` holds the values with the new one of the
command's key. -/
theorem CallStep.holds_update {α : Type} {K : Set Bytes} {values : Bytes → α} {a : α}
    {stored : α → Option YObject} (h : CallStep s call s') (hsel : s.Selected)
    (haddr : addressed call.params = some (c, key))
    (hobj : ∀ k ∈ K, s.getObject k = stored (values k)) (hkey : s'.getObject key = stored a) :
    ∀ k ∈ K, s'.getObject k = stored (Function.update values key a k) := by
  intro k hk
  by_cases hne : k = key
  · rw [hne, Function.update_self]
    exact hkey
  · rw [h.getObject_ne hsel haddr hne, Function.update_of_ne hne]
    exact hobj k hk

end CallStep

end Yedis
