import Yedis.LeftBehind
import Yedis.Session
import Yedis.WrongType

/-!
# Parameters read and parameters there

`ReadsInside` says that a run does not read past its parameters. For each handler
it is settled by the number of parameters and, where the handler looks at its key
first, by what is bound to it.
-/

namespace Yedis
open YString YList YSet YHash YSortedSet

def ReadsInside {α : Type} (x : Exec α) (w : World) : Prop := ∀ w', x w ≠ .error .paramIndex w'

theorem readsInside_ok {α : Type} {x : Exec α} {w w' : World} {a : α} (h : x w = .ok a w') :
    ReadsInside x w := by
  intro w'' hfault
  rw [h] at hfault
  cases hfault

theorem readsInside_fault {α : Type} {x : Exec α} {w w' : World} {f : ExecFault}
    (h : x w = .error f w') : ReadsInside x w ↔ f ≠ .paramIndex := by
  constructor
  · rintro hinside rfl
    exact hinside w' h
  · intro hf w'' hfault
    rw [h] at hfault
    cases hfault
    exact hf rfl

/-- The parameters a command reads are there, in the state of its key. -/
def Command.Covered (s : YStore) (params : List Bytes) : Command → Prop
  | COMMAND => True
  | set => 2 < params.length
  | setnx => 2 < params.length
  | LRANGE => 1 < params.length ∧ (Holds s (params.getD 1 []) .list →
      2 < params.length ∧ (YedisStrtol (params.getD 2 []) ≠ none → 3 < params.length))
  | HGET => 1 < params.length ∧ (Holds s (params.getD 1 []) .hash → 2 < params.length)
  | HSET => 1 < params.length ∧ (HoldsOrLacks s (params.getD 1 []) .hash → 3 < params.length)
  | ZADD => True
  | _ => 1 < params.length

/-- There is a first parameter, and the command it names has the parameters it reads. -/
def Covers (s : YStore) (params : List Bytes) : Prop :=
  ∃ cmd, params[0]? = some cmd ∧ ∀ c, getCommand cmd = some c → c.Covered s params

section Handlers
variable {params : List Bytes} {w : World}

/-- A handler that reads nothing but its key. -/
theorem readsInside_key_iff {x : Exec YError}
    (hmissing : params[1]? = none → x w = .error .paramIndex w)
    (hkey : ∀ key, params[1]? = some key → ReadsInside x w) :
    ReadsInside x w ↔ 1 < params.length := by
  cases h : params[1]? with
  | none =>
      rw [readsInside_fault (hmissing h)]
      rw [List.getElem?_eq_none_iff] at h
      exact iff_of_false (not_not.mpr rfl) (by omega)
  | some key => exact iff_of_true (hkey key h) (List.getElem?_eq_some_iff.mp h).1

theorem getCmd_inside_iff : ReadsInside (getCmd params) w ↔ 1 < params.length := by
  refine readsInside_key_iff (fun h => by simp [getCmd, param_none _ h]) fun key hkey => ?_
  cases hget : w.store.getObject key with
  | none => exact readsInside_ok (getCmd_absent hkey hget)
  | some obj =>
      by_cases ht : obj.type = .string
      · exact readsInside_ok (getCmd_string hkey hget ht)
      · exact readsInside_ok (getCmd_other hkey hget ht)

theorem push_inside_iff (pos : ListPosition) (create : Bool) :
    ReadsInside (push params pos create) w ↔ 1 < params.length := by
  refine readsInside_key_iff (fun h => by simp [push, param_none _ h]) fun key hkey => ?_
  cases hget : w.store.getObject key with
  | none =>
      cases create with
      | true => exact readsInside_ok (push_create hkey hget pos)
      | false => exact readsInside_ok (push_absent hkey hget pos)
  | some obj =>
      by_cases ht : obj.type = .list
      · obtain ⟨l, rfl⟩ := type_list ht
        exact readsInside_ok (push_list hkey hget pos create)
      · exact readsInside_ok (push_other hkey hget ht pos create)

theorem popCmd_inside_iff (pos : ListPosition) :
    ReadsInside (popCmd pos params) w ↔ 1 < params.length := by
  refine readsInside_key_iff (fun h => by simp [popCmd, param_none _ h]) fun key hkey => ?_
  cases hget : w.store.getObject key with
  | none => exact readsInside_ok (popCmd_absent hkey hget pos)
  | some obj =>
      by_cases ht : obj.type = .list
      · obtain ⟨l, rfl⟩ := type_list ht
        cases l with
        | nil => exact (readsInside_fault (popCmd_empty hkey hget pos)).mpr (by simp)
        | cons front rest => exact readsInside_ok (popCmd_list hkey hget pos)
      · exact readsInside_ok (popCmd_other hkey hget ht pos)

theorem llen_inside_iff : ReadsInside (llen params) w ↔ 1 < params.length := by
  refine readsInside_key_iff (fun h => by simp [llen, param_none _ h]) fun key hkey => ?_
  cases hget : w.store.getObject key with
  | none => exact readsInside_ok (llen_absent hkey hget)
  | some obj =>
      by_cases ht : obj.type = .list
      · obtain ⟨l, rfl⟩ := type_list ht
        exact readsInside_ok (llen_list hkey hget)
      · exact readsInside_ok (llen_other hkey hget ht)

theorem sadd_inside_iff : ReadsInside (sadd params) w ↔ 1 < params.length := by
  refine readsInside_key_iff (fun h => by simp [sadd, param_none _ h]) fun key hkey => ?_
  cases hget : w.store.getObject key with
  | none => exact readsInside_ok (sadd_absent hkey hget)
  | some obj =>
      by_cases ht : obj.type = .set
      · obtain ⟨m, rfl⟩ := type_set ht
        exact readsInside_ok (sadd_set hkey hget)
      · exact readsInside_ok (sadd_other hkey hget ht)

theorem scard_inside_iff : ReadsInside (scard params) w ↔ 1 < params.length := by
  refine readsInside_key_iff (fun h => by simp [scard, param_none _ h]) fun key hkey => ?_
  cases hget : w.store.getObject key with
  | none => exact readsInside_ok (scard_absent hkey hget)
  | some obj =>
      by_cases ht : obj.type = .set
      · obtain ⟨m, rfl⟩ := type_set ht
        exact readsInside_ok (scard_set hkey hget)
      · exact readsInside_ok (scard_other hkey hget ht)

theorem smember_inside_iff (env : Env) :
    ReadsInside (smember env params) w ↔ 1 < params.length := by
  refine readsInside_key_iff (fun h => by simp [smember, param_none _ h]) fun key hkey => ?_
  cases hget : w.store.getObject key with
  | none => exact readsInside_ok (smember_absent hkey hget)
  | some obj =>
      by_cases ht : obj.type = .set
      · obtain ⟨m, rfl⟩ := type_set ht
        exact readsInside_ok (smember_set hkey hget)
      · exact readsInside_ok (smember_other hkey hget ht)

theorem spop_inside_iff (env : Env) : ReadsInside (spop env params) w ↔ 1 < params.length := by
  refine readsInside_key_iff (fun h => by simp [spop, param_none _ h]) fun key hkey => ?_
  cases hget : w.store.getObject key with
  | none => exact readsInside_ok (spop_absent hkey hget)
  | some obj =>
      by_cases ht : obj.type = .set
      · obtain ⟨m, rfl⟩ := type_set ht
        by_cases hm : m = ∅
        · subst hm
          exact readsInside_ok (spop_empty hkey hget)
        · exact readsInside_ok (spop_set hkey hget hm)
      · exact readsInside_ok (spop_other hkey hget ht)

/-- `SET` and `SETNX` read a key and a value first. -/
theorem readsInside_value_iff {x : Exec YError}
    (hmissing : params[2]? = none → x w = .error .paramIndex w)
    (hvalue : ∀ key value, params[1]? = some key → params[2]? = some value → ReadsInside x w) :
    ReadsInside x w ↔ 2 < params.length := by
  cases h : params[2]? with
  | none =>
      rw [readsInside_fault (hmissing h)]
      rw [List.getElem?_eq_none_iff] at h
      exact iff_of_false (not_not.mpr rfl) (by omega)
  | some value =>
      have hlen := (List.getElem?_eq_some_iff.mp h).1
      exact iff_of_true (hvalue _ value (getElem?_getD (by omega)) h) hlen

theorem setCmd_inside_iff : ReadsInside (setCmd params) w ↔ 2 < params.length := by
  refine readsInside_value_iff (fun h => ?_) fun key value hkey hvalue =>
    readsInside_ok (setCmd_run hkey hvalue)
  cases hkey : params[1]? with
  | none => simp [setCmd, param_none _ hkey]
  | some key => simp [setCmd, param_run _ hkey, param_none _ h]

theorem setnxCmd_inside_iff : ReadsInside (setnxCmd params) w ↔ 2 < params.length := by
  refine readsInside_value_iff (fun h => ?_) fun key value hkey hvalue => ?_
  · cases hkey : params[1]? with
    | none => simp [setnxCmd, param_none _ hkey]
    | some key => simp [setnxCmd, param_run _ hkey, param_none _ h]
  · cases hget : w.store.getObject key with
    | none => exact readsInside_ok (setnxCmd_absent hkey hvalue hget)
    | some obj => exact readsInside_ok (setnxCmd_present hkey hvalue hget)

/-- A handler that reads its key first, and more where an object it works on is there. -/
theorem readsInside_more_iff {x : Exec YError} (more : Bytes → Prop)
    (hmissing : params[1]? = none → x w = .error .paramIndex w)
    (hkey : ∀ key, params[1]? = some key → (ReadsInside x w ↔ more key)) :
    ReadsInside x w ↔ 1 < params.length ∧ more (params.getD 1 []) := by
  cases h : params[1]? with
  | none =>
      rw [readsInside_fault (hmissing h)]
      rw [List.getElem?_eq_none_iff] at h
      exact iff_of_false (not_not.mpr rfl) fun hlen => by omega
  | some key =>
      rw [hkey key h, List.getD_eq_getElem?_getD, h]
      exact (and_iff_right (List.getElem?_eq_some_iff.mp h).1).symm

theorem lrange_list_inside_iff {key : Bytes} {l : List Bytes} (hkey : params[1]? = some key)
    (hget : w.store.getObject key = some (.list l)) : ReadsInside (lrange params) w ↔
      2 < params.length ∧ (YedisStrtol (params.getD 2 []) ≠ none → 3 < params.length) := by
  cases hp : params[2]? with
  | none =>
      have hrun : lrange params w = .error .paramIndex w := by
        simp [lrange, param_run _ hkey, param_none _ hp, getValueByType_run (t := .list) hget rfl]
      rw [readsInside_fault hrun]
      rw [List.getElem?_eq_none_iff] at hp
      exact iff_of_false (not_not.mpr rfl) fun hlen => by omega
  | some p =>
      have hlen := (List.getElem?_eq_some_iff.mp hp).1
      rw [and_iff_right hlen, List.getD_eq_getElem?_getD, hp, Option.getD_some]
      cases ha : YedisStrtol p with
      | none =>
          have hrun : lrange params w = .ok .ok w := by
            simp [lrange, param_run _ hkey, param_run _ hp,
              getValueByType_run (t := .list) hget rfl, ha]
          exact iff_of_true (readsInside_ok hrun) fun h => absurd rfl h
      | some start =>
          cases hq : params[3]? with
          | none =>
              have hrun : lrange params w = .error .paramIndex w := by
                simp [lrange, param_run _ hkey, param_run _ hp, param_none _ hq,
                  getValueByType_run (t := .list) hget rfl, ha]
              rw [readsInside_fault hrun]
              rw [List.getElem?_eq_none_iff] at hq
              refine iff_of_false (not_not.mpr rfl) fun h => ?_
              have := h (by simp)
              omega
          | some q =>
              refine iff_of_true ?_ fun _ => (List.getElem?_eq_some_iff.mp hq).1
              cases hb : YedisStrtol q with
              | none =>
                  have hrun : lrange params w = .ok .ok w := by
                    simp [lrange, param_run _ hkey, param_run _ hp, param_run _ hq,
                      getValueByType_run (t := .list) hget rfl, ha, hb]
                  exact readsInside_ok hrun
              | some stop =>
                  obtain ⟨vs, hrun⟩ := lrange_list hkey hget hp ha hq hb
                  exact readsInside_ok hrun

theorem lrange_inside_iff :
    ReadsInside (lrange params) w ↔ Command.LRANGE.Covered w.store params := by
  refine readsInside_more_iff (fun key => Holds w.store key .list →
    2 < params.length ∧ (YedisStrtol (params.getD 2 []) ≠ none → 3 < params.length))
    (fun h => by simp [lrange, param_none _ h]) fun key hkey => ?_
  cases hget : w.store.getObject key with
  | none =>
      exact iff_of_true (readsInside_ok (lrange_absent hkey hget))
        fun h => absurd h (not_holds_none hget)
  | some obj =>
      by_cases ht : obj.type = .list
      · obtain ⟨l, rfl⟩ := type_list ht
        rw [lrange_list_inside_iff hkey hget, holds_some hget, forall_prop_of_true ht]
      · exact iff_of_true (readsInside_ok (lrange_other hkey hget ht))
          fun h => absurd ((holds_some hget).mp h) ht

theorem hget_inside_iff :
    ReadsInside (YHash.hget params) w ↔ Command.HGET.Covered w.store params := by
  refine readsInside_more_iff (fun key => Holds w.store key .hash → 2 < params.length)
    (fun h => by simp [YHash.hget, param_none _ h]) fun key hkey => ?_
  cases hget : w.store.getObject key with
  | none =>
      exact iff_of_true (readsInside_ok (hget_absent hkey hget))
        fun h => absurd h (not_holds_none hget)
  | some obj =>
      by_cases ht : obj.type = .hash
      · obtain ⟨m, rfl⟩ := type_hash ht
        rw [holds_some hget, forall_prop_of_true ht]
        cases hfield : params[2]? with
        | none =>
            have hrun : YHash.hget params w = .error .paramIndex w := by
              simp [YHash.hget, getHash, param_run _ hkey, param_none _ hfield,
                getValueByType_run (t := .hash) hget rfl]
            rw [readsInside_fault hrun]
            rw [List.getElem?_eq_none_iff] at hfield
            exact iff_of_false (not_not.mpr rfl) (by omega)
        | some field =>
            exact iff_of_true (readsInside_ok (hget_hash hkey hget hfield))
              (List.getElem?_eq_some_iff.mp hfield).1
      · exact iff_of_true (readsInside_ok (hget_other hkey hget ht))
          fun h => absurd ((holds_some hget).mp h) ht

theorem hset_inside_iff :
    ReadsInside (YHash.hset params) w ↔ Command.HSET.Covered w.store params := by
  refine readsInside_more_iff (fun key => HoldsOrLacks w.store key .hash → 3 < params.length)
    (fun h => by simp [YHash.hset, param_none _ h]) fun key hkey => ?_
  cases hval : params[3]? with
  | none =>
      have hlen := List.getElem?_eq_none_iff.mp hval
      cases hget : w.store.getObject key with
      | none =>
          rw [readsInside_fault (hset_absent_missing hkey hget hval)]
          refine iff_of_false (not_not.mpr rfl) fun h => ?_
          have := h (holdsOrLacks_none hget)
          omega
      | some obj =>
          rw [holdsOrLacks_some hget]
          by_cases ht : obj.type = .hash
          · obtain ⟨m, rfl⟩ := type_hash ht
            rw [readsInside_fault (hset_hash_missing hkey hget hval)]
            refine iff_of_false (not_not.mpr rfl) fun h => ?_
            have := h ht
            omega
          · exact iff_of_true (readsInside_ok (hset_other hkey hget ht)) fun h => absurd h ht
  | some val =>
      have hlen := (List.getElem?_eq_some_iff.mp hval).1
      have hfield : params[2]? = some (params.getD 2 []) := getElem?_getD (by omega)
      refine iff_of_true ?_ fun _ => hlen
      cases hget : w.store.getObject key with
      | none => exact readsInside_ok (hset_absent hkey hget hfield hval)
      | some obj =>
          by_cases ht : obj.type = .hash
          · obtain ⟨m, rfl⟩ := type_hash ht
            exact readsInside_ok (hset_hash hkey hget hfield hval)
          · exact readsInside_ok (hset_other hkey hget ht)

/-- An even number of parameters includes a key. -/
theorem zadd_inside (env : Env) (hname : params ≠ []) : ReadsInside (zadd env params) w := by
  by_cases heven : params.length % 2 = 0
  · have hlen := List.length_pos_iff.mpr hname
    have hkey : params[1]? = some (params.getD 1 []) := getElem?_getD (by omega)
    cases hget : w.store.getObject (params.getD 1 []) with
    | none =>
        obtain ⟨n, -, hrun⟩ := zadd_absent env heven hkey hget
        exact readsInside_ok hrun
    | some obj =>
        by_cases ht : obj.type = .sortedSet
        · obtain ⟨z, rfl⟩ := type_sortedSet ht
          obtain ⟨n, -, hrun⟩ := zadd_sset env heven hkey hget
          exact readsInside_ok hrun
        · exact (readsInside_fault (zadd_other heven hkey hget ht)).mpr (by simp)
  · exact readsInside_ok (zadd_odd heven)

/-- A handler reads no further than its parameters go exactly when they cover what it reads. -/
theorem handler_inside_iff (env : Env) {c : Command} (hname : params[0]? = some c.name) :
    ReadsInside (c.handler env params) w ↔ c.Covered w.store params := by
  cases c with
  | COMMAND => exact iff_of_true (readsInside_ok (command_run hname)) trivial
  | set => exact setCmd_inside_iff
  | get => exact getCmd_inside_iff
  | setnx => exact setnxCmd_inside_iff
  | LPUSH => exact push_inside_iff .head true
  | RPUSH => exact push_inside_iff .tail true
  | LPUSHX => exact push_inside_iff .head false
  | RPUSHX => exact push_inside_iff .tail false
  | LPOP => exact popCmd_inside_iff .head
  | RPOP => exact popCmd_inside_iff .tail
  | LLEN => exact llen_inside_iff
  | LRANGE => exact lrange_inside_iff
  | SADD => exact sadd_inside_iff
  | SCARD => exact scard_inside_iff
  | SMEMBERS => exact smember_inside_iff env
  | SPOP => exact spop_inside_iff env
  | HGET => exact hget_inside_iff
  | HSET => exact hset_inside_iff
  | ZADD =>
      refine iff_of_true (zadd_inside env ?_) trivial
      rintro rfl
      cases hname

theorem execCommand_inside_iff (env : Env) :
    ReadsInside (execCommand env params) w ↔ Covers w.store params := by
  cases hname : params[0]? with
  | none =>
      rw [readsInside_fault (execCommand_empty hname)]
      apply iff_of_false (not_not.mpr rfl)
      rintro ⟨cmd, hcmd, -⟩
      rw [hname] at hcmd
      cases hcmd
  | some cmd =>
      have hcovers : Covers w.store params ↔
          ∀ c, getCommand cmd = some c → c.Covered w.store params := by
        simp [Covers, hname]
      rw [hcovers]
      cases hcmd : getCommand cmd with
      | none => exact iff_of_true (readsInside_ok (execCommand_unknown hname hcmd)) (by simp)
      | some c =>
          have hhandler : ReadsInside (execCommand env params) w ↔
              ReadsInside (c.handler env params) w := by
            unfold ReadsInside
            rw [execCommand_run hname hcmd]
            cases c.handler env params w with
            | ok e w' => simp
            | error f w' => simp
          rw [hhandler, handler_inside_iff env (by rw [hname, name_of_getCommand hcmd])]
          simp

end Handlers

/-- What one read hands on is executed without reading past its parameters exactly when what the
bytes leave behind covers the command it names. -/
theorem arguments_covered_iff (env : Env) (w : World) {buffer buffer' : Buffer}
    {vecCmd : List Bytes} (hread : onRead buffer = .ok (vecCmd, buffer')) :
    ReadsInside (execCommand env vecCmd) w ↔
      ∀ g, LeftBehind buffer.readable g → Covers w.store g := by
  obtain ⟨⟨res, hres, rfl⟩, -⟩ := (onRead_ok_iff _ _ _).mp hread
  have hleft := leftBehind_of_parse hres
  rw [execCommand_inside_iff]
  constructor
  · intro h g hg
    rw [hg.unique hleft]
    exact h
  · exact fun h => h _ hleft

/-- `COMMAND` needs no arguments. -/
theorem arguments_covered_command : ∃ buffer',
    onRead (Buffer.new.readFd (ascii "*1\r\n$7\r\nCOMMAND\r\n")) =
        .ok ([ascii "COMMAND"], buffer') ∧
      ReadsInside (execCommand default [ascii "COMMAND"]) ⟨.start, []⟩ := by
  have hres : ({} : YProtoParse).parseRequest (ascii "*1\r\n$7\r\nCOMMAND\r\n") 0 =
      .ok ⟨.ok, 17, { nMulti := 1, nNumOfParam := 1, vecParams := [ascii "COMMAND"] }⟩ := by decide
  obtain ⟨hdata, buffer', hread⟩ := onRead_received hres
  refine ⟨buffer', hread, (arguments_covered_iff default ⟨.start, []⟩ hread).mpr ?_⟩
  intro g hg
  rw [hdata] at hg
  rw [hg.unique (leftBehind_of_parse hres)]
  refine ⟨ascii "COMMAND", rfl, fun c hc => ?_⟩
  obtain rfl : .COMMAND = c := by simpa using (getCommand_name .COMMAND).symm.trans hc
  trivial

/-- An array of no bulk strings is executed without a command name. -/
theorem arguments_covered_fails : ∃ buffer',
    onRead (Buffer.new.readFd (ascii "*0\r\n")) = .ok ([], buffer') ∧
      ¬ ReadsInside (execCommand default []) ⟨.start, []⟩ := by
  have hres : ({} : YProtoParse).parseRequest (ascii "*0\r\n") 0 =
      .ok ⟨.ok, 4, { nMulti := 0 }⟩ := by
    decide
  obtain ⟨-, buffer', hread⟩ := onRead_received hres
  refine ⟨buffer', hread, fun hinside => ?_⟩
  exact hinside _ (execCommand_empty rfl)

end Yedis
