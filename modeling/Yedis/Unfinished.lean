import Yedis.NoEmpty
import Yedis.PartialRequest
import Yedis.Session

/-!
# Commands executed on unfinished requests

`onRead` hands the gathered parameters on whatever the parser answered. What an
unfinished request leaves behind is therefore executed, and it changes the store
exactly when it names a command that alters its key with these parameters.
-/

namespace Yedis
open YList YSet YSortedSet

def PushAlters (create : Bool) (params : List Bytes) (bound : Option YObject) : Prop :=
  (create = true ∧ bound = none) ∨ ∃ l, bound = some (.list l) ∧ 2 < params.length

def PopAlters (bound : Option YObject) : Prop := ∃ l, bound = some (.list l) ∧ l ≠ []

/-- With these parameters the command alters a key bound to this object. -/
def Command.Alters (params : List Bytes) (bound : Option YObject) : Command → Prop
  | set => ∃ value, params[2]? = some value ∧ bound ≠ some (.createString value)
  | setnx => bound = none ∧ params[2]? ≠ none
  | LPUSH => PushAlters true params bound
  | RPUSH => PushAlters true params bound
  | LPUSHX => PushAlters false params bound
  | RPUSHX => PushAlters false params bound
  | LPOP => PopAlters bound
  | RPOP => PopAlters bound
  | SADD => bound = none ∨ ∃ m, bound = some (.set m) ∧ ∃ x ∈ params.drop 2, x ∉ m
  | SPOP => ∃ m, bound = some (.set m) ∧ m ≠ ∅
  | HSET => bound = none ∨ ∃ m field val, bound = some (.hash m) ∧ params[2]? = some field ∧
      params[3]? = some val ∧ m.lookup field ≠ some val
  | ZADD => params.length % 2 = 0 ∧ (bound = none ∨ ∃ z, bound = some (.sset z) ∧
      ∃ x ∈ pairMembers (params.drop 2), z.findMember x = none)
  | _ => False

/-- The parameters name a command that alters its key in the store `s`. -/
def Mutates (s : YStore) (params : List Bytes) : Prop :=
  ∃ c key, addressed params = some (c, key) ∧ c.Alters params (s.getObject key)

section Changes
variable {bound : Option YObject} {params : List Bytes}

theorem setChange_alters (value : Option Bytes) : (setChange value).result bound ≠ bound ↔
    ∃ v, value = some v ∧ bound ≠ some (.createString v) := by
  cases value with
  | none => simp [setChange, Change.result]
  | some v => simp [setChange, Change.result, eq_comm]

theorem setnxChange_alters (value : Option Bytes) :
    (setnxChange value bound).result bound ≠ bound ↔ bound = none ∧ value ≠ none := by
  cases value <;> cases bound <;> simp [setnxChange, Change.result]

theorem pushChange_alters (pos : ListPosition) (create : Bool) :
    (pushChange pos create (params.drop 2) bound).result bound ≠ bound ↔
      PushAlters create params bound := by
  cases bound with
  | none => cases create <;> simp [pushChange, Change.result, PushAlters]
  | some obj =>
      cases obj with
      | list l => simp [pushChange, Change.result, PushAlters, pushAll_eq_self]
      | _ => simp [pushChange, Change.result, PushAlters]

theorem popChange_alters (pos : ListPosition) :
    (popChange pos bound).result bound ≠ bound ↔ PopAlters bound := by
  unfold PopAlters
  cases bound with
  | none => simp [popChange, Change.result]
  | some obj =>
      cases obj with
      | list l =>
          cases l with
          | nil => simp [popChange, Change.result]
          | cons front rest =>
              refine iff_of_true ?_ ⟨_, rfl, by simp⟩
              rw [popChange]
              split_ifs with hlast
              · simp [Change.result]
              · intro heq
                have hlen := takeElement_length pos front rest
                rw [YObject.list.inj (Option.some.inj heq), List.length_cons] at hlen
                omega
      | _ => simp [popChange, Change.result]

theorem saddChange_alters : (saddChange (params.drop 2) bound).result bound ≠ bound ↔
    bound = none ∨ ∃ m, bound = some (.set m) ∧ ∃ x ∈ params.drop 2, x ∉ m := by
  cases bound with
  | none => simp [saddChange, Change.result]
  | some obj =>
      cases obj with
      | set m =>
          simp only [saddChange, Change.result, insertAll_fst]
          simp [Finset.subset_iff]
      | _ => simp [saddChange, Change.result]

theorem spopChange_alters (env : Env) : (spopChange env bound).result bound ≠ bound ↔
    ∃ m, bound = some (.set m) ∧ m ≠ ∅ := by
  cases bound with
  | none => simp [spopChange, Change.result]
  | some obj =>
      cases obj with
      | set m =>
          by_cases hm : m = ∅
          · simp [spopChange, Change.result, hm]
          · have hpick := env.pick_mem m (Finset.nonempty_iff_ne_empty.mpr hm)
            refine iff_of_true ?_ ⟨m, rfl, hm⟩
            rw [spopChange, if_neg hm]
            split_ifs with hlast
            · simp [Change.result]
            · simpa [Change.result] using hpick
      | _ => simp [spopChange, Change.result]

theorem hsetChange_alters : (hsetChange params[2]? params[3]? bound).result bound ≠ bound ↔
    bound = none ∨ ∃ m field val, bound = some (.hash m) ∧ params[2]? = some field ∧
      params[3]? = some val ∧ m.lookup field ≠ some val := by
  cases bound with
  | none => cases params[2]? <;> cases params[3]? <;> simp [hsetChange, Change.result]
  | some obj =>
      cases obj with
      | hash m =>
          cases hfield : params[2]? with
          | none => simp [hsetChange, Change.result]
          | some field =>
              cases hval : params[3]? with
              | none => simp [hsetChange, Change.result]
              | some val => simp [hsetChange, Change.result, insert_eq_self]
      | _ => simp [hsetChange, Change.result]

theorem zaddChange_alters (env : Env) : (zaddChange env params bound).result bound ≠ bound ↔
    params.length % 2 = 0 ∧ (bound = none ∨ ∃ z, bound = some (.sset z) ∧
      ∃ x ∈ pairMembers (params.drop 2), z.findMember x = none) := by
  by_cases heven : params.length % 2 = 0
  · cases bound with
    | none => simp [zaddChange, Change.result, heven]
    | some obj =>
        cases obj with
        | sset z => simp [zaddChange, Change.result, heven, addPairs_eq_self]
        | _ => simp [zaddChange, Change.result]
  · cases bound with
    | none => simp [zaddChange, Change.result, heven]
    | some obj => cases obj <;> simp [zaddChange, Change.result, heven]

end Changes

theorem change_alters (env : Env) (params : List Bytes) (bound : Option YObject) (c : Command) :
    (c.change env params bound).result bound ≠ bound ↔ c.Alters params bound := by
  cases c with
  | set => exact setChange_alters _
  | setnx => exact setnxChange_alters _
  | LPUSH => exact pushChange_alters _ _
  | RPUSH => exact pushChange_alters _ _
  | LPUSHX => exact pushChange_alters _ _
  | RPUSHX => exact pushChange_alters _ _
  | LPOP => exact popChange_alters _
  | RPOP => exact popChange_alters _
  | SADD => exact saddChange_alters
  | SPOP => exact spopChange_alters env
  | HSET => exact hsetChange_alters
  | ZADD => exact zaddChange_alters env
  | _ => exact iff_of_false (not_not.mpr rfl) id

/-- `execCommand` leaves the store as it was exactly when its parameters do not mutate it. -/
theorem execCommand_keeps_iff {s : YStore} (hsel : s.Selected) (env : Env) (params : List Bytes)
    (reply : Bytes) : storeAfter (execCommand env params ⟨s, reply⟩) = s ↔ ¬ Mutates s params := by
  rw [execCommand_store (w := ⟨s, reply⟩) env params hsel, Mutates]
  cases addressed params with
  | none => simp
  | some pair =>
      obtain ⟨c, key⟩ := pair
      simp only [Change.apply_eq_self hsel]
      rw [← not_iff_not, not_not, ← ne_eq, change_alters]
      simp

/-- A request that the parser waits for or rejects leaves the store as it was exactly when what it
leaves behind does not mutate the store. -/
theorem unfinished_request {s : YStore} (hsel : s.Selected) (env : Env) {buffer buffer' : Buffer}
    {vecCmd : List Bytes} (hread : onRead buffer = .ok (vecCmd, buffer')) {res : Parsed}
    (hres : ({} : YProtoParse).parseRequest buffer.readable 0 = .ok res)
    (hv : res.verdict = .wait ∨ res.verdict = .error) :
    storeAfter (execCommand env vecCmd ⟨s, []⟩) = s ↔
      ∀ g, PartialRequest buffer.readable g → ¬ Mutates s g := by
  obtain ⟨⟨res', hres', rfl⟩, -⟩ := (onRead_ok_iff _ _ _).mp hread
  rw [hres] at hres'
  cases hres'
  have hpartial := partialRequest_of_parse hres (by rcases hv with h | h <;> simp [h])
  rw [execCommand_keeps_iff hsel]
  constructor
  · intro h g hg
    rw [hg.unique hpartial]
    exact h
  · exact fun h => h _ hpartial

/-- A count line alone changes nothing. -/
theorem unfinished_request_count : storeAfter (execCommand default [[]] ⟨.start, []⟩) = .start := by
  have hres : ({} : YProtoParse).parseRequest (ascii "*1\r\n") 0 =
      .ok ⟨.wait, 4, { nMulti := 1, vecParams := [[]] }⟩ := by decide
  obtain ⟨hdata, buffer', hread⟩ := onRead_received hres
  rw [← hdata] at hres
  apply (unfinished_request YStore.selected_start default hread hres (Or.inl rfl)).mpr
  intro g hg
  rw [hg.unique (partialRequest_of_parse hres (by simp))]
  rintro ⟨c, key, haddr, -⟩
  exact absurd haddr (by simp [addressed, YProtoParse.getParams])

/-- A push that lacks its element is executed with an empty one. -/
theorem unfinished_request_executes : ∃ buffer',
    ({} : YProtoParse).parseRequest (ascii "*3\r\n$5\r\nLPUSH\r\n$1\r\nk\r\n") 0 =
        .ok ⟨.wait, 22,
          { nMulti := 3, nNumOfParam := 2, vecParams := [ascii "LPUSH", ascii "k", []] }⟩ ∧
      onRead (Buffer.new.readFd (ascii "*3\r\n$5\r\nLPUSH\r\n$1\r\nk\r\n")) =
        .ok ([ascii "LPUSH", ascii "k", []], buffer') ∧
      storeAfter (execCommand default [ascii "LPUSH", ascii "k", []] ⟨.start, []⟩) ≠ .start := by
  have hres : ({} : YProtoParse).parseRequest (ascii "*3\r\n$5\r\nLPUSH\r\n$1\r\nk\r\n") 0 =
      .ok ⟨.wait, 22,
        { nMulti := 3, nNumOfParam := 2, vecParams := [ascii "LPUSH", ascii "k", []] }⟩ := by decide
  obtain ⟨-, buffer', hread⟩ := onRead_received hres
  refine ⟨buffer', hres, hread, ?_⟩
  rw [ne_eq, execCommand_keeps_iff YStore.selected_start, not_not]
  exact ⟨.LPUSH, ascii "k", by decide, Or.inl ⟨rfl, rfl⟩⟩

end Yedis
