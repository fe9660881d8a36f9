import Yedis.Exec

/-!
# Command handlers

The handlers of YString, YList, YSet, YHash and YSortedSet, in the order of the
source and with its helpers.
-/

namespace Yedis

/-! ### YString -/

namespace YString

/-- `setValue`, whose result says whether the value was stored. -/
def setValue (key value : Bytes) (exclusive : Bool) : Exec Bool := do
  if exclusive then
    if let .ok _ := (← get).store.getValue key then
      return false
  modifyStore fun store => store.setValue key (.createString value)
  return true

/-- `getDecodeString`, which is called on strings only. -/
def getDecodeString : YObject → Bytes
  | .raw value => value
  | .int value => signedDecimal value
  | _ => []

def setCmd (params : List Bytes) : Exec YError := do
  let key ← param params 1
  let value ← param params 2
  let _ ← setValue key value false
  pushData (ascii "+OK\r\n")
  return .ok

def getCmd (params : List Bytes) : Exec YError := do
  let key ← param params 1
  match ← getValueByType key .string with
  | .error err =>
    if err = .notExist then pushData (ascii "$-1\r\n") else pushData noSuchKey
    return err
  | .ok value =>
    pushData (formatBulk (getDecodeString value))
    return .ok

def setnxCmd (params : List Bytes) : Exec YError := do
  let key ← param params 1
  let value ← param params 2
  if ← setValue key value true then pushData (ascii ":1\r\n") else pushData (ascii ":0\r\n")
  return .ok

end YString

/-! ### YList -/

namespace YList

inductive ListPosition
  | head
  | tail
  deriving DecidableEq

/-- The `for` loop of `push`. -/
def pushAll (pos : ListPosition) (list : List Bytes) (elements : List Bytes) : List Bytes :=
  elements.foldl (fun list p => if pos = .head then p :: list else list ++ [p]) list

/-- `push` returns no value on the path that stores something; no caller reads it. -/
def push (params : List Bytes) (pos : ListPosition) (createIfNotExist : Bool) : Exec YError := do
  let key ← param params 1
  let mut value := YObject.createList
  match ← getValueByType key .list with
  | .error err =>
    if err ≠ .notExist then
      pushData noSuchKey
      return err
    else if createIfNotExist then
      modifyStore fun store => store.setValue key .createList
    else
      pushData noSuchKey
      return err
  | .ok obj => value := obj
  let list := pushAll pos value.castList (params.drop 2)
  modifyStore fun store => store.setValue key (.list list)
  pushData (formatInt list.length)
  return .ok

def lpush (params : List Bytes) : Exec YError := push params .head true

def rpush (params : List Bytes) : Exec YError := push params .tail true

def lpushx (params : List Bytes) : Exec YError := push params .head false

def rpushx (params : List Bytes) : Exec YError := push params .tail false

/-- `front()` and `pop_front()`, or `back()` and `pop_back()`. -/
def takeElement (pos : ListPosition) (front : Bytes) (rest : List Bytes) : Bytes × List Bytes :=
  if pos = .head then (front, rest)
  else ((front :: rest).getLast (by simp), (front :: rest).dropLast)

def pop (key : Bytes) (pos : ListPosition) : Exec (Except YError Bytes) := do
  match ← getValueByType key .list with
  | .error err => return .error err
  | .ok value =>
    match value.castList with
    | [] => throw .assertion
    | front :: rest =>
      let (result, list) := takeElement pos front rest
      if list = [] then
        modifyStore fun store => store.deleteKey key
      else
        modifyStore fun store => store.setValue key (.list list)
      return .ok result

/-- `lpop` and `rpop`, which answer nothing when there is no list. -/
def popCmd (pos : ListPosition) (params : List Bytes) : Exec YError := do
  let key ← param params 1
  match ← pop key pos with
  | .ok result =>
    pushData (formatBulk result)
    return .ok
  | .error err => return err

def lpop (params : List Bytes) : Exec YError := popCmd .head params

def rpop (params : List Bytes) : Exec YError := popCmd .tail params

def llen (params : List Bytes) : Exec YError := do
  let key ← param params 1
  match ← getValueByType key .list with
  | .error err =>
    if err = .type then pushData unknownCommand else pushData format0
    return err
  | .ok value =>
    pushData (formatInt value.castList.length)
    return .ok

def adjustIndex (start stop : ℤ) (size : ℕ) : ℤ × ℤ :=
  if size = 0 then (1, 0)
  else
    let start := if start < 0 then start + size else start
    let start := if start < 0 then 0 else start
    let stop := if stop < 0 then stop + size else stop
    let stop := if size ≤ stop then (size : ℤ) - 1 else stop
    (start, stop)

/-- `index2Iterator` for the first of its two iterators, given as the list from it on. -/
def index2Iterator (start stop : ℤ) (list : List Bytes) : Exec (List Bytes) := do
  if ¬ (0 ≤ start ∧ 0 ≤ stop ∧ start ≤ stop ∧ stop < list.length) then
    throw .assertion
  if start * 2 < list.length then
    return list.drop start.toNat
  else
    return list.drop (list.length - (list.length - start.toNat))

/-- `getRange`: the length of the range and the list from its first element on. -/
def getRange (start stop : ℤ) (list : List Bytes) : Exec (ℕ × List Bytes) := do
  if stop < start then
    return (0, [])
  else if start ≠ 0 ∨ stop + 1 ≠ list.length then
    return ((stop - start + 1).toNat, ← index2Iterator start stop list)
  else
    return (list.length, list)

/-- `lrange`, which answers nothing unless there is a list and both indices are integers. -/
def lrange (params : List Bytes) : Exec YError := do
  let key ← param params 1
  match ← getValueByType key .list with
  | .error err => return err
  | .ok value =>
    match YedisStrtol (← param params 2) with
    | none => return .ok
    | some start =>
      match YedisStrtol (← param params 3) with
      | none => return .ok
      | some stop =>
        let list := value.castList
        let (start, stop) := adjustIndex start stop list.length
        let (rangeLen, fromBegin) ← getRange start stop list
        pushData (preFormatMultiBulk rangeLen)
        pushData ((fromBegin.take rangeLen).flatMap formatBulk)
        return .ok

end YList

/-! ### YSet -/

namespace YSet

/-- `getSet`; `none` is the null pointer. -/
def getSet (strSetName : Bytes) : Exec (Option YObject) := do
  match ← getValueByType strSetName .set with
  | .error err =>
    if err = .notExist then pushData formatNull else pushData errorType
    return none
  | .ok value => return some value

def creatrOrGetSet (strSetName : Bytes) : Exec (Option YObject) := do
  match ← getValueByType strSetName .set with
  | .error err =>
    if err ≠ .notExist then
      pushData errorType
      return none
    else
      modifyStore fun store => store.setValue strSetName .createSet
      return some .createSet
  | .ok value => return some value

/-- The `for` loop of `sadd`, with the number of members that were new. -/
def insertAll (set : Finset Bytes) (members : List Bytes) : Finset Bytes × ℕ :=
  members.foldl (fun (set, res) m => if m ∈ set then (set, res) else (insert m set, res + 1))
    (set, 0)

def sadd (params : List Bytes) : Exec YError := do
  let key ← param params 1
  match ← creatrOrGetSet key with
  | none =>
    pushData errorType
    return .type
  | some value =>
    let (set, res) := insertAll value.castSet (params.drop 2)
    modifyStore fun store => store.setValue key (.set set)
    pushData (formatInt (wrap32 res))
    return .ok

def scard (params : List Bytes) : Exec YError := do
  match ← getSet (← param params 1) with
  | none =>
    pushData errorType
    return .type
  | some value =>
    pushData (formatInt value.castSet.card)
    return .ok

def smember (env : Env) (params : List Bytes) : Exec YError := do
  match ← getSet (← param params 1) with
  | none =>
    pushData errorType
    return .type
  | some value =>
    pushData (preFormatMultiBulk value.castSet.card)
    pushData ((env.order value.castSet).flatMap formatBulk)
    return .ok

def spop (env : Env) (params : List Bytes) : Exec YError := do
  let key ← param params 1
  match ← getSet key with
  | none =>
    pushData errorType
    return .type
  | some value =>
    let set := value.castSet
    if set = ∅ then
      pushData formatNull
      return .notExist
    else
      let res := env.pick set
      pushData (formatBulk res)
      if set.erase res = ∅ then
        modifyStore fun store => store.deleteKey key
      else
        modifyStore fun store => store.setValue key (.set (set.erase res))
      return .ok

end YSet

/-! ### YHash -/

namespace YHash

def getHash (strHashName : Bytes) : Exec (Option YObject) := do
  match ← getValueByType strHashName .hash with
  | .error _ =>
    pushData errorType
    return none
  | .ok value => return some value

def getOrCreateHash (strHashName : Bytes) : Exec (Option YObject) := do
  match ← getValueByType strHashName .hash with
  | .error err =>
    if err ≠ .notExist then
      pushData errorType
      return none
    else
      modifyStore fun store => store.setValue strHashName .createHash
      return some .createHash
  | .ok value => return some value

def hset (params : List Bytes) : Exec YError := do
  let name ← param params 1
  match ← getOrCreateHash name with
  | none => return .type
  | some value =>
    let key ← param params 2
    let val ← param params 3
    modifyStore fun store => store.setValue name (.hash (value.castHash.insert key val))
    pushData (formatInt 1)
    return .ok

def hget (params : List Bytes) : Exec YError := do
  match ← getHash (← param params 1) with
  | none => return .type
  | some value =>
    match value.castHash.lookup (← param params 2) with
    | some val => pushData (formatBulk val)
    | none => pushData formatNull
    return .ok

end YHash

/-! ### YSortedSet -/

namespace YSortedSet

def getOrCreateSortedset (strName : Bytes) : Exec (Option YObject) := do
  match ← getValueByType strName .sortedSet with
  | .error err =>
    if err ≠ .notExist then
      pushData errorType
      return none
    else
      modifyStore fun store => store.setValue strName .createSSet
      return some .createSSet
  | .ok value => return some value

def addMember (sset : YSortedSet) (member : Bytes) (score : Score) : Exec YSortedSet := do
  if (sset.findMember member).isSome then
    throw .assertion
  return {
    score2Members := insertScore member score sset.score2Members
    member2Scores := sset.member2Scores.insert member score }

/-- The `for` loop of `zadd` over pairs of a score and a member. -/
def addAll (env : Env) : List Bytes → YSortedSet → ℕ → Exec (YSortedSet × ℕ)
  | score :: member :: rest, sset, newMembers => do
    match sset.findMember member with
    | none => addAll env rest (← addMember sset member (env.atof score)) (newMembers + 1)
    | some _ => addAll env rest sset newMembers
  | _, sset, newMembers => return (sset, newMembers)

/-- `zadd`, which does not look at the null pointer it may get. It is registered with a null object
of its own, of which it uses no member. -/
def zadd (env : Env) (params : List Bytes) : Exec YError := do
  if params.length % 2 ≠ 0 then
    pushData (ascii "-ERR syntax error\r\n")
    return .syntaxError
  let key ← param params 1
  match ← getOrCreateSortedset key with
  | none => throw .nullObject
  | some value =>
    let (sset, newMembers) ← addAll env (params.drop 2) value.castSortedSet 0
    modifyStore fun store => store.setValue key (.sset sset)
    pushData (formatInt newMembers)
    return .ok

end YSortedSet

end Yedis
