import Mathlib.Data.Finmap
import Mathlib.Data.Rat.Defs
import Yedis.Strtol

/-!
# The store

Objects as in YedisCommon, `YSortedSet` with its two maps, and `YStore` with its
databases. The payload of an object is kept with its encoding; the time stamp
`lru`, which nothing reads, is left out.
-/

namespace Yedis

inductive YType
  | invalid
  | string
  | list
  | set
  | sortedSet
  | hash
  deriving DecidableEq, Repr

inductive YError
  | ok
  | type
  | notExist
  | syntaxError
  deriving DecidableEq, Repr

/-- The values `atof` can return: a linear order with infinities, and NaN. -/
inductive Score
  | nan
  | negInf
  | fin (q : ℚ)
  | posInf
  deriving DecidableEq

/-- `operator<` on `double`. -/
def Score.lt : Score → Score → Bool
  | .nan, _ => false
  | _, .nan => false
  | .negInf, .negInf => false
  | .negInf, _ => true
  | .fin _, .negInf => false
  | .fin p, .fin q => p < q
  | .fin _, .posInf => true
  | .posInf, _ => false

structure YSortedSet where
  score2Members : List (Score × Finset Bytes) := []
  member2Scores : Finmap fun _ : Bytes => Score := ∅
  deriving DecidableEq

namespace YSortedSet

/-- `m_Score2Members[score].insert(member)`: the map is searched with `lower_bound`. -/
def insertScore (member : Bytes) (score : Score) :
    List (Score × Finset Bytes) → List (Score × Finset Bytes)
  | [] => [(score, {member})]
  | (s, members) :: rest =>
    if s.lt score then (s, members) :: insertScore member score rest
    else if score.lt s then (score, {member}) :: (s, members) :: rest
    else (s, insert member members) :: rest

def findMember (z : YSortedSet) (member : Bytes) : Option Score := z.member2Scores.lookup member

end YSortedSet

/-- `YObject` with its payload: `raw` and `int` are the two encodings of a string. -/
inductive YObject
  | raw (value : Bytes)
  | int (value : ℤ)
  | list (value : List Bytes)
  | set (value : Finset Bytes)
  | hash (value : Finmap fun _ : Bytes => Bytes)
  | sset (value : YSortedSet)
  deriving DecidableEq

namespace YObject

def type : YObject → YType
  | raw _ => .string
  | int _ => .string
  | list _ => .list
  | set _ => .set
  | hash _ => .hash
  | sset _ => .sortedSet

def createString (value : Bytes) : YObject :=
  match stringToLong value with
  | some val => int val
  | none => raw value

def createList : YObject := list []

def createSet : YObject := set ∅

def createHash : YObject := hash ∅

def createSSet : YObject := sset {}

/-- The casts of `value`, which are applied to objects of their own type only. -/
def castList : YObject → List Bytes
  | list value => value
  | _ => []

def castSet : YObject → Finset Bytes
  | set value => value
  | _ => ∅

def castHash : YObject → Finmap fun _ : Bytes => Bytes
  | hash value => value
  | _ => ∅

def castSortedSet : YObject → YSortedSet
  | sset value => value
  | _ => {}

theorem type_createString (value : Bytes) : (createString value).type = .string := by
  unfold createString
  cases stringToLong value <;> rfl

end YObject

/-- Inserting changes a map unless the entry is there already. -/
theorem insert_eq_self {β : Type} (m : Finmap fun _ : Bytes => β) (key : Bytes) (value : β) :
    m.insert key value = m ↔ m.lookup key = some value := by
  constructor
  · intro heq
    rw [← heq, Finmap.lookup_insert]
  · intro hget
    apply Finmap.ext_lookup
    intro k
    by_cases hk : k = key
    · rw [hk, Finmap.lookup_insert]
      exact hget.symm
    · rw [Finmap.lookup_insert_of_ne _ hk]

abbrev YDB := Finmap fun _ : Bytes => YObject

def kMaxDbNum : ℤ := 65536

structure YStore where
  vecStore : List YDB := []
  nDbno : ℤ := 0
  deriving DecidableEq

namespace YStore

def init (self : YStore) (dbNum : ℤ) : YStore :=
  let dbNum := if dbNum < 1 then 1 else if kMaxDbNum < dbNum then kMaxDbNum else dbNum
  { self with
    vecStore := self.vecStore.take dbNum.toNat ++
      List.replicate (dbNum.toNat - self.vecStore.length) ∅ }

def selectDB (self : YStore) (dbno : ℤ) : ℤ × YStore :=
  if dbno = self.nDbno then (self.nDbno, self)
  else if 0 ≤ dbno ∧ dbno < self.vecStore.length then (self.nDbno, { self with nDbno := dbno })
  else (-1, self)

/-- The store a `YedisRegisterCmd` leaves behind: `init(0)` and `selectDB(0)`. -/
def start : YStore := (YStore.selectDB (YStore.init {} 0) 0).2

/-- `m_vecStore[m_nDbno]`. -/
def db (self : YStore) : YDB := self.vecStore.getD self.nDbno.toNat ∅

def withDB (self : YStore) (db : YDB) : YStore :=
  { self with vecStore := self.vecStore.set self.nDbno.toNat db }

def getObject (self : YStore) (key : Bytes) : Option YObject := self.db.lookup key

def deleteKey (self : YStore) (key : Bytes) : YStore := self.withDB (self.db.erase key)

def getValueByType (self : YStore) (key : Bytes) (type : YType) : Except YError YObject :=
  match self.getObject key with
  | some obj => if type ≠ .invalid ∧ type ≠ obj.type then .error .type else .ok obj
  | none => .error .notExist

def getValue (self : YStore) (key : Bytes) : Except YError YObject :=
  self.getValueByType key .invalid

/-- `setValue`; a change made through a pointer into the store is the same update. -/
def setValue (self : YStore) (key : Bytes) (value : YObject) : YStore :=
  self.withDB (self.db.insert key value)

/-- The selected database exists. -/
def Selected (self : YStore) : Prop := self.nDbno.toNat < self.vecStore.length

theorem selected_start : start.Selected := by
  unfold Selected
  decide

theorem getObject_start (key : Bytes) : start.getObject key = none := rfl

@[simp] theorem db_withDB {self : YStore} (h : self.Selected) (db : YDB) :
    (self.withDB db).db = db := by
  rw [YStore.db, withDB, List.getD_eq_getElem?_getD, List.getElem?_set_self h]
  rfl

theorem Selected.withDB {self : YStore} (h : self.Selected) (db : YDB) :
    (self.withDB db).Selected := by
  unfold Selected YStore.withDB
  rw [List.length_set]
  exact h

theorem Selected.setValue {self : YStore} (h : self.Selected) (key : Bytes) (value : YObject) :
    (self.setValue key value).Selected := h.withDB _

theorem Selected.deleteKey {self : YStore} (h : self.Selected) (key : Bytes) :
    (self.deleteKey key).Selected := h.withDB _

theorem getObject_setValue {self : YStore} (h : self.Selected) (key k : Bytes) (value : YObject) :
    (self.setValue key value).getObject k = if k = key then some value else self.getObject k := by
  rw [getObject, YStore.setValue, db_withDB h]
  split_ifs with hk
  · rw [hk, Finmap.lookup_insert]
  · rw [Finmap.lookup_insert_of_ne _ hk]
    rfl

theorem getObject_deleteKey {self : YStore} (h : self.Selected) (key k : Bytes) :
    (self.deleteKey key).getObject k = if k = key then none else self.getObject k := by
  rw [getObject, YStore.deleteKey, db_withDB h]
  split_ifs with hk
  · rw [hk, Finmap.lookup_erase]
  · rw [Finmap.lookup_erase_ne hk]
    rfl

theorem setValue_setValue {self : YStore} (h : self.Selected) (key : Bytes) (value value' : YObject) :
    (self.setValue key value).setValue key value' = self.setValue key value' := by
  rw [YStore.setValue, YStore.setValue, db_withDB h, Finmap.insert_insert, YStore.setValue,
    YStore.withDB, YStore.withDB, YStore.withDB]
  simp only [List.set_set]

theorem withDB_eq_self {self : YStore} (h : self.Selected) (db : YDB) :
    self.withDB db = self ↔ db = self.db := by
  constructor
  · intro heq
    rw [← heq, db_withDB h]
  · rintro rfl
    have hsame : self.vecStore.set self.nDbno.toNat self.db = self.vecStore := by
      rw [YStore.db, List.getD_eq_getElem?_getD, List.getElem?_eq_getElem h]
      exact List.set_getElem_self h
    rw [YStore.withDB, hsame]

/-- Writing to a key changes the store unless the key is bound to that object already. -/
theorem setValue_eq_self {self : YStore} (h : self.Selected) (key : Bytes) (value : YObject) :
    self.setValue key value = self ↔ self.getObject key = some value := by
  rw [YStore.setValue, withDB_eq_self h]
  exact insert_eq_self self.db key value

theorem deleteKey_eq_self {self : YStore} (h : self.Selected) (key : Bytes) :
    self.deleteKey key = self ↔ self.getObject key = none := by
  rw [YStore.deleteKey, withDB_eq_self h]
  constructor
  · intro heq
    rw [getObject, ← heq, Finmap.lookup_erase]
  · intro hget
    apply Finmap.ext_lookup
    intro k
    by_cases hk : k = key
    · rw [hk, Finmap.lookup_erase]
      exact hget.symm
    · rw [Finmap.lookup_erase_ne hk]

end YStore

end Yedis
