import Mathlib.Data.Finset.Sort
import Mathlib.Data.List.Lex
import Yedis.IntToken
import Yedis.Store

/-!
# Running a handler

A handler works on the store and on the reply buffer. Where it reads past its
parameters, fails an assertion or uses a null object it stops with a fault, and the
store and the reply stay as they were at that point. The reply formats are those of
YedisFormate.
-/

namespace Yedis

inductive ExecFault
  | paramIndex
  | assertion
  | nullObject
  deriving DecidableEq, Repr

/-- The store and the readable bytes of the reply buffer. -/
structure World where
  store : YStore
  reply : Bytes := []

abbrev Exec := EStateM ExecFault World

/-- What a command depends on besides the store: the order in which a hash set is walked, the member
that `randomHashMember` picks, and the number that a text denotes. -/
structure Env where
  order : Finset Bytes → List Bytes
  order_nodup : ∀ s, (order s).Nodup
  mem_order : ∀ s x, x ∈ order s ↔ x ∈ s
  pick : Finset Bytes → Bytes
  pick_mem : ∀ s : Finset Bytes, s.Nonempty → pick s ∈ s
  atof : Bytes → Score

/-- Sets walked in the order of their members, the first member picked, and texts without a number. -/
instance : Inhabited Env where
  default :=
    { order := fun s => s.sort (· ≤ ·)
      order_nodup := fun s => s.sort_nodup _
      mem_order := fun s _ => s.mem_sort _
      pick := fun s => (s.sort (· ≤ ·)).headD []
      pick_mem := by
        intro s hs
        cases hsort : s.sort (· ≤ ·) with
        | nil =>
            obtain ⟨x, hx⟩ := hs
            rw [← s.mem_sort (· ≤ ·), hsort] at hx
            cases hx
        | cons x xs =>
            rw [← s.mem_sort (· ≤ ·), hsort]
            exact List.mem_cons_self
      atof := fun _ => .fin 0 }

def pushData (data : Bytes) : Exec Unit := modify fun w => { w with reply := w.reply ++ data }

def modifyStore (f : YStore → YStore) : Exec Unit := modify fun w => { w with store := f w.store }

/-- `params[i]`. -/
def param (params : List Bytes) (i : ℕ) : Exec Bytes :=
  match params[i]? with
  | some p => pure p
  | none => throw .paramIndex

def getValueByType (key : Bytes) (type : YType) : Exec (Except YError YObject) := do
  return (← get).store.getValueByType key type

/-! ### YedisFormate -/

def formatInt (value : ℤ) : Bytes := ascii ":" ++ signedDecimal value ++ crlf

def preFormatMultiBulk (nBulk : ℕ) : Bytes := ascii "*" ++ decimal nBulk ++ crlf

def formatBulk (str : Bytes) : Bytes := ascii "$" ++ decimal str.length ++ crlf ++ str ++ crlf

def formatNull : Bytes := ascii "$-1\r\n"

def format0 : Bytes := ascii ":0\r\n"

/-- The error line of `push`. -/
def noSuchKey : Bytes := ascii "-ERR no such key\r\n"

def unknownCommand : Bytes := ascii "-ERR Unknown command\r\n"

/-- `"-ERR error type\r\n"` cut to `sizeof("-ERR error type") - 1` bytes. -/
def errorType : Bytes := ascii "-ERR error type"

section Primitives
variable {α β : Type} (w : World)

@[simp] theorem exec_bind (x : Exec α) (f : α → Exec β) : (x >>= f) w =
    match x w with
    | .ok a w' => f a w'
    | .error e w' => .error e w' := by
  cases h : x w <;> simp [bind, EStateM.bind, h]

@[simp] theorem exec_map (f : α → β) (x : Exec α) : (f <$> x) w =
    match x w with
    | .ok a w' => .ok (f a) w'
    | .error e w' => .error e w' := by
  cases h : x w <;> simp [Functor.map, EStateM.map, h]

@[simp] theorem exec_pure (a : α) : (pure a : Exec α) w = .ok a w := rfl

@[simp] theorem exec_throw (e : ExecFault) : (throw e : Exec α) w = .error e w := rfl

@[simp] theorem exec_get : (get : Exec World) w = .ok w w := rfl

@[simp] theorem pushData_run (data : Bytes) :
    pushData data w = .ok () ⟨w.store, w.reply ++ data⟩ := rfl

@[simp] theorem modifyStore_run (f : YStore → YStore) :
    modifyStore f w = .ok () ⟨f w.store, w.reply⟩ := rfl

variable {params : List Bytes} {i : ℕ} {p : Bytes}

theorem param_run (h : params[i]? = some p) : param params i w = .ok p w := by
  rw [param, h]
  rfl

theorem param_none (h : params[i]? = none) : param params i w = .error .paramIndex w := by
  rw [param, h]
  rfl

end Primitives

section Lookup
variable {w : World} {key : Bytes} {obj : YObject} {t : YType}

theorem getValueByType_run (hget : w.store.getObject key = some obj) (ht : obj.type = t) :
    getValueByType key t w = .ok (.ok obj) w := by
  simp [getValueByType, YStore.getValueByType, hget, ht]

theorem getValueByType_absent (hget : w.store.getObject key = none) :
    getValueByType key t w = .ok (.error .notExist) w := by
  simp [getValueByType, YStore.getValueByType, hget]

theorem getValueByType_other (hget : w.store.getObject key = some obj) (ht : obj.type ≠ t)
    (hinv : t ≠ .invalid) : getValueByType key t w = .ok (.error .type) w := by
  simp [getValueByType, YStore.getValueByType, hget, hinv, ht.symm]

theorem type_list {obj : YObject} (h : obj.type = .list) : ∃ l, obj = .list l := by
  cases obj <;> simp_all [YObject.type]

theorem type_set {obj : YObject} (h : obj.type = .set) : ∃ m, obj = .set m := by
  cases obj <;> simp_all [YObject.type]

theorem type_hash {obj : YObject} (h : obj.type = .hash) : ∃ m, obj = .hash m := by
  cases obj <;> simp_all [YObject.type]

theorem type_sortedSet {obj : YObject} (h : obj.type = .sortedSet) : ∃ z, obj = .sset z := by
  cases obj <;> simp_all [YObject.type]

end Lookup

end Yedis
