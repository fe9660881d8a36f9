import Yedis.Ownership
import Yedis.Runs
import Yedis.Store

/-!
# Tagged objects and their payloads

`YObject` as YedisCommon lays it out: a type, an encoding and a pointer that is null, a
number or a payload on the heap. The encoding alone says which, and as what a payload is
deleted. The objects of a program are created, moved, assigned, cleared and destroyed;
every payload stays with one object or has been deleted once.
-/

namespace Yedis
open Function Runs Ownership

inductive YEncode
  | invalid
  | raw
  | int
  | list
  | set
  | hash
  | sset
  deriving DecidableEq, Repr

/-- The type that an encoding belongs to. -/
def YEncode.type : YEncode → YType
  | invalid => .invalid
  | raw => .string
  | int => .string
  | list => .list
  | set => .set
  | hash => .hash
  | sset => .sortedSet

def YObject.encoding : YObject → YEncode
  | raw _ => .raw
  | int _ => .int
  | list _ => .list
  | set _ => .set
  | hash _ => .hash
  | sset _ => .sset

namespace Tagged

/-- What is allocated on the heap. -/
inductive Payload
  | string
  | list
  | set
  | hash
  | sortedSet
  deriving DecidableEq, Repr

/-- `void*`: a number in the place of an address, or a payload by its identity. -/
inductive Pointer
  | word (n : ℤ)
  | payload (id : ℕ)
  deriving DecidableEq, Repr

def nullptr : Pointer := .word 0

structure Heap where
  created : List Payload := []
  released : List (Payload × Pointer) := []

namespace Heap

def new (h : Heap) (k : Payload) : Pointer × Heap :=
  (.payload h.created.length, { h with created := h.created ++ [k] })

/-- `delete` on a pointer cast to the type of `k`. -/
def delete (h : Heap) (k : Payload) (value : Pointer) : Heap :=
  if value = nullptr then h else { h with released := (k, value) :: h.released }

def kind (h : Heap) : Pointer → Option Payload
  | .word _ => none
  | .payload id => h.created[id]?

/-- As what the payload was deleted, once for each time. -/
def releases (h : Heap) (id : ℕ) : List Payload :=
  (h.released.filter (·.2 = .payload id)).map Prod.fst

theorem kind_new (h : Heap) (k : Payload) :
    (h.new k).2.kind = update h.kind (h.new k).1 (some k) := by
  funext value
  cases value with
  | word n => rw [update_of_ne (by simp [new])]; rfl
  | payload id =>
      by_cases hid : id = h.created.length
      · rw [hid]
        simp [new, kind]
      · rw [update_of_ne (by simpa [new] using hid)]
        simp only [new, kind, List.getElem?_append, List.getElem?_singleton]
        split_ifs with hlt hsub
        · rfl
        · omega
        · rw [List.getElem?_eq_none (by omega)]

theorem kind_fresh (h : Heap) (k : Payload) : h.kind (h.new k).1 = none :=
  List.getElem?_eq_none (le_refl _)

end Heap

structure YObject where
  type : YType
  encoding : YEncode
  lru : ℕ
  value : Pointer
  deriving DecidableEq

namespace YObject

def new (t : YType) : YObject where
  type := t
  encoding :=
    match t with
    | .list => .list
    | .set => .set
    | .sortedSet => .sset
    | .hash => .hash
    | _ => .invalid
  lru := 0
  value := nullptr

def freeValue (obj : YObject) (h : Heap) : Heap :=
  match obj.encoding with
  | .raw => h.delete .string obj.value
  | .list => h.delete .list obj.value
  | .set => h.delete .set obj.value
  | .sset => h.delete .sortedSet obj.value
  | .hash => h.delete .hash obj.value
  | _ => h

end YObject

/-- The memory of the objects, those that exist, and the heap. -/
structure State (ι : Type) where
  objects : ι → YObject
  live : Finset ι := ∅
  heap : Heap := {}

namespace State

variable {ι : Type} [DecidableEq ι]

def assign (s : State ι) (i : ι) (obj : YObject) : State ι :=
  { s with objects := update s.objects i obj }

def construct (s : State ι) (i : ι) (t : YType) : State ι :=
  { s.assign i (.new t) with live := insert i s.live }

def reset (s : State ι) (i : ι) (newvalue : Pointer) : State ι :=
  let s := { s with heap := (s.objects i).freeValue s.heap }
  s.assign i { s.objects i with value := newvalue }

/-- The local object of a `create` function is the one that is returned. -/
def createString (s : State ι) (i : ι) (value : Bytes) : State ι :=
  let s := s.construct i .string
  match stringToLong value with
  | some val => s.assign i { s.objects i with encoding := .int, value := .word val }
  | none =>
    let s := s.assign i { s.objects i with encoding := .raw }
    let (p, heap) := s.heap.new .string
    { s with heap := heap }.assign i { s.objects i with value := p }

def createLong (s : State ι) (i : ι) (val : ℤ) : State ι :=
  let s := s.construct i .string
  s.assign i { s.objects i with encoding := .int, value := .word val }

def createContainer (s : State ι) (i : ι) (t : YType) (k : Payload) : State ι :=
  let s := s.construct i t
  let (p, heap) := s.heap.new k
  { s with heap := heap }.reset i p

def createList (s : State ι) (i : ι) : State ι := s.createContainer i .list .list

def createSet (s : State ι) (i : ι) : State ι := s.createContainer i .set .set

def createHash (s : State ι) (i : ι) : State ι := s.createContainer i .hash .hash

def createSSet (s : State ι) (i : ι) : State ι := s.createContainer i .sortedSet .sortedSet

/-- The two objects may be the same: each field is read after those before it are written. -/
def moveFrom (s : State ι) (this obj : ι) : State ι :=
  let s := s.reset this nullptr
  let s := s.assign this { s.objects this with encoding := (s.objects obj).encoding }
  let s := s.assign this { s.objects this with type := (s.objects obj).type }
  let s := s.assign this { s.objects this with value := (s.objects obj).value }
  let s := s.assign this { s.objects this with lru := (s.objects obj).lru }
  let s := s.assign obj { s.objects obj with encoding := .invalid }
  let s := s.assign obj { s.objects obj with type := .invalid }
  let s := s.assign obj { s.objects obj with value := nullptr }
  s.assign obj { s.objects obj with lru := 0 }

def moveConstruct (s : State ι) (this obj : ι) : State ι :=
  (s.construct this .invalid).moveFrom this obj

def moveAssign (s : State ι) (this obj : ι) : State ι := s.moveFrom this obj

def clear (s : State ι) (i : ι) : State ι :=
  let s := { s with heap := (s.objects i).freeValue s.heap }
  s.assign i ⟨.invalid, .invalid, 0, nullptr⟩

def destroy (s : State ι) (i : ι) : State ι :=
  { s with heap := (s.objects i).freeValue s.heap, live := s.live.erase i }

end State

/-- The functions that create an object with their arguments. -/
inductive Creation
  | string (value : Bytes)
  | long (val : ℤ)
  | list
  | set
  | hash
  | sset
  deriving DecidableEq

/-- The value that the object stands for in the store. -/
def Creation.object : Creation → Yedis.YObject
  | string value => .createString value
  | long val => .int val
  | list => .createList
  | set => .createSet
  | hash => .createHash
  | sset => .createSSet

inductive Op (ι : Type)
  | create (c : Creation) (i : ι)
  | moveConstruct (this obj : ι)
  | moveAssign (this obj : ι)
  | clear (i : ι)
  | destroy (i : ι)
  deriving DecidableEq

variable {ι : Type} [DecidableEq ι]

def Creation.run (c : Creation) (s : State ι) (i : ι) : State ι :=
  match c with
  | string value => s.createString i value
  | long val => s.createLong i val
  | list => s.createList i
  | set => s.createSet i
  | hash => s.createHash i
  | sset => s.createSSet i

namespace Op

def run (s : State ι) : Op ι → State ι
  | create c i => c.run s i
  | moveConstruct this obj => s.moveConstruct this obj
  | moveAssign this obj => s.moveAssign this obj
  | clear i => s.clear i
  | destroy i => s.destroy i

/-- Objects are created where there is none, and used while they exist. -/
def Allowed (s : State ι) : Op ι → Prop
  | create _ i => i ∉ s.live
  | moveConstruct this obj => this ∉ s.live ∧ obj ∈ s.live
  | moveAssign this obj => this ∈ s.live ∧ obj ∈ s.live
  | clear i => i ∈ s.live
  | destroy i => i ∈ s.live

end Op

def Step (s : State ι) (op : Op ι) (s' : State ι) : Prop := op.Allowed s ∧ op.run s = s'

end Tagged

end Yedis
