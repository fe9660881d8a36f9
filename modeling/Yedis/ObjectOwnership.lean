import Yedis.TaggedObject

/-!
# Every payload has one owner

What the operations on tagged objects do to the payloads: creating acquires one,
moving releases what the target had and hands over what the source has, clearing and
destroying release. So an object's tags agree, and its pointer is what they say.
-/

namespace Yedis.Tagged
open Function Runs Ownership

/-- The kind of payload that an object with this encoding points to. -/
def payloadOf : YEncode → Option Payload
  | .raw => some .string
  | .list => some .list
  | .set => some .set
  | .hash => some .hash
  | .sset => some .sortedSet
  | .invalid | .int => none

namespace YObject

def owned (obj : YObject) : Option (Payload × Pointer) :=
  match obj.value with
  | .payload id => (payloadOf obj.encoding).map fun k => (k, .payload id)
  | .word _ => none

/-- The type and the encoding agree, and the pointer is null or what the encoding says. -/
structure Tidy (obj : YObject) : Prop where
  tags : obj.encoding.type = obj.type
  value : (obj.encoding = .int ∧ ∃ n, obj.value = .word n) ∨ obj.value = nullptr ∨
    ∃ k, obj.owned = some (k, obj.value)

theorem freeValue_eq_delete (obj : YObject) (h : Heap) :
    obj.freeValue h = (payloadOf obj.encoding).elim h fun k => h.delete k obj.value := by
  unfold freeValue
  cases obj.encoding <;> rfl

@[simp] theorem freeValue_created (obj : YObject) (h : Heap) :
    (obj.freeValue h).created = h.created := by
  rw [freeValue_eq_delete]
  cases payloadOf obj.encoding with
  | none => rfl
  | some k =>
      simp only [Option.elim_some, Heap.delete]
      split_ifs <;> rfl

theorem owned_eq_some {obj : YObject} {k : Payload} {value : Pointer}
    (h : obj.owned = some (k, value)) :
    payloadOf obj.encoding = some k ∧ obj.value = value ∧ ∃ id, value = .payload id := by
  unfold owned at h
  cases hv : obj.value with
  | word n => simp [hv] at h
  | payload id =>
      simp only [hv, Option.map_eq_some_iff, Prod.mk.injEq] at h
      obtain ⟨k', hk, rfl, rfl⟩ := h
      exact ⟨hk, rfl, id, rfl⟩

theorem freeValue_released {obj : YObject} (hobj : obj.Tidy) (h : Heap) :
    (obj.freeValue h).released = obj.owned.toList ++ h.released := by
  rw [freeValue_eq_delete]
  rcases hobj.value with ⟨hint, n, hn⟩ | hnull | ⟨k, hk⟩
  · simp [owned, hint, hn, payloadOf]
  · cases hp : payloadOf obj.encoding with
    | none => simp [owned, hnull, nullptr]
    | some k => simp [owned, hnull, nullptr, Heap.delete]
  · obtain ⟨hp, -, id, hid⟩ := owned_eq_some hk
    rw [hp, Option.elim_some, Heap.delete, if_neg (by simp [hid, nullptr]), hk]
    rfl

@[simp] theorem owned_new (t : YType) : (new t).owned = none := rfl

@[simp] theorem freeValue_new (t : YType) (h : Heap) : (new t).freeValue h = h := by
  cases t <;> rfl

theorem owned_payload {obj : YObject} {k : Payload} {id : ℕ} (hp : payloadOf obj.encoding = some k)
    (hv : obj.value = .payload id) : obj.owned = some (k, .payload id) := by
  simp only [owned, hv, hp, Option.map_some]

theorem tidy_new : (new .invalid).Tidy := ⟨rfl, .inr (.inl rfl)⟩

end YObject

theorem kind_freeValue (obj : YObject) (h : Heap) : (obj.freeValue h).kind = h.kind := by
  funext value
  cases value with
  | word n => rfl
  | payload id => exact congrArg (·[id]?) (obj.freeValue_created h)

section
variable {ι : Type} [DecidableEq ι]

/-- The payload of each object that exists. -/
def refs (objects : ι → YObject) (live : Finset ι) (i : ι) : Option (Payload × Pointer) :=
  if i ∈ live then (objects i).owned else none

theorem refs_of_notMem {live : Finset ι} {i : ι} (hi : i ∉ live) (objects : ι → YObject) :
    refs objects live i = none := if_neg hi

theorem refs_of_mem {live : Finset ι} {i : ι} (hi : i ∈ live) (objects : ι → YObject) :
    refs objects live i = (objects i).owned := if_pos hi

theorem refs_insert (objects : ι → YObject) (live : Finset ι) (i : ι) (obj : YObject) :
    refs (update objects i obj) (insert i live) = update (refs objects live) i obj.owned := by
  funext j
  by_cases hji : j = i
  · rw [hji, update_self, refs_of_mem (Finset.mem_insert_self i live), update_self]
  · rw [update_of_ne hji, refs, refs, update_of_ne hji]
    simp only [Finset.mem_insert, hji, false_or]

theorem refs_update {live : Finset ι} {i : ι} (hi : i ∈ live) (objects : ι → YObject)
    (obj : YObject) :
    refs (update objects i obj) live = update (refs objects live) i obj.owned := by
  rw [← refs_insert, Finset.insert_eq_of_mem hi]

theorem refs_erase (objects : ι → YObject) (live : Finset ι) (i : ι) :
    refs objects (live.erase i) = update (refs objects live) i none := by
  funext j
  by_cases hji : j = i
  · rw [hji, update_self, refs_of_notMem (Finset.notMem_erase i live)]
  · rw [update_of_ne hji, refs, refs]
    simp only [Finset.mem_erase, ne_eq, hji, not_false_eq_true, true_and]

structure Sound (s : State ι) : Prop where
  tidy : ∀ i ∈ s.live, (s.objects i).Tidy
  owned : Owned s.heap.kind s.heap.released (refs s.objects s.live)

theorem sound_start (memory : ι → YObject) : Sound { objects := memory : State ι } := by
  refine ⟨fun i hi => absurd hi (Finset.notMem_empty i), ?_⟩
  have hkind : Heap.kind {} = fun _ => none := by
    funext value
    cases value <;> rfl
  rw [hkind]
  exact .start

theorem State.moveFrom_eq (s : State ι) (this obj : ι) :
    s.moveFrom this obj =
      { s with
        objects := update (update s.objects this (s.objects obj)) obj (.new .invalid)
        heap := (s.objects this).freeValue s.heap } := by
  by_cases h : obj = this
  · subst h
    simp [moveFrom, reset, assign, YObject.new, nullptr]
  · simp [moveFrom, reset, assign, YObject.new, nullptr, update_of_ne h]

theorem State.createContainer_eq (s : State ι) (i : ι) (t : YType) (k : Payload) :
    s.createContainer i t k =
      ⟨update s.objects i { YObject.new t with value := (s.heap.new k).1 }, insert i s.live,
        (s.heap.new k).2⟩ := by
  simp [createContainer, construct, reset, assign]

theorem State.createLong_eq (s : State ι) (i : ι) (n : ℤ) :
    s.createLong i n =
      ⟨update s.objects i ⟨.string, .int, 0, .word n⟩, insert i s.live, s.heap⟩ := by
  simp [createLong, construct, assign, YObject.new]

theorem State.createString_int {value : Bytes} {n : ℤ} (h : stringToLong value = some n)
    (s : State ι) (i : ι) : s.createString i value = s.createLong i n := by
  simp only [createString, createLong, h]

theorem State.createString_raw {value : Bytes} (h : stringToLong value = none) (s : State ι)
    (i : ι) :
    s.createString i value =
      ⟨update s.objects i ⟨.string, .raw, 0, (s.heap.new .string).1⟩, insert i s.live,
        (s.heap.new .string).2⟩ := by
  simp [createString, h, construct, assign, YObject.new]

theorem type_encoding (value : Yedis.YObject) : value.encoding.type = value.type := by
  cases value <;> rfl

/-- There is one object more, with the tags of the value it stands for. A number is stored in it,
for anything else it gets a payload of its own. -/
def Creates (c : Creation) (s : State ι) (i : ι) (s' : State ι) : Prop :=
  ∃ obj heap, s' = ⟨update s.objects i obj, insert i s.live, heap⟩ ∧
    obj.type = c.object.type ∧ obj.encoding = c.object.encoding ∧
    ((∃ n, c.object = .int n ∧ obj.value = .word n ∧ heap = s.heap) ∨
      ∃ k, payloadOf obj.encoding = some k ∧ obj.value = (s.heap.new k).1 ∧
        heap = (s.heap.new k).2)

theorem creates_long {c : Creation} {n : ℤ} (h : c.object = .int n) (s : State ι) (i : ι) :
    Creates c s i (s.createLong i n) := by
  rw [State.createLong_eq]
  refine ⟨_, s.heap, rfl, ?_, ?_, .inl ⟨n, h, rfl, rfl⟩⟩
  · rw [h]
    rfl
  · rw [h]
    rfl

theorem creates_container {c : Creation} {t : YType} {k : Payload} (s : State ι) (i : ι)
    (htype : t = c.object.type) (hencoding : (YObject.new t).encoding = c.object.encoding)
    (hk : payloadOf (YObject.new t).encoding = some k) :
    Creates c s i (s.createContainer i t k) := by
  rw [State.createContainer_eq]
  exact ⟨_, _, rfl, htype, hencoding, .inr ⟨k, hk, rfl, rfl⟩⟩

theorem Creation.creates (c : Creation) (s : State ι) (i : ι) : Creates c s i (c.run s i) := by
  cases c with
  | string value =>
      cases hlong : stringToLong value with
      | some n =>
          rw [run, State.createString_int hlong]
          refine creates_long ?_ s i
          rw [object, Yedis.YObject.createString, hlong]
      | none =>
          have hobject : (string value).object = .raw value := by
            rw [object, Yedis.YObject.createString, hlong]
          rw [run, State.createString_raw hlong]
          refine ⟨_, _, rfl, ?_, ?_, .inr ⟨.string, rfl, rfl, rfl⟩⟩
          · rw [hobject]
            rfl
          · rw [hobject]
            rfl
  | long n => exact creates_long rfl s i
  | list => exact creates_container s i rfl rfl rfl
  | set => exact creates_container s i rfl rfl rfl
  | hash => exact creates_container s i rfl rfl rfl
  | sset => exact creates_container s i rfl rfl rfl

theorem Sound.create {s : State ι} (h : Sound s) (c : Creation) {i : ι} (hi : i ∉ s.live) :
    Sound (c.run s i) := by
  obtain ⟨obj, heap, hrun, htype, hencoding, hvalue⟩ := c.creates s i
  have htags : obj.encoding.type = obj.type := by
    rw [hencoding, htype]
    exact type_encoding c.object
  have hnone := refs_of_notMem hi s.objects
  have hother : ∀ j ∈ insert i s.live, j ≠ i → (s.objects j).Tidy := fun j hj hji =>
    h.tidy j ((Finset.mem_insert.mp hj).resolve_left hji)
  have htidy : obj.Tidy → ∀ j ∈ insert i s.live, (update s.objects i obj j).Tidy := by
    intro hobj j hj
    by_cases hji : j = i
    · rwa [hji, update_self]
    · rw [update_of_ne hji]
      exact hother j hj hji
  rw [hrun]
  rcases hvalue with ⟨n, hn, hword, rfl⟩ | ⟨k, hk, hpayload, rfl⟩
  · have hint : obj.encoding = .int := by
      rw [hencoding, hn]
      rfl
    have hobj : obj.owned = none := by rw [YObject.owned, hword]
    refine ⟨htidy ⟨htags, .inl ⟨hint, n, hword⟩⟩, ?_⟩
    simp only [refs_insert, hobj]
    rw [update_eq_self_iff.mpr hnone.symm]
    exact h.owned
  · have hobj : obj.owned = some (k, (s.heap.new k).1) := YObject.owned_payload hk hpayload
    refine ⟨htidy ⟨htags, .inr (.inr ⟨k, by rw [hobj, hpayload]⟩)⟩, ?_⟩
    simp only [refs_insert, hobj, Heap.kind_new]
    exact h.owned.acquire hnone (s.heap.kind_fresh k)

/-- The payload of an object is deleted and the object is not used with it any more. -/
theorem Sound.release {s : State ι} (h : Sound s) {i : ι} (hi : i ∈ s.live) :
    Owned ((s.objects i).freeValue s.heap).kind ((s.objects i).freeValue s.heap).released
      (update (refs s.objects s.live) i none) := by
  rw [kind_freeValue, YObject.freeValue_released (h.tidy i hi), ← refs_of_mem hi s.objects]
  exact h.owned.release i

theorem Sound.moveFrom {s : State ι} (h : Sound s) {this obj : ι} (hthis : this ∈ s.live)
    (hobj : obj ∈ s.live) : Sound (s.moveFrom this obj) := by
  rw [State.moveFrom_eq]
  constructor
  · intro j hj
    simp only
    by_cases hjo : j = obj
    · rw [hjo, update_self]
      exact YObject.tidy_new
    · rw [update_of_ne hjo]
      by_cases hjt : j = this
      · rw [hjt, update_self]
        exact h.tidy obj hobj
      · rw [update_of_ne hjt]
        exact h.tidy j hj
  · simp only [refs_update hthis, refs_update hobj, YObject.owned_new]
    have howned := (h.release hthis).transfer (update_self _ _ _) obj
    rw [update_idem] at howned
    by_cases hto : obj = this
    · rw [hto, update_idem] at howned ⊢
      exact howned
    · rw [update_of_ne hto, refs_of_mem hobj] at howned
      exact howned

theorem Sound.construct {s : State ι} (h : Sound s) {i : ι} (hi : i ∉ s.live) :
    Sound (s.construct i .invalid) := by
  constructor
  · intro j hj
    simp only [State.construct, State.assign]
    by_cases hji : j = i
    · rw [hji, update_self]
      exact YObject.tidy_new
    · rw [update_of_ne hji]
      exact h.tidy j ((Finset.mem_insert.mp hj).resolve_left hji)
  · simp only [State.construct, State.assign, refs_insert, YObject.owned_new]
    rw [update_eq_self_iff.mpr (refs_of_notMem hi s.objects).symm]
    exact h.owned

theorem Sound.clear {s : State ι} (h : Sound s) {i : ι} (hi : i ∈ s.live) : Sound (s.clear i) := by
  constructor
  · intro j hj
    simp only [State.clear, State.assign]
    by_cases hji : j = i
    · rw [hji, update_self]
      exact YObject.tidy_new
    · rw [update_of_ne hji]
      exact h.tidy j hj
  · simp only [State.clear, State.assign, refs_update hi]
    exact h.release hi

theorem Sound.destroy {s : State ι} (h : Sound s) {i : ι} (hi : i ∈ s.live) :
    Sound (s.destroy i) := by
  constructor
  · exact fun j hj => h.tidy j (Finset.mem_of_mem_erase hj)
  · simp only [State.destroy, refs_erase]
    exact h.release hi

theorem Step.sound {s s' : State ι} {op : Op ι} (h : Step s op s') (hs : Sound s) : Sound s' := by
  obtain ⟨hallowed, rfl⟩ := h
  cases op with
  | create c i => exact hs.create c hallowed
  | moveConstruct this obj =>
      have hobj : obj ∈ (s.construct this .invalid).live := Finset.mem_insert_of_mem hallowed.2
      exact (hs.construct hallowed.1).moveFrom (Finset.mem_insert_self _ _) hobj
  | moveAssign this obj => exact hs.moveFrom hallowed.1 hallowed.2
  | clear i => exact hs.clear hallowed
  | destroy i => exact hs.destroy hallowed

/-- Which objects there are after an operation, and what they are. An object that is moved onto
itself is left with nothing. -/
def Op.Effect (s s' : State ι) : Op ι → Prop
  | create c i => Creates c s i s'
  | moveConstruct this obj =>
    s'.live = insert this s.live ∧
      s'.objects = update (update s.objects this (s.objects obj)) obj (.new .invalid)
  | moveAssign this obj =>
    s'.live = s.live ∧
      s'.objects = update (update s.objects this (s.objects obj)) obj (.new .invalid)
  | clear i => s'.live = s.live ∧ s'.objects = update s.objects i (.new .invalid)
  | destroy i => s'.live = s.live.erase i ∧ s'.objects = s.objects

theorem Step.effect {s s' : State ι} {op : Op ι} (h : Step s op s') : op.Effect s s' := by
  obtain ⟨hallowed, rfl⟩ := h
  cases op with
  | create c i => exact c.creates s i
  | moveConstruct this obj =>
      obtain ⟨hthis, hobj⟩ := hallowed
      have hne : obj ≠ this := ne_of_mem_of_not_mem hobj hthis
      have hmoved : (s.moveConstruct this obj).objects =
          update (update (update s.objects this (.new .invalid)) this
            (update s.objects this (.new .invalid) obj)) obj (.new .invalid) := by
        rw [State.moveConstruct, State.moveFrom_eq]
        rfl
      refine ⟨by rw [Op.run, State.moveConstruct, State.moveFrom_eq]; rfl, ?_⟩
      rw [Op.run, hmoved, update_idem, update_of_ne hne]
  | moveAssign this obj =>
      rw [Op.run, State.moveAssign, State.moveFrom_eq]
      exact ⟨rfl, rfl⟩
  | clear i => exact ⟨rfl, rfl⟩
  | destroy i => exact ⟨rfl, rfl⟩

/-- The object exists and points to the payload. -/
def Refers (s : State ι) (i : ι) (id : ℕ) : Prop := i ∈ s.live ∧ (s.objects i).value = .payload id

theorem Sound.refers_iff {s : State ι} (h : Sound s) (i : ι) (id : ℕ) :
    Refers s i id ↔ ∃ k, refs s.objects s.live i = some (k, .payload id) := by
  constructor
  · rintro ⟨hi, hv⟩
    rw [refs_of_mem hi]
    rcases (h.tidy i hi).value with ⟨-, n, hn⟩ | hnull | ⟨k, hk⟩
    · rw [hn] at hv
      cases hv
    · rw [hnull] at hv
      cases hv
    · exact ⟨k, by rw [hk, hv]⟩
  · rintro ⟨k, hk⟩
    by_cases hi : i ∈ s.live
    · rw [refs_of_mem hi] at hk
      exact ⟨hi, (YObject.owned_eq_some hk).2.1⟩
    · rw [refs_of_notMem hi] at hk
      cases hk

/-- The type and the encoding agree, an `int` has a number, and another pointer is null or a payload
of the kind that the encoding names. -/
def YObject.Agrees (obj : YObject) (h : Heap) : Prop :=
  obj.encoding.type = obj.type ∧
    if obj.encoding = .int then ∃ n, obj.value = .word n
    else obj.value = nullptr ∨
      ∃ k id, payloadOf obj.encoding = some k ∧ obj.value = .payload id ∧ h.created[id]? = some k

theorem Sound.agrees {s : State ι} (h : Sound s) {i : ι} (hi : i ∈ s.live) :
    (s.objects i).Agrees s.heap := by
  refine ⟨(h.tidy i hi).tags, ?_⟩
  rcases (h.tidy i hi).value with ⟨hint, n, hn⟩ | hnull | ⟨k, hk⟩
  · rw [if_pos hint]
    exact ⟨n, hn⟩
  · split_ifs
    · exact ⟨0, hnull⟩
    · exact .inl hnull
  · obtain ⟨hp, -, id, hid⟩ := YObject.owned_eq_some hk
    rw [if_neg (by rintro hint; rw [hint] at hp; cases hp)]
    have hcreated := h.owned.referred ((refs_of_mem hi s.objects).trans hk)
    rw [hid] at hcreated
    exact .inr ⟨k, id, hp, hid, hcreated⟩

/-- In every run, each operation creates, moves, clears or destroys the object that it should and no
other. Each object's tags agree with each other and with its payload, two objects share none, and a
payload has one owner and was never deleted, or none and was deleted once, as what it was created
as. Nothing else is ever deleted. -/
theorem objects_own_payloads {memory : ι → YObject} {s : State ι}
    {trace : List (Transition (State ι) (Op ι))}
    (run : Run Step { objects := memory } trace s) :
    (∀ t ∈ trace, t.label.Effect t.src t.dst) ∧
    (∀ i ∈ s.live, (s.objects i).Agrees s.heap) ∧
    (∀ i j id, Refers s i id → Refers s j id → i = j) ∧
    (∀ id k, s.heap.created[id]? = some k →
      (∃! i, Refers s i id) ∧ s.heap.releases id = [] ∨
        (∀ i, ¬ Refers s i id) ∧ s.heap.releases id = [k]) ∧
    ∀ k value, (k, value) ∈ s.heap.released → s.heap.kind value = some k := by
  have hs : Sound s := run.invariant (sound_start memory) fun s op s' hs h => h.sound hs
  refine ⟨?_, fun i hi => hs.agrees hi, ?_, ?_, fun k value hr => hs.owned.gone hr⟩
  · exact run.each_step (I := fun _ => True) (Q := fun s op s' => op.Effect s s') trivial
      (fun _ _ _ _ _ => trivial) fun _ _ _ _ h => h.effect
  · intro i j id hi hj
    obtain ⟨k, hk⟩ := (hs.refers_iff i id).mp hi
    obtain ⟨k', hk'⟩ := (hs.refers_iff j id).mp hj
    exact hs.owned.owner_unique hk hk'
  · intro id k hk
    rcases hs.owned.one_or_released (a := .payload id) hk with
      ⟨⟨i, hi, hother⟩, hrel⟩ | ⟨hnone, hrel⟩
    · refine .inl ⟨⟨i, (hs.refers_iff i id).mpr ⟨k, hi⟩, fun j hj => ?_⟩, ?_⟩
      · obtain ⟨k', hk'⟩ := (hs.refers_iff j id).mp hj
        exact hother j k' hk'
      · rw [Heap.releases, hrel, List.map_nil]
    · refine .inr ⟨fun i hi => ?_, ?_⟩
      · obtain ⟨k', hk'⟩ := (hs.refers_iff i id).mp hi
        exact hnone i k' hk'
      · rw [Heap.releases, hrel, List.map_singleton]

/-- A list moved over a string, which is deleted, and then onto itself, and deleted too. -/
theorem objects_own_payloads_moved : ∃ (s : State Bool) (trace : List (Transition _ _)),
    Run Step { objects := fun _ => .new .string } trace s ∧
    labels trace = [.moveAssign false false, .moveAssign false true, .create (.string [97]) false,
      .create .list true] ∧
    s.heap.releases 0 = [.list] ∧ s.heap.releases 1 = [.string] ∧
    ∀ i ∈ s.live, (s.objects i).Agrees s.heap := by
  let s₀ : State Bool := { objects := fun _ => .new .string }
  let s₁ := Creation.list.run s₀ true
  let s₂ := (Creation.string [97]).run s₁ false
  let s₃ := s₂.moveAssign false true
  have hlist : true ∈ s₂.live := by decide
  have hstring : false ∈ s₂.live := by decide
  have h₁ : Step s₀ (.create .list true) s₁ := ⟨Finset.notMem_empty true, rfl⟩
  have h₂ : Step s₁ (.create (.string [97]) false) s₂ :=
    ⟨show false ∉ s₁.live by decide, rfl⟩
  have h₃ : Step s₂ (.moveAssign false true) s₃ := ⟨⟨hstring, hlist⟩, rfl⟩
  have h₄ : Step s₃ (.moveAssign false false) (s₃.moveAssign false false) :=
    ⟨⟨hstring, hstring⟩, rfl⟩
  have run := ((Run.start.next h₁).next h₂).next h₃ |>.next h₄
  exact ⟨_, _, run, rfl, rfl, rfl, (objects_own_payloads run).2.1⟩

end

end Yedis.Tagged
