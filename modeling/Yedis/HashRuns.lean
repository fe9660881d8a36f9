import Yedis.KeySpace
import Yedis.Runs

/-!
# Hashes keep the last value of each field

What `HSET` has written to a key, the newest first, decides what is stored there and
what `HGET` answers: the last value of the field, a null where the field was never
written, and the error line where nothing was. Commands on other keys may come in
between.
-/

namespace Yedis
open Runs YHash

/-- Fields with the values written to them, the newest first. -/
abbrev FieldWrites := List (Bytes × Bytes)

/-- What a call writes to the hash of `key`. -/
def hashWrite (key : Bytes) (call : Call) : Option (Bytes × Bytes) :=
  if addressed call.params = some (.HSET, key) then do
    return (← call.params[2]?, ← call.params[3]?)
  else none

def hashWrites (key : Bytes) (calls : List Call) : FieldWrites := calls.filterMap (hashWrite key)

def lastValue (field : Bytes) (ws : FieldWrites) : Option Bytes :=
  (ws.find? fun w => w.1 = field).map Prod.snd

/-- The map that the writes leave. -/
def fieldMap (ws : FieldWrites) : Finmap fun _ : Bytes => Bytes :=
  ws.foldr (fun w m => m.insert w.1 w.2) ∅

/-- What the store holds after the writes. -/
def storedHash (ws : FieldWrites) : Option YObject :=
  if ws = [] then none else some (.hash (fieldMap ws))

def hgetReply (ws : FieldWrites) (field : Bytes) : Bytes :=
  if ws = [] then errorType
  else match lastValue field ws with
    | some val => formatBulk val
    | none => formatNull

theorem lookup_fieldMap (ws : FieldWrites) (field : Bytes) :
    (fieldMap ws).lookup field = lastValue field ws := by
  induction ws with
  | nil => exact Finmap.lookup_empty field
  | cons w ws ih =>
      rw [fieldMap, List.foldr_cons, ← fieldMap, lastValue, List.find?_cons]
      by_cases hw : w.1 = field
      · rw [← hw, Finmap.lookup_insert]
        simp
      · rw [Finmap.lookup_insert_of_ne _ (Ne.symm hw), ih, decide_eq_false hw]
        rfl

section Handlers
variable {s : YStore} {params : List Bytes} {key field val : Bytes} {ws : FieldWrites}

theorem storedHash_of_ne (h : ws ≠ []) : storedHash ws = some (.hash (fieldMap ws)) := if_neg h

theorem hset_writes (hsel : s.Selected) (hkey : params[1]? = some key)
    (hget : s.getObject key = storedHash ws) (hfield : params[2]? = some field)
    (hval : params[3]? = some val) : ∃ s', hset params ⟨s, []⟩ = .ok .ok ⟨s', formatInt 1⟩ ∧
      s'.getObject key = storedHash ((field, val) :: ws) := by
  by_cases hws : ws = []
  · subst hws
    refine ⟨_, hset_absent hkey hget hfield hval, ?_⟩
    rw [YStore.getObject_setValue (hsel.setValue key _), if_pos rfl]
    rfl
  · rw [storedHash_of_ne hws] at hget
    refine ⟨_, hset_hash hkey hget hfield hval, ?_⟩
    rw [YStore.getObject_setValue hsel, if_pos rfl]
    rfl

theorem hset_writes_missing (hkey : params[1]? = some key) (hget : s.getObject key = storedHash ws)
    (hmiss : params[3]? = none) : ∃ w', hset params ⟨s, []⟩ = .error .paramIndex w' := by
  by_cases hws : ws = []
  · subst hws
    exact ⟨_, hset_absent_missing hkey hget hmiss⟩
  · rw [storedHash_of_ne hws] at hget
    exact ⟨_, hset_hash_missing hkey hget hmiss⟩

theorem hget_reads (hkey : params[1]? = some key) (hget : s.getObject key = storedHash ws)
    (hfield : params[2]? = some field) :
    ∃ e, YHash.hget params ⟨s, []⟩ = .ok e ⟨s, hgetReply ws field⟩ := by
  by_cases hws : ws = []
  · subst hws
    exact ⟨_, hget_absent hkey hget⟩
  · rw [storedHash_of_ne hws] at hget
    refine ⟨.ok, ?_⟩
    rw [hget_hash hkey hget hfield, hgetReply, if_neg hws, lookup_fieldMap]
    rfl

theorem exists_field (hval : params[3]? = some val) : ∃ field, params[2]? = some field := by
  have hlen := (List.getElem?_eq_some_iff.mp hval).1
  exact ⟨params[2], List.getElem?_eq_getElem (by omega)⟩

end Handlers

/-- A call that has for the keys in `K` no other commands than `HSET` and `HGET`. -/
def HashCall (K : Set Bytes) (s : YStore) (call : Call) (s' : YStore) : Prop :=
  CallStep s call s' ∧
    ∀ key ∈ K, ∀ c, addressed call.params = some (c, key) → c = .HSET ∨ c = .HGET

/-- The reply that the writes before a call lead to expect. -/
def AnswersHash (key : Bytes) (earlier : List Call) (call : Call) : Prop :=
  (addressed call.params = some (.HSET, key) → call.reply = formatInt 1) ∧
  (addressed call.params = some (.HGET, key) → ∀ field, call.params[2]? = some field →
    call.reply = hgetReply (hashWrites key earlier) field)

/-- The store holds the hashes written to the keys in `K`. -/
structure HoldsHashes (K : Set Bytes) (calls : List Call) (s : YStore) : Prop where
  selected : s.Selected
  object : ∀ key ∈ K, s.getObject key = storedHash (hashWrites key calls)

section Steps
variable {K : Set Bytes} {s s' : YStore} {calls : List Call} {call : Call} {key : Bytes}

theorem hashWrites_cons_of_ne (h : addressed call.params ≠ some (.HSET, key)) :
    hashWrites key (call :: calls) = hashWrites key calls := by
  rw [hashWrites, List.filterMap_cons, hashWrite, if_neg h]
  rfl

theorem hashWrites_cons {field val : Bytes} (h : addressed call.params = some (.HSET, key))
    (hfield : call.params[2]? = some field) (hval : call.params[3]? = some val) :
    hashWrites key (call :: calls) = (field, val) :: hashWrites key calls := by
  rw [hashWrites, List.filterMap_cons, hashWrite, if_pos h, hfield, hval]
  rfl

theorem CallStep.hset (h : CallStep s call s') (hsel : s.Selected) {ws : FieldWrites}
    (hobj : s.getObject key = storedHash ws) (haddr : addressed call.params = some (.HSET, key)) :
    call.reply = formatInt 1 ∧ ∃ field val, call.params[2]? = some field ∧
      call.params[3]? = some val ∧ s'.getObject key = storedHash ((field, val) :: ws) := by
  obtain ⟨hname, hkey⟩ := addressed_eq_some haddr
  obtain ⟨env, b, hexec⟩ := h
  rw [execCommand_run hname (getCommand_name _), Command.handler] at hexec
  cases hval : call.params[3]? with
  | none =>
      obtain ⟨w', hrun⟩ := hset_writes_missing hkey hobj hval
      rw [hrun] at hexec
      cases hexec
  | some val =>
      obtain ⟨field, hfield⟩ := exists_field hval
      obtain ⟨t, hrun, ht⟩ := hset_writes hsel hkey hobj hfield hval
      rw [hrun] at hexec
      simp only [EStateM.Result.ok.injEq, World.mk.injEq] at hexec
      rw [← hexec.2.1]
      exact ⟨hexec.2.2.symm, field, val, hfield, rfl, ht⟩

theorem CallStep.hget (h : CallStep s call s') {ws : FieldWrites} {field : Bytes}
    (hobj : s.getObject key = storedHash ws) (haddr : addressed call.params = some (.HGET, key))
    (hfield : call.params[2]? = some field) : call.reply = hgetReply ws field := by
  obtain ⟨hname, hkey⟩ := addressed_eq_some haddr
  obtain ⟨env, b, hexec⟩ := h
  obtain ⟨e, hrun⟩ := hget_reads hkey hobj hfield
  rw [execCommand_run hname (getCommand_name _), Command.handler, hrun] at hexec
  simp only [EStateM.Result.ok.injEq, World.mk.injEq] at hexec
  exact hexec.2.2.symm

theorem CallStep.keeps (h : CallStep s call s') (hsel : s.Selected)
    (hother : ∀ c, addressed call.params = some (c, key) → c = .HGET) :
    s'.getObject key = s.getObject key := by
  obtain ⟨env, rfl⟩ := h.store hsel
  cases haddr : addressed call.params with
  | none => rfl
  | some pair =>
      obtain ⟨c, key'⟩ := pair
      simp only
      rw [Change.getObject_apply hsel]
      split_ifs with hk
      · subst hk
        rw [hother c haddr]
        rfl
      · rfl

theorem HashCall.holds (hR : HoldsHashes K calls s) (h : HashCall K s call s') :
    HoldsHashes K (call :: calls) s' := by
  obtain ⟨hcall, hcommands⟩ := h
  refine ⟨hcall.selected hR.selected, fun key hK => ?_⟩
  by_cases haddr : addressed call.params = some (.HSET, key)
  · obtain ⟨-, field, val, hfield, hval, hobj⟩ :=
      hcall.hset hR.selected (hR.object key hK) haddr
    rw [hashWrites_cons haddr hfield hval]
    exact hobj
  · rw [hashWrites_cons_of_ne haddr, ← hR.object key hK]
    apply hcall.keeps hR.selected
    intro c hc
    rcases hcommands key hK c hc with rfl | rfl
    · exact absurd hc haddr
    · rfl

theorem HashCall.answers (hR : HoldsHashes K calls s) (h : HashCall K s call s') (hK : key ∈ K) :
    AnswersHash key calls call :=
  ⟨fun haddr => (h.1.hset hR.selected (hR.object key hK) haddr).1,
    fun haddr _ hfield => h.1.hget (hR.object key hK) haddr hfield⟩

end Steps

theorem holdsHashes_of_run {K : Set Bytes} {s₀ s : YStore} {trace : List (Transition YStore Call)}
    (hsel : s₀.Selected) (habsent : ∀ key ∈ K, s₀.getObject key = none)
    (run : Run (HashCall K) s₀ trace s) : HoldsHashes K (labels trace) s :=
  run.invariant_labels (P := HoldsHashes K) ⟨hsel, habsent⟩ fun _ _ _ _ hR h => h.holds hR

/-- In every run in which the keys in `K`, absent at first, see no other commands than `HSET` and
`HGET`: each `HSET` answers 1, each `HGET` answers the value last written to its field before, a
null if the field was not written, the error line if nothing was. In the end a key is bound to the
map of the last values, or to nothing if nothing was written. -/
theorem hashes_keep_last_values {K : Set Bytes} {s₀ s : YStore}
    {trace : List (Transition YStore Call)} (hsel : s₀.Selected)
    (habsent : ∀ key ∈ K, s₀.getObject key = none) (run : Run (HashCall K) s₀ trace s) {key : Bytes}
    (hK : key ∈ K) :
    (∀ later call earlier, labels trace = later ++ call :: earlier →
      (addressed call.params = some (.HSET, key) → call.reply = ascii ":1\r\n") ∧
      (addressed call.params = some (.HGET, key) → ∀ field, call.params[2]? = some field →
        call.reply =
          if hashWrites key earlier = [] then errorType
          else match lastValue field (hashWrites key earlier) with
            | some val => formatBulk val
            | none => formatNull)) ∧
    (hashWrites key (labels trace) = [] → s.getObject key = none) ∧
    (hashWrites key (labels trace) ≠ [] → ∃ m, s.getObject key = some (.hash m) ∧
      ∀ field, m.lookup field = lastValue field (hashWrites key (labels trace))) := by
  have hobj := (holdsHashes_of_run hsel habsent run).object key hK
  refine ⟨fun later call earlier hsplit => ?_, fun hnone => ?_, fun hsome => ?_⟩
  · exact run.each_label (P := HoldsHashes K) (Q := AnswersHash key) ⟨hsel, habsent⟩
      (fun _ _ _ _ hR h => ⟨h.holds hR, h.answers hR hK⟩) hsplit
  · rw [hobj, hnone]
    rfl
  · exact ⟨_, hobj.trans (storedHash_of_ne hsome), fun field => lookup_fieldMap _ field⟩

/-- A field of a hash in the empty store is written. -/
theorem hashes_keep_last_values_hset : ∃ (call : Call) (s : YStore),
    HashCall Set.univ .start call s ∧
      call = ⟨[ascii "HSET", ascii "k", ascii "f", ascii "v"], ascii ":1\r\n"⟩ ∧
      ∃ m, s.getObject (ascii "k") = some (.hash m) ∧ m.lookup (ascii "f") = some (ascii "v") := by
  have haddr : addressed [ascii "HSET", ascii "k", ascii "f", ascii "v"] =
    some (.HSET, ascii "k") := by decide
  have hother : ∀ key ∈ Set.univ, ∀ c,
      addressed [ascii "HSET", ascii "k", ascii "f", ascii "v"] = some (c, key) →
        c = .HSET ∨ c = .HGET := by
    intro key _ c hc
    rw [haddr, Option.some.injEq, Prod.mk.injEq] at hc
    exact Or.inl hc.1.symm
  have hstep : HashCall Set.univ .start
      ⟨[ascii "HSET", ascii "k", ascii "f", ascii "v"], ascii ":1\r\n"⟩ _ :=
    ⟨⟨default, true, execCommand_ok (c := .HSET) rfl
      (hset_absent rfl (YStore.getObject_start _) rfl rfl)⟩, hother⟩
  have hwrites : hashWrites (ascii "k")
      [⟨[ascii "HSET", ascii "k", ascii "f", ascii "v"], ascii ":1\r\n"⟩] =
      (ascii "f", ascii "v") :: hashWrites (ascii "k") [] := hashWrites_cons haddr rfl rfl
  obtain ⟨-, -, hstored⟩ := hashes_keep_last_values YStore.selected_start
    (fun key _ => YStore.getObject_start key) (Run.start.next hstep) (Set.mem_univ (ascii "k"))
  rw [labels_cons, labels_nil, hwrites] at hstored
  obtain ⟨m, hm, hlookup⟩ := hstored (List.cons_ne_nil _ _)
  exact ⟨_, _, hstep, rfl, m, hm, hlookup (ascii "f")⟩

end Yedis
