import Yedis.Commute
import Yedis.Components

/-!
# Only the order at each key matters

The keys of the store are independent components: a command takes a step at the key
it is addressed to, which depends on the object there and on nothing else. So runs
whose commands follow each other in the same order at each key are the same, with
the same replies and the same store in the end, however the keys take turns.
-/

namespace Yedis
open Components Runs TwoRuns

/-- The key a call acts on. -/
def keyOf (call : Call) : Option Bytes := (addressed call.params).map Prod.snd

theorem addressed_of_keyOf {call : Call} {key : Bytes} (h : keyOf call = some key) :
    ∃ c, addressed call.params = some (c, key) := by
  obtain ⟨⟨c, key'⟩, haddr, rfl⟩ := Option.map_eq_some_iff.mp h
  exact ⟨c, haddr⟩

section NoKey
variable {params : List Bytes} {s t : YStore} {call : Call}

/-- The computation does not look at the store. -/
abbrev Blind {α : Type} (x : Exec α) : Prop := Alike (fun w w' : World => w.reply = w'.reply) x x

theorem blind_param (i : ℕ) : Blind (param params i) := by
  unfold param
  cases params[i]? with
  | none => exact .throw _
  | some p => exact .pure p

theorem blind_pushData (data : Bytes) : Blind (pushData data) :=
  .modify fun w w' h => by simp only [h]

/-- A handler that asks for a key that is not there stops. -/
theorem blind_no_key {α : Type} (hkey : params[1]? = none) (f : Bytes → Exec α) :
    Blind (param params 1 >>= f) := by
  rw [param, hkey]
  exact .throw _

theorem blind_handler (env : Env) (c : Command) (hkey : params[1]? = none) :
    Blind (c.handler env params) := by
  cases c with
  | COMMAND =>
      refine (blind_param 0).bind fun name => ?_
      simp only
      split_ifs with hname
      · exact (blind_pushData _).bind fun _ => .pure _
      · exact .pure _
  | ZADD =>
      change Blind (YSortedSet.zadd env params)
      unfold YSortedSet.zadd
      split_ifs with hodd
      · exact (blind_pushData _).bind fun _ => .pure _
      · exact blind_no_key hkey _
  | _ => exact blind_no_key hkey _

theorem blind_execCommand (env : Env) (haddr : addressed params = none) :
    Blind (execCommand env params) := by
  unfold execCommand
  cases hname : params[0]? with
  | none =>
      rw [param, hname]
      exact .throw _
  | some cmd =>
      rw [param_eq_pure hname, pure_bind]
      cases hcmd : getCommand cmd with
      | none => exact (blind_pushData _).bind fun _ => .pure _
      | some c =>
          have hkey : params[1]? = none := by
            simpa [addressed, hname, hcmd, ← Option.eq_none_iff_forall_ne_some] using haddr
          exact (blind_handler env c hkey).bind fun _ => .pure _

/-- A call without a key answers the same in every store, and leaves it as it is. -/
theorem CallStep.no_key {s' : YStore} (h : CallStep s call s') (hsel : s.Selected)
    (haddr : addressed call.params = none) (htsel : t.Selected) : s' = s ∧ CallStep t call t := by
  obtain ⟨env', hs'⟩ := h.store hsel
  rw [haddr] at hs'
  refine ⟨hs', ?_⟩
  obtain ⟨env, b, hexec⟩ := h
  have hagree := blind_execCommand env haddr ⟨s, []⟩ ⟨t, []⟩ rfl
  have hstore := execCommand_store (w := ⟨t, []⟩) env call.params htsel
  rw [hexec] at hagree
  rw [haddr] at hstore
  generalize hrun : execCommand env call.params ⟨t, []⟩ = r at hagree hstore
  cases hagree with
  | @ok _ _ w' hreply =>
      obtain ⟨store, reply⟩ := w'
      obtain rfl : call.reply = reply := hreply
      obtain rfl : store = t := hstore
      exact ⟨env, b, hrun⟩

end NoKey

/-- What a call makes of the object at `key`; without a key it does not matter where it runs. -/
def KeyStep : Option Bytes → Option YObject → Call → Option YObject → Prop
  | some key, obj, call, obj' => ∃ t t' : YStore, t.Selected ∧ t.getObject key = obj ∧
      CallStep t call t' ∧ t'.getObject key = obj'
  | none, obj, call, obj' => obj' = obj ∧ ∃ t : YStore, t.Selected ∧ CallStep t call t

/-- The store by its keys. -/
def objects (s : YStore) : Option Bytes → Option YObject
  | some key => s.getObject key
  | none => none

/-- The stores differ in the selected database only. -/
def SameElsewhere (s s' : YStore) : Prop := ∃ db, s' = s.withDB db

section Store
variable {s₀ s s' : YStore} {call : Call}

theorem SameElsewhere.refl (h : s.Selected) : SameElsewhere s s :=
  ⟨s.db, ((YStore.withDB_eq_self h _).mpr rfl).symm⟩

theorem SameElsewhere.trans (h : SameElsewhere s₀ s) (h' : SameElsewhere s s') :
    SameElsewhere s₀ s' := by
  obtain ⟨db, rfl⟩ := h
  obtain ⟨db', rfl⟩ := h'
  exact ⟨db', withDB_withDB _ _ _⟩

theorem SameElsewhere.selected (h : SameElsewhere s s') (hsel : s.Selected) : s'.Selected := by
  obtain ⟨db, rfl⟩ := h
  exact hsel.withDB db

theorem eq_of_objects (hsel : s₀.Selected) (hs : SameElsewhere s₀ s) (hs' : SameElsewhere s₀ s')
    (h : ∀ key, s.getObject key = s'.getObject key) : s = s' := by
  obtain ⟨db, rfl⟩ := hs
  obtain ⟨db', rfl⟩ := hs'
  exact withDB_inj_of_getObject hsel h

theorem Change.sameElsewhere (hsel : s.Selected) (key : Bytes) (change : Change) :
    SameElsewhere s (change.apply s key) := Change.apply_eq_withDB hsel key change

theorem CallStep.sameElsewhere (h : CallStep s call s') (hsel : s.Selected) :
    SameElsewhere s s' := by
  obtain ⟨env, rfl⟩ := h.store hsel
  cases addressed call.params with
  | none => exact .refl hsel
  | some pair => exact Change.sameElsewhere hsel _ _

theorem CallStep.component (h : CallStep s call s') (hsel : s.Selected) :
    Step keyOf KeyStep (objects s) call (objects s') := by
  cases hkey : keyOf call with
  | none =>
      have haddr := Option.map_eq_none_iff.mp hkey
      obtain ⟨rfl, hcall⟩ := h.no_key hsel haddr hsel
      refine ⟨?_, fun _ _ => rfl⟩
      rw [hkey]
      exact ⟨rfl, _, hsel, hcall⟩
  | some key =>
      obtain ⟨c, haddr⟩ := addressed_of_keyOf hkey
      rw [Step, hkey]
      refine ⟨⟨s, s', hsel, rfl, h, rfl⟩, fun k hk => ?_⟩
      cases k with
      | none => rfl
      | some key' => exact h.getObject_ne hsel haddr fun heq => hk (congrArg some heq)

/-- A call at an object does in every store what it does in one. -/
theorem KeyStep.callStep {key : Bytes} {obj' : Option YObject} (hkey : keyOf call = some key)
    (h : KeyStep (some key) (s.getObject key) call obj') (hsel : s.Selected) :
    ∃ s', CallStep s call s' ∧ s'.getObject key = obj' := by
  obtain ⟨c, haddr⟩ := addressed_of_keyOf hkey
  obtain ⟨t, t', htsel, hobj, ⟨env, b, hexec⟩, rfl⟩ := h
  have hagree := local_execCommand env haddr ⟨t, []⟩ ⟨s, []⟩ ⟨htsel, hsel, hobj, rfl⟩
  rw [hexec] at hagree
  generalize hrun : execCommand env call.params ⟨s, []⟩ = r at hagree
  cases hagree with
  | @ok _ _ w' hsame =>
      obtain ⟨store, reply⟩ := w'
      obtain rfl : call.reply = reply := hsame.reply
      exact ⟨store, ⟨env, b, hrun⟩, hsame.object.symm⟩

/-- A step at its key is a step of the store. -/
theorem callStep_of_component (hsel : s.Selected) (hdb : SameElsewhere s s')
    (h : Step keyOf KeyStep (objects s) call (objects s')) : CallStep s call s' := by
  obtain ⟨hstep, hframe⟩ := h
  cases hkey : keyOf call with
  | none =>
      rw [hkey] at hstep hframe
      obtain ⟨-, t, htsel, hcall⟩ := hstep
      have hsame : s' = s := eq_of_objects hsel hdb (.refl hsel) fun key =>
        hframe (some key) (by simp)
      rw [hsame]
      exact (hcall.no_key htsel (Option.map_eq_none_iff.mp hkey) hsel).2
  | some key =>
      rw [hkey] at hstep hframe
      obtain ⟨c, haddr⟩ := addressed_of_keyOf hkey
      obtain ⟨u, hcall, hobj⟩ := hstep.callStep hkey hsel
      have hsame : u = s' := by
        apply eq_of_objects hsel (hcall.sameElsewhere hsel) hdb
        intro k
        by_cases hk : k = key
        · rw [hk]
          exact hobj
        · rw [hcall.getObject_ne hsel haddr hk]
          exact (hframe (some k) fun heq => hk (Option.some.inj heq)).symm
      exact hsame ▸ hcall

/-- A store with any object at a key. -/
theorem exists_objects (hsel : s.Selected) (key : Bytes) (obj : Option YObject) :
    ∃ u, SameElsewhere s u ∧ ∀ k, u.getObject k = if k = key then obj else s.getObject k := by
  cases obj with
  | none => exact ⟨_, ⟨_, rfl⟩, fun k => YStore.getObject_deleteKey hsel key k⟩
  | some value => exact ⟨_, ⟨_, rfl⟩, fun k => YStore.getObject_setValue hsel key k value⟩

/-- The state before a step of the components is that of a store. -/
theorem exists_before (hsel : s.Selected) {o : Option Bytes → Option YObject}
    (h : Step keyOf KeyStep o call (objects s)) : ∃ u, SameElsewhere s u ∧ objects u = o := by
  obtain ⟨hstep, hframe⟩ := h
  cases hkey : keyOf call with
  | none =>
      rw [hkey] at hstep hframe
      refine ⟨s, .refl hsel, funext fun k => ?_⟩
      by_cases hk : k = none
      · rw [hk]
        exact hstep.1
      · exact hframe k hk
  | some key =>
      rw [hkey] at hframe
      obtain ⟨u, hu, hobj⟩ := exists_objects hsel key (o (some key))
      refine ⟨u, hu, funext fun k => ?_⟩
      cases k with
      | none => exact hframe none (by simp)
      | some k =>
          rw [objects, hobj]
          split_ifs with hk
          · rw [hk]
          · exact hframe (some k) fun heq => hk (Option.some.inj heq)

theorem SameElsewhere.symm (h : SameElsewhere s s') (hsel : s.Selected) : SameElsewhere s' s := by
  obtain ⟨db, rfl⟩ := h
  refine ⟨s.db, ?_⟩
  rw [withDB_withDB]
  exact ((YStore.withDB_eq_self hsel _).mpr rfl).symm

/-- The runs of the store are those of its keys. -/
theorem reaches_store_iff (hsel : s₀.Selected) {calls : List Call} :
    Reaches CallStep s₀ calls s ↔
      SameElsewhere s₀ s ∧ Reaches (Step keyOf KeyStep) (objects s₀) calls (objects s) := by
  induction calls generalizing s with
  | nil =>
      rw [reaches_nil, reaches_nil]
      constructor
      · rintro rfl
        exact ⟨.refl hsel, rfl⟩
      · rintro ⟨hdb, hobj⟩
        exact eq_of_objects hsel hdb (.refl hsel) fun key => congrFun hobj (some key)
  | cons call calls ih =>
      rw [reaches_cons, reaches_cons]
      constructor
      · rintro ⟨u, hu, hcall⟩
        obtain ⟨hdb, hreach⟩ := ih.mp hu
        have husel := hdb.selected hsel
        exact ⟨hdb.trans (hcall.sameElsewhere husel), _, hreach, hcall.component husel⟩
      · rintro ⟨hdb, o, hreach, hstep⟩
        have hssel := hdb.selected hsel
        obtain ⟨u, hu, rfl⟩ := exists_before hssel hstep
        exact ⟨u, ih.mpr ⟨hdb.trans hu, hreach⟩,
          callStep_of_component (hu.selected hssel) (hu.symm hssel) hstep⟩

end Store

/-- Two sequences of commands with their replies that are the same at each key, and without the
commands that have no key, lead from one store to the same stores. -/
theorem only_order_at_keys_matters {s₀ s : YStore} (hsel : s₀.Selected) {calls calls' : List Call}
    (h : ∀ key, calls.filter (fun call => keyOf call = key) =
      calls'.filter fun call => keyOf call = key) :
    (∃ trace, Run CallStep s₀ trace s ∧ labels trace = calls) ↔
      ∃ trace, Run CallStep s₀ trace s ∧ labels trace = calls' := by
  change Reaches CallStep s₀ calls s ↔ Reaches CallStep s₀ calls' s
  rw [reaches_store_iff hsel, reaches_store_iff hsel, reaches_congr h]

/-- A `set` and a `setnx` of different keys, the other way round. -/
theorem only_order_at_keys_matters_set : ∃ (trace : List (Transition YStore Call)) (s : YStore),
    Run CallStep .start trace s ∧
      labels trace = [⟨[ascii "set", ascii "a", ascii "x"], ascii "+OK\r\n"⟩,
        ⟨[ascii "setnx", ascii "b", ascii "y"], ascii ":1\r\n"⟩] := by
  have hfirst : CallStep .start ⟨[ascii "set", ascii "a", ascii "x"], ascii "+OK\r\n"⟩ _ :=
    ⟨default, true, execCommand_ok (c := .set) rfl (YString.setCmd_run rfl rfl)⟩
  have habsent : (YStore.start.setValue (ascii "a") (.createString (ascii "x"))).getObject
      (ascii "b") = none := by
    rw [YStore.getObject_setValue YStore.selected_start, if_neg (by decide)]
    exact YStore.getObject_start _
  have hsecond : CallStep _ ⟨[ascii "setnx", ascii "b", ascii "y"], ascii ":1\r\n"⟩ _ :=
    ⟨default, true, execCommand_ok (c := .setnx) rfl (YString.setnxCmd_absent rfl rfl habsent)⟩
  have run := (Run.start.next hfirst).next hsecond
  have hsame : ∀ key,
      [Call.mk [ascii "setnx", ascii "b", ascii "y"] (ascii ":1\r\n"),
        ⟨[ascii "set", ascii "a", ascii "x"], ascii "+OK\r\n"⟩].filter
          (fun call => keyOf call = key) =
      [Call.mk [ascii "set", ascii "a", ascii "x"] (ascii "+OK\r\n"),
        ⟨[ascii "setnx", ascii "b", ascii "y"], ascii ":1\r\n"⟩].filter
          fun call => keyOf call = key := by
    intro key
    have ha : keyOf ⟨[ascii "set", ascii "a", ascii "x"], ascii "+OK\r\n"⟩ = some (ascii "a") := by
      decide
    have hb : keyOf ⟨[ascii "setnx", ascii "b", ascii "y"], ascii ":1\r\n"⟩ =
      some (ascii "b") := by decide
    simp only [List.filter_cons, ha, hb, List.filter_nil, decide_eq_true_eq]
    by_cases hkey : some (ascii "a") = key
    · subst hkey
      rw [if_pos rfl, if_pos rfl, if_neg (by decide), if_neg (by decide)]
    · rw [if_neg hkey, if_neg hkey]
  obtain ⟨trace, run', hlabels⟩ :=
    (only_order_at_keys_matters YStore.selected_start hsame).mp ⟨_, run, rfl⟩
  exact ⟨trace, _, run', hlabels⟩

end Yedis
