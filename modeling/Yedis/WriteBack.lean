import Yedis.StringFidelity

/-!
# Writing back what `GET` gave

What `getDecodeString` makes of a string object, `createString` makes into the same object
again. A run of commands binds strings of no other kind, so a `SET` of what `GET`
answered leaves the store as it is.
-/

namespace Yedis
open YString Runs

theorem createString_int {n : ℤ} (hl : -9223372036854775808 ≤ n)
    (hu : n ≤ 9223372036854775807) : YObject.createString (getDecodeString (.int n)) = .int n := by
  have htext := (stringToLong_eq_some_iff _ _).mpr (longText_signedDecimal hl hu)
  rw [getDecodeString, YObject.createString, htext]

/-- A value that is read back as a number is written back as that number, any other is kept. -/
theorem createString_getDecodeString (v : Bytes) :
    YObject.createString (getDecodeString (.createString v)) = .createString v := by
  cases h : stringToLong v with
  | none =>
      have hraw : YObject.createString v = .raw v := by rw [YObject.createString, h]
      rw [hraw, getDecodeString, hraw]
  | some n =>
      have hint : YObject.createString v = .int n := by rw [YObject.createString, h]
      have htext := (stringToLong_eq_some_iff v n).mp h
      rw [hint]
      exact createString_int htext.lower htext.upper

/-- Every string in the store was made from some bytes. -/
def MadeStrings (s : YStore) : Prop :=
  ∀ key obj, s.getObject key = some obj → obj.type = .string → ∃ v, obj = .createString v

/-- A command that binds a string makes it from one of its parameters. -/
theorem Command.bind_string {env : Env} {params : List Bytes} {bound : Option YObject}
    {c : Command} {obj : YObject} (h : c.change env params bound = .bind obj)
    (ht : obj.type = .string) : ∃ v, obj = .createString v := by
  have hbinds := type_of_bind h
  rw [ht] at hbinds
  cases c with
  | set =>
      simp only [change, setChange] at h
      split at h
      · exact ⟨_, (Change.bind.inj h).symm⟩
      · cases h
  | setnx =>
      simp only [change, setnxChange] at h
      split at h
      · exact ⟨_, (Change.bind.inj h).symm⟩
      · cases h
  | _ => cases hbinds

section Steps
variable {s s' : YStore} {call : Call} {key v : Bytes}

theorem CallStep.madeStrings (h : CallStep s call s') (hsel : s.Selected) (hs : MadeStrings s) :
    MadeStrings s' := by
  obtain ⟨env, rfl⟩ := h.store hsel
  cases haddr : addressed call.params with
  | none => exact hs
  | some pair =>
      obtain ⟨c, key⟩ := pair
      intro k obj hobj ht
      simp only at hobj
      rw [Change.getObject_apply hsel] at hobj
      split_ifs at hobj with hk
      · cases hchange : c.change env call.params (s.getObject key) with
        | keep =>
            rw [hchange] at hobj
            exact hs key obj hobj ht
        | bind new =>
            rw [hchange] at hobj
            cases hobj
            exact Command.bind_string hchange ht
        | remove =>
            rw [hchange] at hobj
            cases hobj
      · exact hs k obj hobj ht

theorem formatBulk_ne_null (v : Bytes) : formatBulk v ≠ ascii "$-1\r\n" := by
  intro h
  cases hd : decimal v.length with
  | nil => exact decimal_ne_nil _ hd
  | cons d ds =>
      have hdigit := decimal_digits v.length d (by rw [hd]; exact List.mem_cons_self)
      simp only [formatBulk, hd, ascii] at h
      obtain ⟨rfl, -⟩ := List.cons.inj (List.cons.inj h).2
      exact absurd hdigit (by decide)

/-- A `GET` that answers a value has found the string that decodes to it. -/
theorem CallStep.get (h : CallStep s call s') (haddr : addressed call.params = some (.get, key))
    (hreply : call.reply = formatBulk v) : s' = s ∧ ∃ obj, s.getObject key = some obj ∧
      obj.type = .string ∧ getDecodeString obj = v := by
  obtain ⟨hname, hkey⟩ := addressed_eq_some haddr
  obtain ⟨env, b, hexec⟩ := h
  rw [execCommand_run hname (getCommand_name _), Command.handler] at hexec
  cases hget : s.getObject key with
  | none =>
      rw [getCmd_absent hkey hget] at hexec
      simp only [EStateM.Result.ok.injEq, World.mk.injEq, List.nil_append] at hexec
      rw [hreply] at hexec
      exact absurd hexec.2.2.symm (formatBulk_ne_null v)
  | some obj =>
      by_cases ht : obj.type = .string
      · rw [getCmd_string hkey hget ht] at hexec
        simp only [EStateM.Result.ok.injEq, World.mk.injEq, List.nil_append] at hexec
        rw [hreply] at hexec
        exact ⟨hexec.2.1.symm, obj, rfl, ht, formatBulk_inj hexec.2.2⟩
      · rw [getCmd_other hkey hget ht] at hexec
        simp only [EStateM.Result.ok.injEq, World.mk.injEq, List.nil_append] at hexec
        rw [hreply] at hexec
        exact absurd hexec.2.2 (by simp [noSuchKey, formatBulk, ascii])

end Steps

/-- Decoding and encoding again is the identity on the objects made from bytes and on those of the
64-bit numbers. Where a `GET` in a run of commands has answered a value, a `SET` of that value,
then or later while the key is bound to the same object, changes nothing. -/
theorem written_back {trace : List (Transition YStore Call)} {s : YStore}
    (run : Run CallStep .start trace s) :
    (∀ v, YObject.createString (getDecodeString (.createString v)) = .createString v) ∧
    (∀ n, -9223372036854775808 ≤ n → n ≤ 9223372036854775807 →
      YObject.createString (getDecodeString (.int n)) = .int n) ∧
    ∀ (call : Call) (key v : Bytes) (s' : YStore), CallStep s call s' →
      addressed call.params = some (.get, key) → call.reply = formatBulk v →
      s' = s ∧ ∀ trace' t, Run CallStep s trace' t → t.getObject key = s.getObject key →
        ∀ env params, addressed params = some (.set, key) → params[2]? = some v →
          execCommand env params ⟨t, []⟩ = .ok true ⟨t, ascii "+OK\r\n"⟩ := by
  refine ⟨createString_getDecodeString, fun n => createString_int, ?_⟩
  intro call key v s' hstep haddr hreply
  obtain ⟨hs', obj, hget, ht, hdecode⟩ := hstep.get haddr hreply
  refine ⟨hs', fun trace' t run' hbound env params hset hvalue => ?_⟩
  have hinv : s.Selected ∧ MadeStrings s := by
    refine run.invariant (P := fun s => s.Selected ∧ MadeStrings s) ⟨YStore.selected_start, ?_⟩
      fun s l s' hs h => ⟨h.selected hs.1, h.madeStrings hs.1 hs.2⟩
    intro key obj hobj
    rw [YStore.getObject_start] at hobj
    cases hobj
  have hsel : t.Selected := run'.invariant hinv.1 fun s l s' hs h => h.selected hs
  obtain ⟨w, rfl⟩ := hinv.2 key obj hget ht
  have hagain : YObject.createString v = .createString w := by
    rw [← hdecode]
    exact createString_getDecodeString w
  have hsame : t.setValue key (.createString v) = t := by
    rw [YStore.setValue_eq_self hsel, hbound, hget, hagain]
  obtain ⟨hname, hkey⟩ := addressed_eq_some hset
  have hrun := setCmd_run (w := ⟨t, []⟩) hkey hvalue
  rw [hsame] at hrun
  exact execCommand_ok hname hrun

/-- `GET` answers the `-0x0F` of a `SET` with `-15`, and a `SET` of that changes nothing. -/
theorem written_back_hex : ∃ s, CallStep .start ⟨[ascii "set", ascii "k", ascii "-0x0F"],
      ascii "+OK\r\n"⟩ s ∧
    execCommand default [ascii "get", ascii "k"] ⟨s, []⟩ =
      .ok true ⟨s, formatBulk (ascii "-15")⟩ ∧
    execCommand default [ascii "set", ascii "k", ascii "-15"] ⟨s, []⟩ =
      .ok true ⟨s, ascii "+OK\r\n"⟩ := by
  have hset := (stringStep_set .start (ascii "k") (ascii "-0x0F")).1
  have hobj : (YStore.start.setValue (ascii "k") (.createString (ascii "-0x0F"))).getObject
      (ascii "k") = some (.int (-15)) := by
    rw [YStore.getObject_setValue YStore.selected_start, if_pos rfl]
    decide
  have hget : execCommand default [ascii "get", ascii "k"] ⟨_, []⟩ = .ok true _ :=
    execCommand_ok (c := .get) rfl (getCmd_string (w := ⟨_, []⟩) rfl hobj rfl)
  refine ⟨_, hset, hget, ?_⟩
  exact ((written_back (.next .start hset)).2.2 ⟨[ascii "get", ascii "k"], _⟩ (ascii "k")
    (ascii "-15") _ ⟨default, true, hget⟩ (by decide) rfl).2 [] _ .start rfl default
    [ascii "set", ascii "k", ascii "-15"] (by decide) rfl

end Yedis
