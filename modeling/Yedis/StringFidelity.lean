import Yedis.Encoding
import Yedis.KeySpace
import Yedis.LongText
import Yedis.Runs

/-!
# What `GET` gives back

A string that is the text of a long is kept as that long and written back in plain
decimal. In a run of string commands each key is bound to the string made from the
value it was last given, so `GET` answers that value exactly when the value is no
text of a long, or is plain decimal already.
-/

namespace Yedis
open YString Runs

/-- Text of a long that is not in plain decimal form is rewritten, all other values are kept. -/
def KeptVerbatim (v : Bytes) : Prop := ∀ n, LongText v n → PlainDecimal v

theorem getDecodeString_createString (v : Bytes) :
    getDecodeString (.createString v) = v ↔ KeptVerbatim v := by
  unfold YObject.createString KeptVerbatim
  cases h : stringToLong v with
  | none =>
      refine iff_of_true rfl fun n hn => ?_
      rw [(stringToLong_eq_some_iff v n).mpr hn] at h
      cases h
  | some n =>
      refine (signedDecimal_eq_iff h).trans ⟨fun hplain _ _ => hplain, fun hall => ?_⟩
      exact hall n ((stringToLong_eq_some_iff v n).mp h)

theorem formatBulk_inj {a b : Bytes} (h : formatBulk a = formatBulk b) : a = b := by
  have htokens : (IntToken.ofNat a.length).text ++ (a ++ crlf) =
      (IntToken.ofNat b.length).text ++ (b ++ crlf) := by
    simpa [formatBulk, IntToken.text_ofNat, ascii] using h
  exact List.append_cancel_right (IntToken.text_append_inj htokens).2

/-- The value that a call gives to the key `k`. -/
def Call.gives (k : Bytes) (call : Call) : Option Bytes :=
  if call.params[1]? = some k ∧ (call.params[0]? = some Command.set.name ∨
      call.params[0]? = some Command.setnx.name ∧ call.reply = ascii ":1\r\n") then
    call.params[2]?
  else none

/-- The value last given to the key `k`; the calls are listed newest first. -/
def lastGiven (k : Bytes) (calls : List Call) : Option Bytes := calls.findSome? (Call.gives k)

/-- `SET`, `SETNX` and `GET`. -/
def StringStep (s : YStore) (call : Call) (s' : YStore) : Prop :=
  CallStep s call s' ∧
    ∃ c ∈ [Command.set, Command.setnx, Command.get], call.params[0]? = some c.name

theorem addressed_name {params : List Bytes} {c : Command} (h : params[0]? = some c.name) :
    addressed params = params[1]?.map fun key => (c, key) := by
  cases hkey : params[1]? <;> simp [addressed, h, getCommand_name, hkey]

/-- `SETNX` answers `:1` exactly when it stores the value. -/
theorem setnx_reply {env : Env} {params : List Bytes} {s : YStore} {key : Bytes} {b : Bool}
    {w : World} (hname : params[0]? = some Command.setnx.name) (hkey : params[1]? = some key)
    (h : execCommand env params ⟨s, []⟩ = .ok b w) :
    w.reply = ascii ":1\r\n" ↔ s.getObject key = none := by
  rw [execCommand_run hname (getCommand_name _), Command.handler] at h
  cases hvalue : params[2]? with
  | none => simp [setnxCmd, param_run _ hkey, param_none _ hvalue] at h
  | some value =>
      cases hget : s.getObject key with
      | none =>
          rw [setnxCmd_absent hkey hvalue hget] at h
          cases h
          exact iff_of_true rfl rfl
      | some obj =>
          rw [setnxCmd_present hkey hvalue hget] at h
          cases h
          exact iff_of_false (by simp [ascii]) (by simp)

theorem gives_of_ne {call : Call} {k : Bytes} (hkey : call.params[1]? ≠ some k) :
    call.gives k = none := if_neg fun h => hkey h.1

/-- What the key of a string command is bound to afterwards. -/
theorem StringStep.result {env env' : Env} {params : List Bytes} {s : YStore} {key : Bytes}
    {c : Command} {b : Bool} {w : World} (hc : c ∈ [Command.set, Command.setnx, Command.get])
    (hname : params[0]? = some c.name) (hkey : params[1]? = some key)
    (hexec : execCommand env' params ⟨s, []⟩ = .ok b w) :
    (c.change env params (s.getObject key)).result (s.getObject key) =
      ((Call.gives key ⟨params, w.reply⟩).map YObject.createString).or (s.getObject key) := by
  simp only [List.mem_cons, List.not_mem_nil, or_false] at hc
  rcases hc with rfl | rfl | rfl
  · have hgives : Call.gives key ⟨params, w.reply⟩ = params[2]? := if_pos ⟨hkey, Or.inl hname⟩
    rw [hgives]
    cases hvalue : params[2]? <;> simp [Command.change, hvalue, setChange, Change.result]
  · have hreply := setnx_reply hname hkey hexec
    cases hget : s.getObject key with
    | none =>
        have hgives : Call.gives key ⟨params, w.reply⟩ = params[2]? :=
          if_pos ⟨hkey, Or.inr ⟨hname, hreply.mpr hget⟩⟩
        rw [hgives]
        cases hvalue : params[2]? <;> simp [Command.change, hvalue, setnxChange, Change.result]
    | some obj =>
        have hgives : Call.gives key ⟨params, w.reply⟩ = none := by
          apply if_neg
          rintro ⟨-, hset | ⟨-, hone⟩⟩
          · rw [hname] at hset
            exact absurd hset (by decide)
          · rw [hreply, hget] at hone
            cases hone
        rw [hgives]
        cases hvalue : params[2]? <;> simp [Command.change, hvalue, setnxChange, Change.result]
  · have hgives : Call.gives key ⟨params, w.reply⟩ = none := by
      apply if_neg
      rw [hname]
      rintro ⟨-, hset | ⟨hset, -⟩⟩
      · exact absurd hset (by decide)
      · exact absurd hset (by decide)
    rw [hgives]
    rfl

/-- A string command binds its key to the string made from what it gives, and changes nothing else. -/
theorem StringStep.getObject {s s' : YStore} {call : Call} (h : StringStep s call s')
    (hsel : s.Selected) (k : Bytes) :
    s'.getObject k = ((call.gives k).map YObject.createString).or (s.getObject k) := by
  obtain ⟨hstep, c, hc, hname⟩ := h
  obtain ⟨env, hstore⟩ := hstep.store hsel
  obtain ⟨env', b, hexec⟩ := hstep
  rw [addressed_name hname] at hstore
  cases hkey : call.params[1]? with
  | none =>
      rw [hkey] at hstore
      have hother : call.params[1]? ≠ some k := by simp [hkey]
      rw [hstore, gives_of_ne hother]
      rfl
  | some key =>
      rw [hkey] at hstore
      simp only [Option.map_some] at hstore
      rw [hstore, Change.getObject_apply hsel]
      split_ifs with hk
      · rw [hk]
        exact result hc hname hkey hexec
      · have hother : call.params[1]? ≠ some k := by
          rw [hkey]
          exact fun heq => hk (Option.some.inj heq).symm
        rw [gives_of_ne hother]
        rfl

/-- In a run of string commands every key is bound to the string made from what it was last given. -/
theorem getObject_run {trace : List (Transition YStore Call)} {s : YStore}
    (run : Run StringStep .start trace s) : s.Selected ∧
      ∀ k, s.getObject k = (lastGiven k (labels trace)).map YObject.createString := by
  refine run.invariant_labels (P := fun calls s => s.Selected ∧
    ∀ k, s.getObject k = (lastGiven k calls).map YObject.createString) ?_ ?_
  · exact ⟨YStore.selected_start, fun k => YStore.getObject_start k⟩
  · rintro calls s call s' ⟨hsel, hall⟩ hstep
    refine ⟨hstep.1.selected hsel, fun k => ?_⟩
    rw [hstep.getObject hsel, hall, lastGiven, lastGiven, List.findSome?_cons]
    cases call.gives k <;> rfl

/-- `createString` and `getDecodeString` give a value back exactly when it is kept verbatim, and so
does `GET` in every run of string commands. -/
theorem string_fidelity {trace : List (Transition YStore Call)} {s : YStore}
    (run : Run StringStep .start trace s) :
    (∀ v, getDecodeString (.createString v) = v ↔ KeptVerbatim v) ∧
      ∀ (env : Env) (params : List Bytes) (k : Bytes) (obj : YObject),
        params[0]? = some Command.get.name → params[1]? = some k →
        s.getObject k = some obj → obj.type = .string →
        ∃ v, lastGiven k (labels trace) = some v ∧
          ((∃ b, execCommand env params ⟨s, []⟩ = .ok b ⟨s, formatBulk v⟩) ↔ KeptVerbatim v) := by
  refine ⟨getDecodeString_createString, ?_⟩
  intro env params k obj hname hkey hget ht
  have hlast := (getObject_run run).2 k
  rw [hget] at hlast
  cases hv : lastGiven k (labels trace) with
  | none =>
      rw [hv] at hlast
      cases hlast
  | some v =>
      rw [hv] at hlast
      cases hlast
      refine ⟨v, rfl, ?_⟩
      rw [← getDecodeString_createString, execCommand_run hname (getCommand_name _),
        Command.handler, getCmd_string hkey hget ht]
      constructor
      · rintro ⟨b, heq⟩
        simp only [EStateM.Result.ok.injEq, World.mk.injEq] at heq
        exact formatBulk_inj heq.2.2
      · intro heq
        rw [heq]
        exact ⟨true, rfl⟩

theorem stringStep_set (s : YStore) (k v : Bytes) :
    StringStep s ⟨[ascii "set", k, v], ascii "+OK\r\n"⟩ (s.setValue k (.createString v)) := by
  refine ⟨⟨default, true, ?_⟩, .set, by simp, rfl⟩
  exact execCommand_ok (c := .set) rfl (setCmd_run rfl rfl)

/-- `GET` gives back the `7` of a `SET`. -/
theorem string_fidelity_seven : ∃ v b, v = ascii "7" ∧
    execCommand default [ascii "get", ascii "k"]
      ⟨YStore.start.setValue (ascii "k") (.createString (ascii "7")), []⟩ =
      .ok b ⟨YStore.start.setValue (ascii "k") (.createString (ascii "7")), formatBulk v⟩ := by
  have hget : (YStore.start.setValue (ascii "k") (.createString (ascii "7"))).getObject (ascii "k") =
      some (.createString (ascii "7")) := by
    rw [YStore.getObject_setValue YStore.selected_start, if_pos rfl]
  obtain ⟨v, hv, hiff⟩ := (string_fidelity (.next .start (stringStep_set _ (ascii "k") (ascii "7")))).2
    default [ascii "get", ascii "k"] (ascii "k") _ rfl rfl hget (YObject.type_createString _)
  cases hv
  have hplain : PlainDecimal (ascii "7") :=
    Or.inr ⟨55, [], List.all_eq_true.mp rfl, by decide, Or.inl rfl⟩
  obtain ⟨b, hrun⟩ := hiff.mpr fun _ _ => hplain
  exact ⟨ascii "7", b, rfl, hrun⟩

/-- After `SET k 007` `GET k` answers `7`. -/
theorem string_fidelity_octal :
    getDecodeString (.createString (ascii "007")) ≠ ascii "007" ∧
      StringStep .start ⟨[ascii "set", ascii "k", ascii "007"], ascii "+OK\r\n"⟩
        (YStore.start.setValue (ascii "k") (.int 7)) ∧
      execCommand default [ascii "get", ascii "k"]
          ⟨YStore.start.setValue (ascii "k") (.int 7), []⟩ =
        .ok true ⟨YStore.start.setValue (ascii "k") (.int 7), formatBulk (ascii "7")⟩ := by
  have hseven : YObject.createString (ascii "007") = .int 7 := by decide
  refine ⟨by decide, ?_, ?_⟩
  · rw [← hseven]
    exact stringStep_set _ _ _
  · have hget : (YStore.start.setValue (ascii "k") (.int 7)).getObject (ascii "k") =
        some (.int 7) := by
      rw [YStore.getObject_setValue YStore.selected_start, if_pos rfl]
    have hrun : getCmd [ascii "get", ascii "k"]
        ⟨YStore.start.setValue (ascii "k") (.int 7), []⟩ = _ := getCmd_string rfl hget rfl
    exact execCommand_ok (c := .get) rfl hrun

end Yedis
