import Yedis.Reply
import Yedis.StringFidelity

/-!
# One winner of SETNX

No command takes a string away from its key or turns it into something else. After a
`SET`, or a `SETNX` that answered `:1`, its key therefore holds a string for the rest
of the run, and no other `SETNX` on it answers `:1`.
-/

namespace Yedis
open Runs YList

/-- A `SETNX` on the key that replied `:1`. -/
def Wins (key : Bytes) (call : Call) : Prop :=
  addressed call.params = some (.setnx, key) ∧ call.reply = ascii ":1\r\n"

/-- A `SET` on the key, or a `SETNX` that replied `:1`. -/
def GivesString (key : Bytes) (call : Call) : Prop :=
  addressed call.params = some (.set, key) ∨ Wins key call

/-- A change that leaves a string where there was one. -/
theorem change_string (env : Env) (params : List Bytes) (c : Command) {obj : YObject}
    (ht : obj.type = .string) :
    ∃ obj', (c.change env params (some obj)).result (some obj) = some obj' ∧
      obj'.type = .string := by
  cases c with
  | set =>
      cases hvalue : params[2]? with
      | none => exact ⟨obj, by simp [Command.change, hvalue, setChange, Change.result], ht⟩
      | some value =>
          exact ⟨.createString value, by simp [Command.change, hvalue, setChange, Change.result],
            YObject.type_createString value⟩
  | setnx =>
      refine ⟨obj, ?_, ht⟩
      cases hvalue : params[2]? <;> simp [Command.change, hvalue, setnxChange, Change.result]
  | LPUSH | RPUSH | LPUSHX | RPUSHX =>
      refine ⟨obj, ?_, ht⟩
      cases obj <;> first | rfl | cases ht
  | LPOP | RPOP =>
      refine ⟨obj, ?_, ht⟩
      cases obj <;> first | rfl | cases ht
  | SADD | SPOP | HSET | ZADD =>
      refine ⟨obj, ?_, ht⟩
      cases obj <;> first | rfl | cases ht
  | _ => exact ⟨obj, rfl, ht⟩

section Steps
variable {s s' : YStore} {call : Call} {key : Bytes}

/-- No command takes a string away. -/
theorem CallStep.keeps_string (hsel : s.Selected) (hs : Holds s key .string)
    (h : CallStep s call s') : Holds s' key .string := by
  obtain ⟨obj, hget, ht⟩ := hs
  obtain ⟨env, rfl⟩ := h.store hsel
  cases haddr : addressed call.params with
  | none => exact ⟨obj, hget, ht⟩
  | some pair =>
      obtain ⟨c, k⟩ := pair
      unfold Holds
      simp only
      rw [Change.getObject_apply hsel]
      split_ifs with hk
      · rw [← hk, hget]
        exact change_string env call.params c ht
      · exact ⟨obj, hget, ht⟩

/-- `SETNX` replies `:1` and binds a free key, or replies `:0` and leaves the store alone. -/
theorem CallStep.setnx (hsel : s.Selected) (haddr : addressed call.params = some (.setnx, key))
    (h : CallStep s call s') :
    (call.reply = ascii ":1\r\n" ∧ s.getObject key = none ∧ Holds s' key .string) ∨
      (call.reply = ascii ":0\r\n" ∧ s.getObject key ≠ none ∧ s' = s) := by
  obtain ⟨hname, hkey⟩ := addressed_eq_some haddr
  obtain ⟨env, b, hexec⟩ := h
  rw [execCommand_run hname (getCommand_name _), Command.handler] at hexec
  cases hvalue : call.params[2]? with
  | none => simp [YString.setnxCmd, param_run _ hkey, param_none _ hvalue] at hexec
  | some value =>
      cases hget : s.getObject key with
      | none =>
          rw [YString.setnxCmd_absent hkey hvalue hget] at hexec
          simp only [EStateM.Result.ok.injEq, World.mk.injEq] at hexec
          obtain ⟨-, rfl, hreply⟩ := hexec
          refine Or.inl ⟨hreply.symm, rfl, .createString value, ?_, YObject.type_createString value⟩
          rw [YStore.getObject_setValue hsel, if_pos rfl]
      | some obj =>
          rw [YString.setnxCmd_present hkey hvalue hget] at hexec
          simp only [EStateM.Result.ok.injEq, World.mk.injEq] at hexec
          obtain ⟨-, rfl, hreply⟩ := hexec
          exact Or.inr ⟨hreply.symm, by simp, rfl⟩

theorem CallStep.set (hsel : s.Selected) (haddr : addressed call.params = some (.set, key))
    (h : CallStep s call s') : Holds s' key .string := by
  obtain ⟨hname, hkey⟩ := addressed_eq_some haddr
  obtain ⟨env, b, hexec⟩ := h
  rw [execCommand_run hname (getCommand_name _), Command.handler] at hexec
  cases hvalue : call.params[2]? with
  | none => simp [YString.setCmd, param_run _ hkey, param_none _ hvalue] at hexec
  | some value =>
      rw [YString.setCmd_run hkey hvalue] at hexec
      simp only [EStateM.Result.ok.injEq, World.mk.injEq] at hexec
      obtain ⟨-, rfl, -⟩ := hexec
      refine ⟨.createString value, ?_, YObject.type_createString value⟩
      rw [YStore.getObject_setValue hsel, if_pos rfl]

theorem CallStep.gives_string (hsel : s.Selected) (h : CallStep s call s')
    (hgives : GivesString key call) : Holds s' key .string := by
  rcases hgives with hset | ⟨hsetnx, hone⟩
  · exact h.set hsel hset
  · rcases h.setnx hsel hsetnx with ⟨-, -, hs'⟩ | ⟨hzero, -⟩
    · exact hs'
    · rw [hone] at hzero
      exact absurd hzero (by decide)

theorem CallStep.not_wins (hsel : s.Selected) (hs : Holds s key .string)
    (h : CallStep s call s') : ¬ Wins key call := by
  rintro ⟨hsetnx, hone⟩
  rcases h.setnx hsel hsetnx with ⟨-, hnone, -⟩ | ⟨hzero, -⟩
  · obtain ⟨obj, hget, -⟩ := hs
    rw [hnone] at hget
    cases hget
  · rw [hone] at hzero
    exact absurd hzero (by decide)

end Steps

/-- In every run from the empty store: a key that a `SET` or a winning `SETNX` gave a string holds a
string from then on, at most one `SETNX` on a key replies `:1`, and one that replies `:0` leaves the
store as it was. -/
theorem setnx_single_winner {trace : List (Transition YStore Call)} {s : YStore}
    (run : Run CallStep .start trace s) (key : Bytes) :
    (∀ later t earlier, trace = later ++ t :: earlier → GivesString key t.label →
      ∀ u ∈ later ++ [t], Holds u.dst key .string) ∧
    (labels trace).Pairwise (fun call call' => ¬ (Wins key call ∧ Wins key call')) ∧
    ∀ t ∈ trace, addressed t.label.params = some (.setnx, key) →
      t.label.reply = ascii ":0\r\n" → t.dst = t.src := by
  have hsel : ∀ s l s', YStore.Selected s → CallStep s l s' → YStore.Selected s' :=
    fun s l s' hs h => h.selected hs
  have hkeep : ∀ s l s', YStore.Selected s → Holds s key .string → CallStep s l s' →
      Holds s' key .string := fun s l s' hs hstring h => h.keeps_string hs hstring
  refine ⟨?_, ?_, ?_⟩
  · intro later t earlier hsplit hgives
    exact run.stays YStore.selected_start hsel (fun s l s' hs h hl => h.gives_string hs hl) hkeep
      hsplit hgives
  · exact run.at_most_once YStore.selected_start hsel
      (fun s l s' hs h hl => h.gives_string hs (Or.inr hl)) hkeep
      fun s l s' hs hstring h => h.not_wins hs hstring
  · refine run.each_step (Q := fun s l s' => addressed l.params = some (.setnx, key) →
      l.reply = ascii ":0\r\n" → s' = s) YStore.selected_start hsel ?_
    intro s l s' hs h haddr hzero
    rcases h.setnx hs haddr with ⟨hone, -⟩ | ⟨-, -, hsame⟩
    · rw [hone] at hzero
      exact absurd hzero (by decide)
    · exact hsame

/-- A `SETNX` in the empty store. -/
theorem setnx_single_winner_once : ∃ s : YStore,
    CallStep .start ⟨[ascii "setnx", ascii "k", ascii "v"], ascii ":1\r\n"⟩ s ∧
      Holds s (ascii "k") .string := by
  have hstep : CallStep .start ⟨[ascii "setnx", ascii "k", ascii "v"], ascii ":1\r\n"⟩ _ :=
    ⟨default, true, execCommand_ok (c := .setnx) rfl
      (YString.setnxCmd_absent rfl rfl (YStore.getObject_start _))⟩
  have hwins : Wins (ascii "k") ⟨[ascii "setnx", ascii "k", ascii "v"], ascii ":1\r\n"⟩ :=
    ⟨by decide, rfl⟩
  exact ⟨_, hstep, (setnx_single_winner (.next .start hstep) (ascii "k")).1 [] _ [] rfl
    (Or.inr hwins) _ List.mem_cons_self⟩

end Yedis
