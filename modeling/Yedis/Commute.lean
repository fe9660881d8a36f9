import Yedis.Local

/-!
# Commands on different keys commute

A command changes nothing but its key and looks at nothing else, so two commands on
different keys lead to the same store in either order, and each comes to the same
end with the same reply.
-/

namespace Yedis
open TwoRuns

/-- How a run ended, and the reply it left. -/
def outcome {α : Type} : EStateM.Result ExecFault World α → Except ExecFault α × Bytes
  | .ok a w => (.ok a, w.reply)
  | .error f w => (.error f, w.reply)

theorem outcome_of_agree {α : Type} {key : Bytes} {x y : EStateM.Result ExecFault World α}
    (h : Agree (SameAt key) x y) : outcome x = outcome y := by
  cases h with
  | ok a hsame => rw [outcome, outcome, hsame.reply]
  | error f hsame => rw [outcome, outcome, hsame.reply]

theorem Change.apply_eq_withDB {s : YStore} (h : s.Selected) (key : Bytes) (change : Change) :
    ∃ db, change.apply s key = s.withDB db := by
  cases change with
  | keep => exact ⟨s.db, ((YStore.withDB_eq_self h _).mpr rfl).symm⟩
  | bind obj => exact ⟨_, rfl⟩
  | remove => exact ⟨_, rfl⟩

theorem withDB_withDB (s : YStore) (db db' : YDB) : (s.withDB db).withDB db' = s.withDB db' := by
  simp only [YStore.withDB, List.set_set]

theorem withDB_inj_of_getObject {s : YStore} (h : s.Selected) {db db' : YDB}
    (hsame : ∀ k, (s.withDB db).getObject k = (s.withDB db').getObject k) :
    s.withDB db = s.withDB db' := by
  have heq : db = db' := by
    apply Finmap.ext_lookup
    intro k
    have hk := hsame k
    rwa [YStore.getObject, YStore.getObject, YStore.db_withDB h, YStore.db_withDB h] at hk
  rw [heq]

/-- Changes of different keys commute. -/
theorem Change.apply_comm {s : YStore} (h : s.Selected) {key key' : Bytes} (hne : key ≠ key')
    (change change' : Change) :
    change'.apply (change.apply s key) key' = change.apply (change'.apply s key') key := by
  have hsel := Change.selected_apply h key change
  have hsel' := Change.selected_apply h key' change'
  obtain ⟨db₁, hdb₁⟩ := Change.apply_eq_withDB h key change
  obtain ⟨db₂, hdb₂⟩ := Change.apply_eq_withDB hsel key' change'
  obtain ⟨db₃, hdb₃⟩ := Change.apply_eq_withDB h key' change'
  obtain ⟨db₄, hdb₄⟩ := Change.apply_eq_withDB hsel' key change
  have hleft : change'.apply (change.apply s key) key' = s.withDB db₂ := by
    rw [hdb₂, hdb₁, withDB_withDB]
  have hright : change.apply (change'.apply s key') key = s.withDB db₄ := by
    rw [hdb₄, hdb₃, withDB_withDB]
  rw [hleft, hright]
  apply withDB_inj_of_getObject h
  intro k
  rw [← hleft, ← hright, Change.getObject_apply hsel, Change.getObject_apply hsel',
    Change.getObject_apply h, Change.getObject_apply h, Change.getObject_apply h,
    Change.getObject_apply h, if_neg hne, if_neg hne.symm]
  by_cases hk : k = key
  · rw [if_pos hk, if_pos hk, if_neg (by rw [hk]; exact hne)]
  · rw [if_neg hk, if_neg hk]

section Commute
variable {s : YStore} {params params' : List Bytes} {c c' : Command} {key key' : Bytes}

/-- A command comes to the same end with the same reply after a command on another key. -/
theorem outcome_after (env env' : Env) (hsel : s.Selected)
    (haddr : addressed params = some (c, key)) (haddr' : addressed params' = some (c', key'))
    (hne : key ≠ key') :
    outcome (execCommand env params ⟨s, []⟩) =
      outcome (execCommand env params ⟨storeAfter (execCommand env' params' ⟨s, []⟩), []⟩) := by
  refine outcome_of_agree (local_execCommand env haddr _ _ ?_)
  exact
    { selected := hsel
      selected' := execCommand_selected env' hsel []
      object := (execCommand_getObject_ne env' hsel haddr' hne []).symm
      reply := rfl }

/-- Two commands on different keys leave the same store in either order, and each of them ends the
same way with the same reply. -/
theorem commands_commute (env env' : Env) (hsel : s.Selected)
    (haddr : addressed params = some (c, key)) (haddr' : addressed params' = some (c', key'))
    (hne : key ≠ key') :
    storeAfter (execCommand env' params' ⟨storeAfter (execCommand env params ⟨s, []⟩), []⟩) =
        storeAfter (execCommand env params ⟨storeAfter (execCommand env' params' ⟨s, []⟩), []⟩) ∧
      outcome (execCommand env params ⟨s, []⟩) =
        outcome (execCommand env params ⟨storeAfter (execCommand env' params' ⟨s, []⟩), []⟩) ∧
      outcome (execCommand env' params' ⟨s, []⟩) =
        outcome (execCommand env' params' ⟨storeAfter (execCommand env params ⟨s, []⟩), []⟩) := by
  refine ⟨?_, outcome_after env env' hsel haddr haddr' hne,
    outcome_after env' env hsel haddr' haddr hne.symm⟩
  rw [execCommand_change env' (execCommand_selected env hsel []) haddr',
    execCommand_change env (execCommand_selected env' hsel []) haddr,
    execCommand_getObject_ne env' hsel haddr' hne, execCommand_getObject_ne env hsel haddr hne.symm,
    execCommand_change env hsel haddr, execCommand_change env' hsel haddr']
  exact Change.apply_comm hsel hne _ _

end Commute

/-- Two pushes onto different keys. -/
theorem commands_commute_push :
    storeAfter (execCommand default [ascii "RPUSH", ascii "b", ascii "y"]
        ⟨storeAfter (execCommand default [ascii "LPUSH", ascii "a", ascii "x"] ⟨.start, []⟩), []⟩) =
      storeAfter (execCommand default [ascii "LPUSH", ascii "a", ascii "x"]
        ⟨storeAfter (execCommand default [ascii "RPUSH", ascii "b", ascii "y"] ⟨.start, []⟩), []⟩) := by
  have hpush : addressed [ascii "LPUSH", ascii "a", ascii "x"] = some (.LPUSH, ascii "a") := by
    decide
  have hpush' : addressed [ascii "RPUSH", ascii "b", ascii "y"] = some (.RPUSH, ascii "b") := by
    decide
  exact (commands_commute default default YStore.selected_start hpush hpush' (by decide)).1

end Yedis
