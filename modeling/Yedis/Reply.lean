import Yedis.Command

/-!
# One command, one reply

`IsReply` says that bytes are one complete reply. Every handler that does not
answer with exactly one reply is named here, with the parameters and the state of
its key in which it does: the pops and `LRANGE` may write nothing, the set and hash
handlers may write an error line without CRLF, twice or behind a null, and `ZADD`
may use a null pointer.
-/

namespace Yedis

inductive IsReply : Bytes → Prop
  | simple (text : Bytes) (h : ∀ c ∈ text, c ≠ 13 ∧ c ≠ 10) : IsReply (43 :: text ++ crlf)
  | error (text : Bytes) (h : ∀ c ∈ text, c ≠ 13 ∧ c ≠ 10) : IsReply (45 :: text ++ crlf)
  | integer (n : ℤ) : IsReply (58 :: signedDecimal n ++ crlf)
  | bulk (v : Bytes) : IsReply (36 :: decimal v.length ++ crlf ++ v ++ crlf)
  | null : IsReply (36 :: 45 :: 49 :: crlf)
  | array (vs : List Bytes) : IsReply (42 :: decimal vs.length ++ crlf ++
      vs.flatMap fun v => 36 :: decimal v.length ++ crlf ++ v ++ crlf)

theorem IsReply.last {r : Bytes} (h : IsReply r) : r.getLast? = some 10 := by
  have hcrlf : ∀ x : Bytes, (x ++ crlf).getLast? = some 10 := fun x => by simp [crlf]
  cases h with
  | simple text h => exact hcrlf (43 :: text)
  | error text h => exact hcrlf (45 :: text)
  | integer n => exact hcrlf (58 :: signedDecimal n)
  | bulk v => exact hcrlf _
  | null => rfl
  | array vs =>
      cases hvs : vs.reverse with
      | nil =>
          obtain rfl : vs = [] := by simpa using hvs
          exact hcrlf (42 :: decimal 0)
      | cons v us =>
          obtain rfl : vs = us.reverse ++ [v] := by
            rw [← List.reverse_reverse vs, hvs, List.reverse_cons]
          rw [List.flatMap_append, List.flatMap_singleton, ← List.append_assoc,
            ← List.append_assoc]
          exact hcrlf _

/-- The handler ends and has written exactly one reply to an empty buffer. -/
def AnswersOne (x : Exec YError) (s : YStore) : Prop :=
  ∃ e w', x ⟨s, []⟩ = .ok e w' ∧ IsReply w'.reply

/-- `execCommand` ends and has written exactly one reply to an empty buffer. -/
def RepliesOnce (env : Env) (s : YStore) (params : List Bytes) : Prop :=
  ∃ b w', execCommand env params ⟨s, []⟩ = .ok b w' ∧ IsReply w'.reply

theorem answersOne_iff {x : Exec YError} {s s' : YStore} {e : YError} {r : Bytes}
    (h : x ⟨s, []⟩ = .ok e ⟨s', r⟩) : AnswersOne x s ↔ IsReply r := by
  constructor
  · rintro ⟨e', w', hx, hr⟩
    rw [h] at hx
    cases hx
    exact hr
  · exact fun hr => ⟨e, _, h, hr⟩

theorem not_answersOne {x : Exec YError} {s : YStore} {f : ExecFault} {w : World}
    (h : x ⟨s, []⟩ = .error f w) : ¬ AnswersOne x s := by
  rintro ⟨e, w', hx, -⟩
  rw [h] at hx
  cases hx

theorem repliesOnce_iff {env : Env} {s : YStore} {params : List Bytes} {cmd : Bytes} {c : Command}
    (h : params[0]? = some cmd) (hcmd : getCommand cmd = some c) :
    RepliesOnce env s params ↔ AnswersOne (c.handler env params) s := by
  unfold RepliesOnce AnswersOne
  rw [execCommand_run h hcmd]
  cases c.handler env params ⟨s, []⟩ with
  | ok e w' => simp
  | error f w' => simp

/-- How many parameters a handler reads, the command's name included. -/
def Command.arity : Command → ℕ
  | COMMAND => 1
  | set => 3
  | get => 2
  | setnx => 3
  | LPUSH => 2
  | RPUSH => 2
  | LPUSHX => 2
  | RPUSHX => 2
  | LPOP => 2
  | RPOP => 2
  | LLEN => 2
  | LRANGE => 4
  | SADD => 2
  | SCARD => 2
  | SMEMBERS => 2
  | SPOP => 2
  | HGET => 3
  | HSET => 4
  | ZADD => 1

/-- There is a command name, and a registered command has the parameters its handler reads. -/
def Supplied (params : List Bytes) : Prop :=
  ∃ cmd, params[0]? = some cmd ∧ ∀ c, getCommand cmd = some c → c.arity ≤ params.length

/-- The object of type `t` or nothing is bound to the key. -/
def HoldsOrLacks (s : YStore) (key : Bytes) (t : YType) : Prop :=
  ∀ obj, s.getObject key = some obj → obj.type = t

def Holds (s : YStore) (key : Bytes) (t : YType) : Prop :=
  ∃ obj, s.getObject key = some obj ∧ obj.type = t

/-- The parameters and the state of the key with which the handler answers once. -/
def ProperCall (s : YStore) (params : List Bytes) : Command → Prop
  | .LPOP => ∃ l, s.getObject (params.getD 1 []) = some (.list l) ∧ l ≠ []
  | .RPOP => ∃ l, s.getObject (params.getD 1 []) = some (.list l) ∧ l ≠ []
  | .LRANGE => Holds s (params.getD 1 []) .list ∧ YedisStrtol (params.getD 2 []) ≠ none ∧
      YedisStrtol (params.getD 3 []) ≠ none
  | .SADD => HoldsOrLacks s (params.getD 1 []) .set
  | .SCARD => Holds s (params.getD 1 []) .set
  | .SMEMBERS => Holds s (params.getD 1 []) .set
  | .SPOP => Holds s (params.getD 1 []) .set
  | .HGET => Holds s (params.getD 1 []) .hash
  | .HSET => HoldsOrLacks s (params.getD 1 []) .hash
  | .ZADD => params.length % 2 ≠ 0 ∨ HoldsOrLacks s (params.getD 1 []) .sortedSet
  | _ => True

theorem isReply_formatInt (n : ℤ) : IsReply (formatInt n) := .integer n

theorem isReply_formatBulk (v : Bytes) : IsReply (formatBulk v) := .bulk v

theorem isReply_multiBulk (vs : List Bytes) :
    IsReply (preFormatMultiBulk vs.length ++ vs.flatMap formatBulk) := .array vs

theorem no_line_end {text : Bytes} (h : (text.all fun c => c ≠ 13 && c ≠ 10) = true) :
    ∀ c ∈ text, c ≠ 13 ∧ c ≠ 10 := by
  simpa using h

theorem isReply_ok : IsReply (ascii "+OK\r\n") := .simple (ascii "OK") (no_line_end rfl)

theorem isReply_noSuchKey : IsReply noSuchKey := 
  .error (ascii "ERR no such key") (no_line_end rfl)

theorem isReply_unknownCommand : IsReply unknownCommand :=
  .error (ascii "ERR Unknown command") (no_line_end rfl)

theorem not_isReply_errorType (r : Bytes) : ¬ IsReply (r ++ errorType) := by
  intro h
  have hlast := h.last
  rw [List.getLast?_append_of_ne_nil _ (by decide)] at hlast
  exact absurd hlast (by decide)

theorem not_isReply_nil : ¬ IsReply [] := fun h => by simpa using h.last

section Handlers
variable {params : List Bytes} {s : YStore} {key : Bytes}

open YString YList YSet YHash YSortedSet

theorem setCmd_answers {value : Bytes} (hkey : params[1]? = some key)
    (hvalue : params[2]? = some value) : AnswersOne (setCmd params) s :=
  (answersOne_iff (setCmd_run hkey hvalue)).mpr isReply_ok

theorem getCmd_answers (hkey : params[1]? = some key) : AnswersOne (getCmd params) s := by
  cases hget : s.getObject key with
  | none => exact (answersOne_iff (getCmd_absent hkey hget)).mpr .null
  | some obj =>
      by_cases ht : obj.type = .string
      · exact (answersOne_iff (getCmd_string hkey hget ht)).mpr (isReply_formatBulk _)
      · exact (answersOne_iff (getCmd_other hkey hget ht)).mpr isReply_noSuchKey

theorem setnxCmd_answers {value : Bytes} (hkey : params[1]? = some key)
    (hvalue : params[2]? = some value) : AnswersOne (setnxCmd params) s := by
  cases hget : s.getObject key with
  | none => exact (answersOne_iff (setnxCmd_absent hkey hvalue hget)).mpr (.integer 1)
  | some obj => exact (answersOne_iff (setnxCmd_present hkey hvalue hget)).mpr (.integer 0)

theorem push_answers (hkey : params[1]? = some key) (pos : ListPosition) (create : Bool) :
    AnswersOne (push params pos create) s := by
  cases hget : s.getObject key with
  | none =>
      cases create with
      | true => exact (answersOne_iff (push_create hkey hget pos)).mpr (isReply_formatInt _)
      | false => exact (answersOne_iff (push_absent hkey hget pos)).mpr isReply_noSuchKey
  | some obj =>
      by_cases ht : obj.type = .list
      · obtain ⟨l, rfl⟩ := type_list ht
        exact (answersOne_iff (push_list hkey hget pos create)).mpr (isReply_formatInt _)
      · exact (answersOne_iff (push_other hkey hget ht pos create)).mpr isReply_noSuchKey

theorem popCmd_answers_iff (hkey : params[1]? = some key) (pos : ListPosition) :
    AnswersOne (popCmd pos params) s ↔ ∃ l, s.getObject key = some (.list l) ∧ l ≠ [] := by
  cases hget : s.getObject key with
  | none =>
      rw [answersOne_iff (popCmd_absent hkey hget pos)]
      exact iff_of_false not_isReply_nil (by simp)
  | some obj =>
      by_cases ht : obj.type = .list
      · obtain ⟨l, rfl⟩ := type_list ht
        cases l with
        | nil => exact iff_of_false (not_answersOne (popCmd_empty hkey hget pos)) (by simp)
        | cons front rest =>
            rw [answersOne_iff (popCmd_list hkey hget pos)]
            exact iff_of_true (isReply_formatBulk _) ⟨_, rfl, by simp⟩
      · rw [answersOne_iff (popCmd_other hkey hget ht pos)]
        apply iff_of_false not_isReply_nil
        rintro ⟨l, hl, -⟩
        cases hl
        exact ht rfl

theorem llen_answers (hkey : params[1]? = some key) : AnswersOne (llen params) s := by
  cases hget : s.getObject key with
  | none => exact (answersOne_iff (llen_absent hkey hget)).mpr (.integer 0)
  | some obj =>
      by_cases ht : obj.type = .list
      · obtain ⟨l, rfl⟩ := type_list ht
        exact (answersOne_iff (llen_list hkey hget)).mpr (isReply_formatInt _)
      · exact (answersOne_iff (llen_other hkey hget ht)).mpr isReply_unknownCommand

theorem lrange_answers_iff {p q : Bytes} (hkey : params[1]? = some key) (hp : params[2]? = some p)
    (hq : params[3]? = some q) : AnswersOne (lrange params) s ↔
      Holds s key .list ∧ YedisStrtol p ≠ none ∧ YedisStrtol q ≠ none := by
  cases hget : s.getObject key with
  | none =>
      rw [answersOne_iff (lrange_absent hkey hget)]
      exact iff_of_false not_isReply_nil (by simp [Holds, hget])
  | some obj =>
      by_cases ht : obj.type = .list
      · obtain ⟨l, rfl⟩ := type_list ht
        by_cases hints : YedisStrtol p ≠ none ∧ YedisStrtol q ≠ none
        · obtain ⟨a, ha⟩ := Option.ne_none_iff_exists'.mp hints.1
          obtain ⟨b, hb⟩ := Option.ne_none_iff_exists'.mp hints.2
          obtain ⟨vs, hrun⟩ := lrange_list (w := ⟨s, []⟩) hkey hget hp ha hq hb
          rw [answersOne_iff hrun]
          exact iff_of_true (isReply_multiBulk vs) ⟨⟨_, hget, rfl⟩, hints⟩
        · refine iff_of_false ?_ fun h => hints h.2
          have hno : ¬ ∃ p q a b, params[2]? = some p ∧ YedisStrtol p = some a ∧
              params[3]? = some q ∧ YedisStrtol q = some b := by
            rintro ⟨p', q', a, b, hp', ha, hq', hb⟩
            rw [hp] at hp'
            rw [hq] at hq'
            cases hp'
            cases hq'
            exact hints ⟨by rw [ha]; simp, by rw [hb]; simp⟩
          rcases lrange_no_index (w := ⟨s, []⟩) hkey hget hno with hrun | hrun
          · rw [answersOne_iff hrun]
            exact not_isReply_nil
          · exact not_answersOne hrun
      · rw [answersOne_iff (lrange_other hkey hget ht)]
        apply iff_of_false not_isReply_nil
        rintro ⟨⟨obj', hobj, htype⟩, -⟩
        rw [hget] at hobj
        cases hobj
        exact ht htype

theorem holds_some {obj : YObject} {t : YType} (hget : s.getObject key = some obj) :
    Holds s key t ↔ obj.type = t := by
  simp [Holds, hget]

theorem not_holds_none {t : YType} (hget : s.getObject key = none) : ¬ Holds s key t := by
  simp [Holds, hget]

theorem holdsOrLacks_some {obj : YObject} {t : YType} (hget : s.getObject key = some obj) :
    HoldsOrLacks s key t ↔ obj.type = t := by
  simp [HoldsOrLacks, hget]

theorem holdsOrLacks_none {t : YType} (hget : s.getObject key = none) : HoldsOrLacks s key t := by
  simp [HoldsOrLacks, hget]

theorem sadd_answers_iff (hkey : params[1]? = some key) :
    AnswersOne (sadd params) s ↔ HoldsOrLacks s key .set := by
  cases hget : s.getObject key with
  | none =>
      rw [answersOne_iff (sadd_absent hkey hget)]
      exact iff_of_true (isReply_formatInt _) (holdsOrLacks_none hget)
  | some obj =>
      rw [holdsOrLacks_some hget]
      by_cases ht : obj.type = .set
      · obtain ⟨m, rfl⟩ := type_set ht
        rw [answersOne_iff (sadd_set hkey hget)]
        exact iff_of_true (isReply_formatInt _) ht
      · rw [answersOne_iff (sadd_other hkey hget ht)]
        exact iff_of_false (not_isReply_errorType _) ht

theorem scard_answers_iff (hkey : params[1]? = some key) :
    AnswersOne (scard params) s ↔ Holds s key .set := by
  cases hget : s.getObject key with
  | none =>
      rw [answersOne_iff (scard_absent hkey hget)]
      exact iff_of_false (not_isReply_errorType _) (not_holds_none hget)
  | some obj =>
      rw [holds_some hget]
      by_cases ht : obj.type = .set
      · obtain ⟨m, rfl⟩ := type_set ht
        rw [answersOne_iff (scard_set hkey hget)]
        exact iff_of_true (isReply_formatInt _) ht
      · rw [answersOne_iff (scard_other hkey hget ht)]
        exact iff_of_false (not_isReply_errorType _) ht

theorem smember_answers_iff (env : Env) (hkey : params[1]? = some key) :
    AnswersOne (smember env params) s ↔ Holds s key .set := by
  cases hget : s.getObject key with
  | none =>
      rw [answersOne_iff (smember_absent hkey hget)]
      exact iff_of_false (not_isReply_errorType _) (not_holds_none hget)
  | some obj =>
      rw [holds_some hget]
      by_cases ht : obj.type = .set
      · obtain ⟨m, rfl⟩ := type_set ht
        rw [answersOne_iff (smember_set hkey hget), ← order_length]
        exact iff_of_true (isReply_multiBulk _) ht
      · rw [answersOne_iff (smember_other hkey hget ht)]
        exact iff_of_false (not_isReply_errorType _) ht

theorem spop_answers_iff (env : Env) (hkey : params[1]? = some key) :
    AnswersOne (spop env params) s ↔ Holds s key .set := by
  cases hget : s.getObject key with
  | none =>
      rw [answersOne_iff (spop_absent hkey hget)]
      exact iff_of_false (not_isReply_errorType _) (not_holds_none hget)
  | some obj =>
      rw [holds_some hget]
      by_cases ht : obj.type = .set
      · obtain ⟨m, rfl⟩ := type_set ht
        by_cases hm : m = ∅
        · subst hm
          rw [answersOne_iff (spop_empty hkey hget)]
          exact iff_of_true .null ht
        · rw [answersOne_iff (spop_set hkey hget hm)]
          exact iff_of_true (isReply_formatBulk _) ht
      · rw [answersOne_iff (spop_other hkey hget ht)]
        exact iff_of_false (not_isReply_errorType _) ht

theorem hget_answers_iff {field : Bytes} (hkey : params[1]? = some key)
    (hfield : params[2]? = some field) : AnswersOne (hget params) s ↔ Holds s key .hash := by
  cases hobj : s.getObject key with
  | none =>
      rw [answersOne_iff (hget_absent hkey hobj)]
      exact iff_of_false (not_isReply_errorType _) (not_holds_none hobj)
  | some obj =>
      rw [holds_some hobj]
      by_cases ht : obj.type = .hash
      · obtain ⟨m, rfl⟩ := type_hash ht
        rw [answersOne_iff (hget_hash hkey hobj hfield)]
        refine iff_of_true ?_ ht
        cases m.lookup field with
        | some val => exact isReply_formatBulk val
        | none => exact .null
      · rw [answersOne_iff (hget_other hkey hobj ht)]
        exact iff_of_false (not_isReply_errorType _) ht

theorem hset_answers_iff {field val : Bytes} (hkey : params[1]? = some key)
    (hfield : params[2]? = some field) (hval : params[3]? = some val) :
    AnswersOne (hset params) s ↔ HoldsOrLacks s key .hash := by
  cases hobj : s.getObject key with
  | none =>
      rw [answersOne_iff (hset_absent hkey hobj hfield hval)]
      exact iff_of_true (isReply_formatInt _) (holdsOrLacks_none hobj)
  | some obj =>
      rw [holdsOrLacks_some hobj]
      by_cases ht : obj.type = .hash
      · obtain ⟨m, rfl⟩ := type_hash ht
        rw [answersOne_iff (hset_hash hkey hobj hfield hval)]
        exact iff_of_true (isReply_formatInt _) ht
      · rw [answersOne_iff (hset_other hkey hobj ht)]
        exact iff_of_false (not_isReply_errorType _) ht

theorem zadd_answers_iff (env : Env) (hkey : params.length % 2 = 0 → params[1]? = some key) :
    AnswersOne (zadd env params) s ↔
      params.length % 2 ≠ 0 ∨ HoldsOrLacks s key .sortedSet := by
  by_cases hodd : params.length % 2 ≠ 0
  · rw [answersOne_iff (zadd_odd hodd)]
    exact iff_of_true (.error (ascii "ERR syntax error") (no_line_end rfl)) (Or.inl hodd)
  · rw [or_iff_right hodd]
    rw [not_not] at hodd
    cases hobj : s.getObject key with
    | none =>
        obtain ⟨n, -, hrun⟩ := zadd_absent (w := ⟨s, []⟩) env hodd (hkey hodd) hobj
        rw [answersOne_iff hrun]
        exact iff_of_true (isReply_formatInt _) (holdsOrLacks_none hobj)
    | some obj =>
        rw [holdsOrLacks_some hobj]
        by_cases ht : obj.type = .sortedSet
        · obtain ⟨z, rfl⟩ := type_sortedSet ht
          obtain ⟨n, -, hrun⟩ := zadd_sset (w := ⟨s, []⟩) env hodd (hkey hodd) hobj
          rw [answersOne_iff hrun]
          exact iff_of_true (isReply_formatInt _) ht
        · exact iff_of_false (not_answersOne (zadd_other hodd (hkey hodd) hobj ht)) ht

end Handlers

theorem getElem?_getD {params : List Bytes} {i : ℕ} (h : i < params.length) :
    params[i]? = some (params.getD i []) := by
  rw [List.getD_eq_getElem?_getD, List.getElem?_eq_getElem h]
  rfl

/-- A handler with the parameters it reads answers once exactly on a proper call. -/
theorem handler_answers_iff (env : Env) (s : YStore) {params : List Bytes} {c : Command}
    (hname : params[0]? = some c.name) (harity : c.arity ≤ params.length) :
    AnswersOne (c.handler env params) s ↔ ProperCall s params c := by
  have hget : ∀ i, i < c.arity → params[i]? = some (params.getD i []) :=
    fun i hi => getElem?_getD (hi.trans_le harity)
  cases c with
  | COMMAND =>
      exact iff_of_true ((answersOne_iff (command_run hname)).mpr isReply_ok) trivial
  | set => exact iff_of_true (setCmd_answers (hget 1 (by decide)) (hget 2 (by decide))) trivial
  | get => exact iff_of_true (getCmd_answers (hget 1 (by decide))) trivial
  | setnx => exact iff_of_true (setnxCmd_answers (hget 1 (by decide)) (hget 2 (by decide))) trivial
  | LPUSH => exact iff_of_true (push_answers (hget 1 (by decide)) .head true) trivial
  | RPUSH => exact iff_of_true (push_answers (hget 1 (by decide)) .tail true) trivial
  | LPUSHX => exact iff_of_true (push_answers (hget 1 (by decide)) .head false) trivial
  | RPUSHX => exact iff_of_true (push_answers (hget 1 (by decide)) .tail false) trivial
  | LPOP => exact popCmd_answers_iff (hget 1 (by decide)) .head
  | RPOP => exact popCmd_answers_iff (hget 1 (by decide)) .tail
  | LLEN => exact iff_of_true (llen_answers (hget 1 (by decide))) trivial
  | LRANGE =>
      exact lrange_answers_iff (hget 1 (by decide)) (hget 2 (by decide)) (hget 3 (by decide))
  | SADD => exact sadd_answers_iff (hget 1 (by decide))
  | SCARD => exact scard_answers_iff (hget 1 (by decide))
  | SMEMBERS => exact smember_answers_iff env (hget 1 (by decide))
  | SPOP => exact spop_answers_iff env (hget 1 (by decide))
  | HGET => exact hget_answers_iff (hget 1 (by decide)) (hget 2 (by decide))
  | HSET =>
      exact hset_answers_iff (hget 1 (by decide)) (hget 2 (by decide)) (hget 3 (by decide))
  | ZADD =>
      refine zadd_answers_iff env fun heven => getElem?_getD ?_
      have hone : 1 ≤ params.length := harity
      omega

/-- A command with the parameters its handler reads gets exactly one well-formed reply if and only
if its name is unknown or it is a proper call. -/
theorem one_reply (env : Env) (s : YStore) {params : List Bytes} (h : Supplied params) :
    RepliesOnce env s params ↔
      ∀ c, getCommand (params.getD 0 []) = some c → ProperCall s params c := by
  obtain ⟨cmd, hcmd, harity⟩ := h
  have hhead : params.getD 0 [] = cmd := by
    rw [List.getD_eq_getElem?_getD, hcmd]
    rfl
  rw [hhead]
  cases hget : getCommand cmd with
  | none =>
      refine iff_of_true ⟨false, _, execCommand_unknown hcmd hget, isReply_unknownCommand⟩ ?_
      simp
  | some c =>
      rw [repliesOnce_iff hcmd hget, handler_answers_iff env s
        (by rw [hcmd, name_of_getCommand hget]) (harity c hget)]
      simp

theorem supplied_of_name {params : List Bytes} {c : Command} (hname : params[0]? = some c.name)
    (harity : c.arity ≤ params.length) : Supplied params := by
  refine ⟨c.name, hname, ?_⟩
  intro d hd
  rw [getCommand_name] at hd
  cases hd
  exact harity

/-- `SADD` on a store without keys gets one reply. -/
theorem one_reply_sadd : RepliesOnce default .start [ascii "SADD", ascii "k", ascii "v"] := by
  apply (one_reply default .start (supplied_of_name (c := .SADD) rfl (by decide))).mpr
  intro c hc
  obtain rfl : .SADD = c := by simpa using (getCommand_name .SADD).symm.trans hc
  exact holdsOrLacks_none rfl

/-- `LPOP` on a store without keys gets no reply. -/
theorem one_reply_fails : Supplied [ascii "LPOP", ascii "k"] ∧
    ¬ RepliesOnce default .start [ascii "LPOP", ascii "k"] := by
  refine ⟨supplied_of_name (c := .LPOP) rfl (by decide), ?_⟩
  rw [repliesOnce_iff rfl (getCommand_name .LPOP)]
  refine fun h => ?_
  obtain ⟨l, hl, -⟩ := (popCmd_answers_iff rfl .head).mp h
  cases hl

end Yedis
