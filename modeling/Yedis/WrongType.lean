import Yedis.Reply

/-!
# Commands on a key of another type

What a handler answers when its key is bound to an object of another type than it
works on: the handlers of strings, lists, sets and hashes write an error text or
nothing and leave the store alone, and `ZADD` uses a null pointer.
-/

namespace Yedis

/-- The type of object a command works on. `SET` and `SETNX` take any. -/
def Command.worksOn : Command → Option YType
  | COMMAND => none
  | set => none
  | get => some .string
  | setnx => none
  | LPUSH => some .list
  | RPUSH => some .list
  | LPUSHX => some .list
  | RPUSHX => some .list
  | LPOP => some .list
  | RPOP => some .list
  | LLEN => some .list
  | LRANGE => some .list
  | SADD => some .set
  | SCARD => some .set
  | SMEMBERS => some .set
  | SPOP => some .set
  | HGET => some .hash
  | HSET => some .hash
  | ZADD => some .sortedSet

/-- A command has the arguments it reads, and its key is bound to an object of another type than
the command works on. -/
structure WrongType (s : YStore) (params : List Bytes) (c : Command) : Prop where
  arity : c.arity ≤ params.length
  even : c = .ZADD → params.length % 2 = 0
  other : ∃ key obj t, params[1]? = some key ∧ s.getObject key = some obj ∧
    c.worksOn = some t ∧ obj.type ≠ t

def errorTexts : List Bytes := [noSuchKey, unknownCommand, errorType]

/-- Error texts one after another, or nothing. -/
def ErrorOnly (text : Bytes) : Prop :=
  ∃ parts : List Bytes, parts ⊆ errorTexts ∧ parts.flatten = text

/-- The handler ends with `YError_type`, has written error texts or nothing, and the store is as it
was. -/
def Refuses (x : Exec YError) (w : World) : Prop :=
  ∃ text, x w = .ok .type ⟨w.store, w.reply ++ text⟩ ∧ ErrorOnly text

/-- The same with one complete error line or nothing. -/
def RefusesInOneLine (x : Exec YError) (w : World) : Prop :=
  ∃ text, x w = .ok .type ⟨w.store, w.reply ++ text⟩ ∧
    (text = [] ∨ IsReply text ∧ text.head? = some 45)

/-- What the handlers other than `ZADD` write for an object of another type. -/
def Command.wrongTypeText : Command → Bytes
  | get => noSuchKey
  | LPUSH => noSuchKey
  | RPUSH => noSuchKey
  | LPUSHX => noSuchKey
  | RPUSHX => noSuchKey
  | LPOP => []
  | RPOP => []
  | LLEN => unknownCommand
  | LRANGE => []
  | SADD => errorType ++ errorType
  | SCARD => errorType ++ errorType
  | SMEMBERS => errorType ++ errorType
  | SPOP => errorType ++ errorType
  | HGET => errorType
  | HSET => errorType
  | _ => []

section WrongType
variable {w : World} {params : List Bytes} {c : Command}

theorem handler_wrongType (env : Env) (h : WrongType w.store params c) (hc : c ≠ .ZADD) :
    c.handler env params w = .ok .type ⟨w.store, w.reply ++ c.wrongTypeText⟩ := by
  obtain ⟨key, obj, t, hkey, hget, ht, hne⟩ := h.other
  cases c with
  | COMMAND => cases ht
  | set => cases ht
  | setnx => cases ht
  | ZADD => exact absurd rfl hc
  | get =>
      cases ht
      exact YString.getCmd_other hkey hget hne
  | LPUSH =>
      cases ht
      exact YList.push_other hkey hget hne .head true
  | RPUSH =>
      cases ht
      exact YList.push_other hkey hget hne .tail true
  | LPUSHX =>
      cases ht
      exact YList.push_other hkey hget hne .head false
  | RPUSHX =>
      cases ht
      exact YList.push_other hkey hget hne .tail false
  | LPOP =>
      cases ht
      rw [Command.wrongTypeText, List.append_nil]
      exact YList.popCmd_other hkey hget hne .head
  | RPOP =>
      cases ht
      rw [Command.wrongTypeText, List.append_nil]
      exact YList.popCmd_other hkey hget hne .tail
  | LLEN =>
      cases ht
      exact YList.llen_other hkey hget hne
  | LRANGE =>
      cases ht
      rw [Command.wrongTypeText, List.append_nil]
      exact YList.lrange_other hkey hget hne
  | SADD =>
      cases ht
      rw [Command.wrongTypeText, ← List.append_assoc]
      exact YSet.sadd_other hkey hget hne
  | SCARD =>
      cases ht
      rw [Command.wrongTypeText, ← List.append_assoc]
      exact YSet.scard_other hkey hget hne
  | SMEMBERS =>
      cases ht
      rw [Command.wrongTypeText, ← List.append_assoc]
      exact YSet.smember_other hkey hget hne
  | SPOP =>
      cases ht
      rw [Command.wrongTypeText, ← List.append_assoc]
      exact YSet.spop_other hkey hget hne
  | HGET =>
      cases ht
      exact YHash.hget_other hkey hget hne
  | HSET =>
      cases ht
      exact YHash.hset_other hkey hget hne

theorem zadd_wrongType (env : Env) (h : WrongType w.store params .ZADD) :
    Command.ZADD.handler env params w = .error .nullObject ⟨w.store, w.reply ++ errorType⟩ := by
  obtain ⟨key, obj, t, hkey, hget, ht, hne⟩ := h.other
  cases ht
  exact YSortedSet.zadd_other (h.even rfl) hkey hget hne

theorem errorOnly_wrongTypeText (c : Command) : ErrorOnly c.wrongTypeText := by
  cases c with
  | get | LPUSH | RPUSH | LPUSHX | RPUSHX => exact ⟨[noSuchKey], by simp [errorTexts], rfl⟩
  | LLEN => exact ⟨[unknownCommand], by simp [errorTexts], rfl⟩
  | SADD | SCARD | SMEMBERS | SPOP => exact ⟨[errorType, errorType], by simp [errorTexts], rfl⟩
  | HGET | HSET => exact ⟨[errorType], by simp [errorTexts], rfl⟩
  | _ => exact ⟨[], by simp, rfl⟩

/-- The texts for sets and hashes lack their CRLF. -/
theorem wrongTypeText_line_iff {t : YType} (ht : c.worksOn = some t) (hc : c ≠ .ZADD) :
    c.wrongTypeText = [] ∨ IsReply c.wrongTypeText ∧ c.wrongTypeText.head? = some 45 ↔
      t = .string ∨ t = .list := by
  cases c with
  | COMMAND | set | setnx => cases ht
  | ZADD => exact absurd rfl hc
  | get | LPUSH | RPUSH | LPUSHX | RPUSHX =>
      cases ht
      exact iff_of_true (Or.inr ⟨isReply_noSuchKey, rfl⟩) (by simp)
  | LLEN =>
      cases ht
      exact iff_of_true (Or.inr ⟨isReply_unknownCommand, rfl⟩) (by simp)
  | LPOP | RPOP | LRANGE =>
      cases ht
      exact iff_of_true (Or.inl rfl) (by simp)
  | SADD | SCARD | SMEMBERS | SPOP =>
      cases ht
      refine iff_of_false ?_ (by simp)
      rintro (hnil | ⟨hreply, -⟩)
      · exact absurd hnil (by decide)
      · exact not_isReply_errorType errorType hreply
  | HGET | HSET =>
      cases ht
      refine iff_of_false ?_ (by simp)
      rintro (hnil | ⟨hreply, -⟩)
      · exact absurd hnil (by decide)
      · exact not_isReply_errorType [] hreply

/-- On a key of another type every command but `ZADD` answers `YError_type` with error texts or
nothing and keeps the store. Those of strings and lists write at most one complete line. -/
theorem wrongType_refused_iff (env : Env) (h : WrongType w.store params c) :
    (Refuses (c.handler env params) w ↔ c ≠ .ZADD) ∧
      (RefusesInOneLine (c.handler env params) w ↔
        c.worksOn = some .string ∨ c.worksOn = some .list) := by
  by_cases hc : c = .ZADD
  · subst hc
    refine ⟨iff_of_false ?_ (by simp), iff_of_false ?_ (by simp [Command.worksOn])⟩
    · rintro ⟨text, hrun, -⟩
      rw [zadd_wrongType env h] at hrun
      cases hrun
    · rintro ⟨text, hrun, -⟩
      rw [zadd_wrongType env h] at hrun
      cases hrun
  · have hrun := handler_wrongType env h hc
    obtain ⟨key, obj, t, -, -, ht, -⟩ := h.other
    refine ⟨iff_of_true ⟨_, hrun, errorOnly_wrongTypeText c⟩ hc, ?_⟩
    rw [ht, Option.some_inj, Option.some_inj, ← wrongTypeText_line_iff ht hc]
    constructor
    · rintro ⟨text, hrun', htext⟩
      rw [hrun] at hrun'
      simp only [EStateM.Result.ok.injEq, World.mk.injEq, List.append_cancel_left_eq,
        true_and] at hrun'
      rwa [hrun']
    · exact fun htext => ⟨_, hrun, htext⟩

end WrongType

/-- The store behind `set k v`. -/
def stringStore : YStore := YStore.start.setValue (ascii "k") (.createString (ascii "v"))

theorem getObject_stringStore :
    stringStore.getObject (ascii "k") = some (.createString (ascii "v")) := by
  rw [stringStore, YStore.getObject_setValue YStore.selected_start, if_pos rfl]

theorem wrongType_stringStore {params : List Bytes} {c : Command} {t : YType}
    (harity : c.arity ≤ params.length) (heven : c = .ZADD → params.length % 2 = 0)
    (hkey : params[1]? = some (ascii "k")) (hc : c.worksOn = some t) (ht : t ≠ .string) :
    WrongType stringStore params c := by
  refine ⟨harity, heven, ascii "k", _, t, hkey, getObject_stringStore, hc, ?_⟩
  rw [YObject.type_createString]
  exact ht.symm

/-- After `set k v` the command `ZADD k 1 m` uses a null pointer. -/
theorem wrongType_refused_fails :
    execCommand default [ascii "set", ascii "k", ascii "v"] ⟨.start, []⟩ =
        .ok true ⟨stringStore, ascii "+OK\r\n"⟩ ∧
      WrongType stringStore [ascii "ZADD", ascii "k", ascii "1", ascii "m"] .ZADD ∧
      ¬ Refuses (Command.ZADD.handler default [ascii "ZADD", ascii "k", ascii "1", ascii "m"])
        ⟨stringStore, []⟩ := by
  have hwrong : WrongType stringStore [ascii "ZADD", ascii "k", ascii "1", ascii "m"] .ZADD :=
    wrongType_stringStore (by decide) (fun _ => rfl) rfl rfl (by decide)
  refine ⟨execCommand_ok (c := .set) rfl (YString.setCmd_run rfl rfl), hwrong, ?_⟩
  rintro ⟨text, hrun, -⟩
  rw [zadd_wrongType default hwrong] at hrun
  cases hrun

/-- After `set k v` the command `LPUSH k v` is refused in one line. -/
theorem wrongType_refused_lpush :
    Refuses (Command.LPUSH.handler default [ascii "LPUSH", ascii "k", ascii "v"])
        ⟨stringStore, []⟩ ∧
      RefusesInOneLine (Command.LPUSH.handler default [ascii "LPUSH", ascii "k", ascii "v"])
        ⟨stringStore, []⟩ := by
  have hwrong : WrongType stringStore [ascii "LPUSH", ascii "k", ascii "v"] .LPUSH :=
    wrongType_stringStore (by decide) (by simp) rfl rfl (by decide)
  obtain ⟨hrefuses, hline⟩ := wrongType_refused_iff (w := ⟨stringStore, []⟩) default hwrong
  exact ⟨hrefuses.mpr (by decide), hline.mpr (Or.inr rfl)⟩

end Yedis
