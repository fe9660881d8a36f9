import Yedis.Pairing
import Yedis.PrefixCode
import Yedis.Reply

/-!
# Replies can be told apart

The first line of a complete reply says how the reply goes on, so complete replies
are a prefix-free code. Where every command that is executed is proper, whoever cuts
the payloads of a connection, one behind the other, into complete replies, also while
some are still to come, gets the replies to its commands and no others.
-/

namespace Yedis
open Fifo PrefixCode Runs

/-- What may stand behind the first line of a reply. -/
inductive Continues : Bytes → Bytes → Prop
  | done {line : Bytes} (hbulk : line.head? ≠ some 36) (harray : line.head? ≠ some 42) :
      Continues line []
  | null : Continues [36, 45, 49] []
  | bulk (v : Bytes) : Continues (36 :: decimal v.length) (v ++ crlf)
  | array (vs : List Bytes) : Continues (42 :: decimal vs.length) (vs.flatMap formatBulk)

/-- The texts that end with their first CR and the LF behind it. -/
def lineCode : Set Bytes := {w | ∃ t : Bytes, 13 ∉ t ∧ w = t ++ 13 :: [10]}

theorem prefixFree_lineCode : PrefixFree lineCode := prefixFree_terminated 13 [10]

theorem not_cr_of_digits {ds : Bytes} (h : ∀ c ∈ ds, isDigit c = true) : 13 ∉ ds :=
  fun hmem => absurd (h 13 hmem) (by decide)

theorem not_cr_length (c : UInt8) (hc : c ≠ 13) (n : ℕ) : 13 ∉ c :: decimal n := by
  rw [List.mem_cons, not_or]
  exact ⟨hc.symm, not_cr_of_digits (decimal_digits n)⟩

theorem not_cr_signedDecimal (n : ℤ) : 13 ∉ signedDecimal n := by
  rw [signedDecimal]
  split_ifs
  · exact not_cr_length 45 (by decide) _
  · exact not_cr_of_digits (decimal_digits _)

theorem decimal_ne_minus (n : ℕ) (t : Bytes) : decimal n ≠ 45 :: t := by
  intro h
  have hdigit := decimal_digits n 45 (h ▸ List.mem_cons_self)
  exact absurd hdigit (by decide)

theorem prefixFree_formatBulk : PrefixFree {w | ∃ v, w = formatBulk v} := by
  refine (prefixFree_lineCode.seq (D := fun u => {b | ∃ v : Bytes,
    u = 36 :: decimal v.length ++ crlf ∧ b = v ++ crlf}) ?_).mono ?_
  · rintro u - _ ⟨v, hv, rfl⟩ _ ⟨v', hv', rfl⟩ hpre
    have htext : 36 :: decimal v.length = 36 :: decimal v'.length :=
      List.append_cancel_right (hv.symm.trans hv')
    have hlen := decimal_injective (List.cons.inj htext).2
    apply hpre.eq_of_length
    rw [List.length_append, List.length_append, hlen]
  · rintro _ ⟨v, rfl⟩
    refine ⟨_, ⟨_, not_cr_length 36 (by decide) v.length, rfl⟩, _, ⟨v, rfl, rfl⟩, ?_⟩
    simp [formatBulk, ascii, crlf]

theorem Continues.prefix_eq {line b b' : Bytes} (h : Continues line b) (h' : Continues line b')
    (hpre : b <+: b') : b = b' := by
  cases h with
  | done hbulk harray =>
      cases h' with
      | done _ _ => rfl
      | null => exact absurd rfl hbulk
      | bulk v => exact absurd rfl hbulk
      | array vs => exact absurd rfl harray
  | null =>
      generalize hline : ([36, 45, 49] : Bytes) = line at h'
      cases h' with
      | done _ _ => rfl
      | null => rfl
      | bulk v => exact absurd (List.cons.inj hline).2.symm (decimal_ne_minus _ _)
      | array vs => cases hline
  | bulk v =>
      generalize hline : 36 :: decimal v.length = line at h'
      cases h' with
      | done hbulk _ => exact absurd (by rw [← hline]; rfl) hbulk
      | null => exact absurd (List.cons.inj hline).2 (decimal_ne_minus _ _)
      | bulk v' =>
          have hlen := decimal_injective (List.cons.inj hline).2
          apply hpre.eq_of_length
          rw [List.length_append, List.length_append, hlen]
      | array vs => cases hline
  | array vs =>
      generalize hline : 42 :: decimal vs.length = line at h'
      cases h' with
      | done _ harray => exact absurd (by rw [← hline]; rfl) harray
      | null => cases hline
      | bulk v => cases hline
      | array vs' =>
          have hlen := decimal_injective (List.cons.inj hline).2
          rw [List.flatMap_def, List.flatMap_def] at hpre ⊢
          congr 1
          apply prefixFree_formatBulk.flatten_of_length _ _ _ hpre
          · simp only [List.mem_map]
            rintro _ ⟨v, -, rfl⟩
            exact ⟨v, rfl⟩
          · simp only [List.mem_map]
            rintro _ ⟨v, -, rfl⟩
            exact ⟨v, rfl⟩
          · rw [List.length_map, List.length_map, hlen]

theorem IsReply.line {r : Bytes} (h : IsReply r) :
    ∃ t b, 13 ∉ t ∧ Continues t b ∧ r = t ++ crlf ++ b := by
  cases h with
  | simple text h =>
      refine ⟨43 :: text, [], ?_, .done (by simp) (by simp), (List.append_nil _).symm⟩
      rw [List.mem_cons, not_or]
      exact ⟨by decide, fun hmem => (h 13 hmem).1 rfl⟩
  | error text h =>
      refine ⟨45 :: text, [], ?_, .done (by simp) (by simp), (List.append_nil _).symm⟩
      rw [List.mem_cons, not_or]
      exact ⟨by decide, fun hmem => (h 13 hmem).1 rfl⟩
  | integer n =>
      refine ⟨58 :: signedDecimal n, [], ?_, .done (by simp) (by simp), (List.append_nil _).symm⟩
      rw [List.mem_cons, not_or]
      exact ⟨by decide, not_cr_signedDecimal n⟩
  | bulk v =>
      refine ⟨_, _, not_cr_length 36 (by decide) v.length, .bulk v, ?_⟩
      rw [List.append_assoc]
  | null => exact ⟨_, _, by decide, .null, rfl⟩
  | array vs =>
      refine ⟨_, _, not_cr_length 42 (by decide) vs.length, .array vs, ?_⟩
      congr 1

/-- No complete reply is the beginning of another one. -/
theorem prefixFree_replies : PrefixFree {r | IsReply r} := by
  refine (prefixFree_lineCode.seq
    (D := fun u => {b | ∃ t, u = t ++ crlf ∧ Continues t b}) ?_).mono ?_
  · rintro u - b ⟨t, rfl, hb⟩ b' ⟨t', ht', hb'⟩ hpre
    rw [← List.append_cancel_right ht'] at hb'
    exact hb.prefix_eq hb' hpre
  · intro r hr
    obtain ⟨t, b, ht, hb, rfl⟩ := IsReply.line hr
    exact ⟨_, ⟨t, ht, rfl⟩, b, ⟨t, rfl, hb⟩, rfl⟩

/-- The command has the parameters it reads and meets an object on which it answers once. -/
def Proper (s : YStore) (params : List Bytes) : Prop :=
  Supplied params ∧ ∀ c, getCommand (params.getD 0 []) = some c → ProperCall s params c

theorem Proper.repliesOnce {s : YStore} {params : List Bytes} (h : Proper s params) (env : Env) :
    RepliesOnce env s params := by
  obtain ⟨⟨cmd, hcmd, harity⟩, hcall⟩ := h
  cases hget : getCommand cmd with
  | none => exact ⟨false, _, execCommand_unknown hcmd hget, isReply_unknownCommand⟩
  | some c =>
      have hname : params[0]? = some c.name := by rw [hcmd, name_of_getCommand hget]
      rw [repliesOnce_iff hcmd hget, handler_answers_iff env s hname (harity c hget)]
      apply hcall c
      rw [List.getD_eq_getElem?_getD, hcmd]
      exact hget

theorem CallStep.isReply {s s' : YStore} {call : Call} (h : CallStep s call s')
    (hproper : Proper s call.params) : IsReply call.reply := by
  obtain ⟨env, b, hexec⟩ := h
  obtain ⟨b', w', hexec', hreply⟩ := hproper.repliesOnce env
  rw [hexec] at hexec'
  simp only [EStateM.Result.ok.injEq] at hexec'
  rw [← hexec'.2] at hreply
  exact hreply

section Streams
variable {Conn Loop : Type} [DecidableEq Conn] [DecidableEq Loop] {loopOf : Conn → Loop}
  {s : Server Conn Loop} {s₀ : YStore}
  {trace : List (Transition (Server Conn Loop) (Event Conn Loop))}

/-- Where the step executes a command, the command is proper. -/
def ExecutesProper (t : Transition (Server Conn Loop) (Event Conn Loop)) : Prop :=
  ∀ item srcbuf, t.label = .execCommand item srcbuf → Proper t.src.store item.vecCmd

theorem Server.Step.replied_isReply {s s' : Server Conn Loop} {e : Event Conn Loop}
    (h : s.Step loopOf e s') (hproper : ExecutesProper ⟨s, e, s'⟩) :
    ∀ p ∈ e.replied, IsReply p.2 := by
  cases h with
  | execCommand temp srcbuf store htemp hexec =>
      intro p hp
      rw [List.mem_singleton.mp hp]
      exact hexec.isReply (hproper temp srcbuf rfl)
  | _ => exact fun p hp => absurd hp List.not_mem_nil

theorem replies_of_run (run : Run (Server.Step loopOf) (.start s₀) trace s)
    (hproper : ∀ t ∈ trace, ExecutesProper t) (c : Conn) :
    ∀ r ∈ ofKey c (moved Event.replied (labels trace)), IsReply r := by
  have hall := run.each_step (I := fun _ => True)
    (Q := fun s e s' => ExecutesProper ⟨s, e, s'⟩ → ∀ p ∈ e.replied, IsReply p.2)
    trivial (fun _ _ _ _ _ => trivial) fun _ _ _ _ h => h.replied_isReply
  intro r hr
  obtain ⟨p, hp, hkey⟩ := List.mem_filterMap.mp hr
  rw [Option.ite_none_right_eq_some, Option.some.injEq] at hkey
  obtain ⟨e, he, hpe⟩ := List.mem_flatMap.mp hp
  obtain ⟨t, ht, rfl⟩ := List.mem_map.mp (List.mem_reverse.mp he)
  rw [← hkey.2]
  exact hall t ht (hproper t ht) p hpe

/-- How many commands were enqueued for a connection. -/
def enqueued (c : Conn) (trace : List (Transition (Server Conn Loop) (Event Conn Loop))) : ℕ :=
  ((moved Event.pushed (labels trace)).filter fun item => item.conn = c).length

omit [DecidableEq Loop] in
theorem length_replied (c : Conn) (events : List (Event Conn Loop)) :
    (ofKey c (moved Event.replied events)).length =
      ((moved (fun e => e.executed.map Prod.fst) events).filter fun item => item.conn = c).length := by
  induction events with
  | nil => rfl
  | cons e events ih =>
      rw [moved_cons, moved_cons, ofKey_append, List.filter_append, List.length_append,
        List.length_append, ih]
      cases e with
      | execCommand item srcbuf =>
          by_cases hc : item.conn = c <;> simp [Event.replied, Event.executed, ofKey, hc]
      | _ => rfl

/-- Where every command that is executed is proper: complete replies that begin the payloads for
which `sendInLoop` has run on a connection are its first replies, and complete replies that are all
of them, with nothing left in the queues, are the replies to its commands, one for each command
enqueued. -/
theorem replies_told_apart (run : Run (Server.Step loopOf) (.start s₀) trace s)
    (hproper : ∀ t ∈ trace, ExecutesProper t) {c : Conn} (hc : s.m_State c = .kConnected)
    {pieces : List Bytes} (hpieces : ∀ r ∈ pieces, IsReply r) :
    (pieces.flatten <+: (ofKey c (moved Event.sent (labels trace))).flatten →
      pieces <+: ofKey c (moved Event.replied (labels trace))) ∧
    (s.Drained → pieces.flatten = (ofKey c (moved Event.sent (labels trace))).flatten →
      pieces = ofKey c (moved Event.replied (labels trace)) ∧
        pieces.length = enqueued c trace) := by
  have ha := accounts_of_run run
  have hlane := ha.lanes c (by simp [hc])
  have hreplies := replies_of_run run hproper c
  have hsent : ∀ r ∈ ofKey c (moved Event.sent (labels trace)), IsReply r :=
    fun r hr => hreplies r (hlane.outs_prefix.subset hr)
  constructor
  · intro hcut
    exact (prefixFree_replies.flatten_prefix not_isReply_nil hpieces hsent hcut).trans
      hlane.outs_prefix
  · intro hd hcut
    obtain ⟨hunexecuted, hempty⟩ := hd.empty ha.coherent
    have hdeque := ha.deque
    rw [hempty c] at hlane
    rw [hunexecuted] at hdeque
    have heq := prefixFree_replies.flatten_inj not_isReply_nil hpieces hsent hcut
    rw [hlane.outs_eq] at heq
    refine ⟨heq, ?_⟩
    rw [heq, length_replied, hdeque.outs_eq, enqueued]

end Streams

/-- `sendInLoop` runs for the reply to `COMMAND`. -/
theorem replies_told_apart_command :
    ∃ (trace : List (Transition (Server Unit Unit) (Event Unit Unit))) (s : Server Unit Unit),
      Run (Server.Step fun _ => ()) (.start .start) trace s ∧ s.Drained ∧
      ofKey () (moved Event.replied (labels trace)) = [ascii "+OK\r\n"] ∧ enqueued () trace = 1 := by
  have hexec : CallStep .start ⟨[ascii "COMMAND"], ascii "+OK\r\n"⟩ .start :=
    ⟨default, true, execCommand_ok (c := .COMMAND) rfl (command_run rfl)⟩
  have hcommand : Proper .start [ascii "COMMAND"] := by
    refine ⟨supplied_of_name (c := .COMMAND) rfl (by decide), fun c hc => ?_⟩
    obtain rfl : .COMMAND = c := by simpa using (getCommand_name .COMMAND).symm.trans hc
    trivial
  have r1 : Run (Server.Step fun _ : Unit => ()) (.start .start) _ _ :=
    .next .start (.connectEstablished () rfl)
  have r2 := r1.next (.producerTask ⟨(), [ascii "COMMAND"]⟩ rfl (Or.inl rfl))
  have r3 := r2.next (.push_back _ rfl rfl (by decide))
  have r4 := r3.next (.front ⟨(), [ascii "COMMAND"]⟩ [] rfl rfl)
  have r5 := r4.next (.execCommand _ _ _ rfl hexec)
  have r6 := r5.next (.send () _ rfl rfl)
  have r7 := r6.next (.queueInLoop () _ rfl nofun)
  have r8 := r7.next (.pop_front rfl)
  have r9 := r8.next (.doPendingFunctors () rfl)
  have r10 := r9.next (.runFunctor () () (ascii "+OK\r\n") [] rfl)
  have hpieces : ∀ piece ∈ [ascii "+OK\r\n"], IsReply piece :=
    List.forall_mem_singleton.mpr isReply_ok
  have happly := replies_told_apart r10 ?_ (c := ()) rfl hpieces
  · obtain ⟨hall, hcount⟩ := happly.2 ⟨rfl, fun _ => ⟨rfl, rfl⟩⟩ rfl
    exact ⟨_, _, r10, ⟨rfl, fun _ => ⟨rfl, rfl⟩⟩, hall.symm, hcount.symm⟩
  · intro t ht item srcbuf hlabel
    simp only [List.mem_cons, List.not_mem_nil, or_false] at ht
    rcases ht with rfl | rfl | rfl | rfl | rfl | rfl | rfl | rfl | rfl | rfl <;> cases hlabel
    exact hcommand

end Yedis
