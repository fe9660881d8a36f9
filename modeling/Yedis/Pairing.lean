import Yedis.Server

/-!
# Replies reach their connections in order

The deque is a queue from `producerTask` to the consumer, and for each connection the
consumer, the pending functors of its loop and the functors being run are one queue of
replies. Commands are therefore executed one after the other in the order in which
they were enqueued, and as long as a connection is connected `sendInLoop` runs for
its replies in that order, once for each.
-/

namespace Yedis
open Fifo Runs

variable {Conn Loop : Type}

/-- The items whose command has not been executed. -/
def Server.unexecuted (s : Server Conn Loop) : List (connAndCmd Conn) :=
  match s.consumer with
  | .waiting => s.m_deque
  | .taken _ => s.m_deque
  | _ => s.m_deque.tail

/-- The reply that the consumer holds. -/
def Consumer.replies : Consumer Conn → List (Conn × Bytes)
  | executed conn srcbuf => [(conn, srcbuf)]
  | sending conn srcbuf => [(conn, srcbuf)]
  | _ => []

namespace Event

def pushed : Event Conn Loop → List (connAndCmd Conn)
  | push_back item => [item]
  | _ => []

def executed : Event Conn Loop → List (connAndCmd Conn × Bytes)
  | execCommand item srcbuf => [(item, srcbuf)]
  | _ => []

/-- The replies made, with their connections. -/
def replied (e : Event Conn Loop) : List (Conn × Bytes) :=
  e.executed.map fun x => (x.1.conn, x.2)

/-- The payloads that `sendInLoop` hands to `Write`. -/
def sent : Event Conn Loop → List (Conn × Bytes)
  | sendInLoop conn payload => [(conn, payload)]
  | _ => []

def calls (e : Event Conn Loop) : List Call := e.executed.map fun x => ⟨x.1.vecCmd, x.2⟩

end Event

/-- What the consumer holds is the front of the deque, items come from opened connections, and
functors are in the loops of their connections. -/
structure Coherent (loopOf : Conn → Loop) (s : Server Conn Loop) : Prop where
  front : match s.consumer with
    | .waiting => True
    | .taken temp => ∃ rest, s.m_deque = temp :: rest
    | .executed conn _ => ∃ vecCmd rest, s.m_deque = ⟨conn, vecCmd⟩ :: rest
    | .sending conn _ => ∃ vecCmd rest, s.m_deque = ⟨conn, vecCmd⟩ :: rest
    | .sent => s.m_deque ≠ []
  opened : ∀ item, item ∈ s.m_deque ∨ s.item = some item → Opened (s.m_State item.conn)
  routed : ∀ l, ∀ p ∈ s.functors l ++ s.pending l, loopOf p.1 = l

variable [DecidableEq Conn] [DecidableEq Loop] {loopOf : Conn → Loop} {s s' : Server Conn Loop}
  {e : Event Conn Loop}

/-- The replies to a connection for which `sendInLoop` has not run yet. -/
def lane (loopOf : Conn → Loop) (s : Server Conn Loop) (c : Conn) : List Bytes :=
  ofKey c (s.functors (loopOf c) ++ s.pending (loopOf c) ++ s.consumer.replies)

theorem opened_update {m_State : Conn → State} {c conn : Conn} {state : State}
    (h : Opened (m_State c)) (hstate : Opened state) :
    Opened (Function.update m_State conn state c) := by
  rw [Function.update_apply]
  split_ifs
  · exact hstate
  · exact h

theorem Server.Step.coherent (h : s.Step loopOf e s') (hw : Coherent loopOf s) :
    Coherent loopOf s' := by
  obtain ⟨hfront, hopened, hrouted⟩ := hw
  cases h with
  | connectEstablished conn h =>
      exact ⟨hfront, fun item hitem => opened_update (hopened item hitem) (Or.inl rfl), hrouted⟩
  | handleClose conn h =>
      exact ⟨hfront, fun item hitem => opened_update (hopened item hitem) (Or.inr rfl), hrouted⟩
  | producerTask item hlock hopen =>
      refine ⟨hfront, ?_, hrouted⟩
      rintro item' (hitem | hitem)
      · exact hopened item' (Or.inl hitem)
      · cases hitem
        exact hopen
  | push_back item hitem hlock hfull =>
      refine ⟨by simp [hlock], ?_, hrouted⟩
      rintro item' (hmem | hnone)
      · rcases List.mem_append.mp hmem with hmem | hmem
        · exact hopened item' (Or.inl hmem)
        · rw [List.mem_singleton.mp hmem]
          exact hopened item (Or.inr hitem)
      · cases hnone
  | front temp rest hlock hdeque => exact ⟨⟨rest, hdeque⟩, hopened, hrouted⟩
  | execCommand temp srcbuf store htemp hexec =>
      rw [htemp] at hfront
      obtain ⟨rest, hdeque⟩ := hfront
      exact ⟨⟨temp.vecCmd, rest, hdeque⟩, hopened, hrouted⟩
  | send conn srcbuf hexec hstate =>
      rw [hexec] at hfront
      exact ⟨hfront, hopened, hrouted⟩
  | sendClosed conn srcbuf hexec hstate =>
      rw [hexec] at hfront
      obtain ⟨vecCmd, rest, hdeque⟩ := hfront
      exact ⟨by simp [hdeque], hopened, hrouted⟩
  | queueInLoop conn srcbuf hsend hthread =>
      rw [hsend] at hfront
      obtain ⟨vecCmd, rest, hdeque⟩ := hfront
      refine ⟨by simp [hdeque], hopened, ?_⟩
      intro l p hp
      simp only [Function.update_apply] at hp
      split_ifs at hp with hl
      · rw [← List.append_assoc, ← hl, List.mem_append, List.mem_singleton] at hp
        rcases hp with hp | rfl
        · exact hl ▸ hrouted l p (hl ▸ hp)
        · exact hl.symm
      · exact hrouted l p hp
  | sendInLoop conn srcbuf hsend hthread => cases hthread
  | pop_front hsent =>
      refine ⟨trivial, ?_, hrouted⟩
      rintro item (hitem | hitem)
      · exact hopened item (Or.inl (List.mem_of_mem_tail hitem))
      · exact hopened item (Or.inr hitem)
  | doPendingFunctors l hdone =>
      refine ⟨hfront, hopened, ?_⟩
      intro l' p hp
      simp only [Function.update_apply] at hp
      split_ifs at hp with hl
      · rw [List.append_nil] at hp
        rw [hl]
        exact hrouted l p (List.mem_append_right _ hp)
      · exact hrouted l' p hp
  | runFunctor l conn payload rest hfunctors =>
      refine ⟨hfront, hopened, ?_⟩
      intro l' p hp
      simp only [Function.update_apply] at hp
      split_ifs at hp with hl
      · rw [hl] at hp ⊢
        apply hrouted l p
        rw [hfunctors, List.cons_append]
        exact List.mem_cons_of_mem _ hp
      · exact hrouted l' p hp

/-- The deque is a queue of items from `push_back` to `execCommand`. -/
theorem Server.Step.deque (h : s.Step loopOf e s') (hw : Coherent loopOf s) :
    Move s.unexecuted e.pushed (e.executed.map Prod.fst) s'.unexecuted := by
  have hfront := hw.front
  cases h with
  | push_back item hitem hlock hfull =>
      simp only [unexecuted, hlock]
      exact .put _ _
  | front temp rest hlock hdeque =>
      simp only [unexecuted, hlock]
      exact .idle _
  | execCommand temp srcbuf store htemp hexec =>
      rw [htemp] at hfront
      obtain ⟨rest, hdeque⟩ := hfront
      simp only [unexecuted, htemp, hdeque]
      exact .take [temp] rest
  | send conn srcbuf hexec hstate =>
      simp only [unexecuted, hexec]
      exact .idle _
  | sendClosed conn srcbuf hexec hstate =>
      simp only [unexecuted, hexec]
      exact .idle _
  | queueInLoop conn srcbuf hsend hthread =>
      simp only [unexecuted, hsend]
      exact .idle _
  | sendInLoop conn srcbuf hsend hthread => cases hthread
  | pop_front hsent =>
      simp only [unexecuted, hsent]
      exact .idle _
  | _ => exact .idle _

theorem lane_update_pending (conn c : Conn) (srcbuf : Bytes)
    (functors pending : Loop → List (Conn × Bytes)) :
    ofKey c (functors (loopOf c) ++ Function.update pending (loopOf conn)
        (pending (loopOf conn) ++ [(conn, srcbuf)]) (loopOf c) ++ []) =
      ofKey c (functors (loopOf c) ++ pending (loopOf c) ++ [(conn, srcbuf)]) := by
  rw [Function.update_apply, List.append_nil]
  split_ifs with hl
  · rw [hl, List.append_assoc]
  · have hne : conn ≠ c := by
      rintro rfl
      exact hl rfl
    simp [ofKey_cons_of_ne hne]

/-- For a connection that is not closed, the consumer and its loop are a queue of replies. -/
theorem Server.Step.lane (h : s.Step loopOf e s') (hw : Coherent loopOf s) {c : Conn}
    (hc : s.m_State c ≠ .kDisconnected) :
    Move (lane loopOf s c) (ofKey c e.replied) (ofKey c e.sent) (lane loopOf s' c) := by
  have hfront := hw.front
  cases h with
  | push_back item hitem hlock hfull => exact .idle _
  | front temp rest hlock hdeque =>
      simp only [Yedis.lane, hlock]
      exact .idle _
  | execCommand temp srcbuf store htemp hexec =>
      simp only [Yedis.lane, htemp, Consumer.replies, List.append_nil]
      rw [ofKey_append _ _ [(temp.conn, srcbuf)]]
      exact .put _ _
  | send conn srcbuf hexec hstate =>
      simp only [Yedis.lane, hexec]
      exact .idle _
  | sendClosed conn srcbuf hexec hstate =>
      rw [hexec] at hfront
      obtain ⟨vecCmd, rest, hdeque⟩ := hfront
      have hopened := hw.opened ⟨conn, vecCmd⟩ (Or.inl (by simp [hdeque]))
      have hne : conn ≠ c := by
        rintro rfl
        exact hopened.elim hstate hc
      simp only [Yedis.lane, hexec, Consumer.replies, ofKey_append, ofKey_cons_of_ne hne]
      exact .idle _
  | queueInLoop conn srcbuf hsend hthread =>
      simp only [Yedis.lane, hsend, Consumer.replies, lane_update_pending]
      exact .idle _
  | sendInLoop conn srcbuf hsend hthread => cases hthread
  | pop_front hsent =>
      simp only [Yedis.lane, hsent]
      exact .idle _
  | doPendingFunctors l hdone =>
      simp only [Yedis.lane, Function.update_apply]
      split_ifs with hl
      · rw [hl, hdone, List.append_nil, List.nil_append]
        exact .idle _
      · exact .idle _
  | runFunctor l conn payload rest hfunctors =>
      have hroute : loopOf conn = l := hw.routed l (conn, payload) (by simp [hfunctors])
      simp only [Yedis.lane, Function.update_apply]
      split_ifs with hl
      · rw [hl, hfunctors]
        change Move (ofKey c ([(conn, payload)] ++ rest ++ _ ++ _)) [] (ofKey c [(conn, payload)]) _
        rw [List.append_assoc, List.append_assoc, ofKey_append, ← List.append_assoc]
        exact .take _ _
      · have hne : conn ≠ c := by
          rintro rfl
          exact hl hroute
        change Move _ [] (ofKey c [(conn, payload)]) _
        rw [ofKey_cons_of_ne hne]
        exact .idle _
  | _ => exact .idle _

theorem Server.Step.not_disconnected (h : s.Step loopOf e s') {c : Conn}
    (hc : s'.m_State c ≠ .kDisconnected) : s.m_State c ≠ .kDisconnected := by
  intro hd
  apply hc
  cases h with
  | connectEstablished conn h =>
      have hne : c ≠ conn := by
        rintro rfl
        rw [h] at hd
        cases hd
      simp only [Function.update_of_ne hne, hd]
  | handleClose conn h =>
      simp only [Function.update_apply]
      split_ifs
      · rfl
      · exact hd
  | _ => exact hd

/-- The execution of commands one after the other. -/
theorem Server.Step.calls (h : s.Step loopOf e s') {s₀ : YStore} {trace : List (Transition YStore Call)}
    (run : Run CallStep s₀ trace s.store) : ∃ trace', Run CallStep s₀ trace' s'.store ∧
      labels trace' = e.calls.reverse ++ labels trace := by
  cases h with
  | execCommand temp srcbuf store htemp hexec => exact ⟨_, .next run hexec, rfl⟩
  | _ => exact ⟨trace, run, rfl⟩

/-- What holds of a server after the steps `events`, the newest first. -/
structure Accounts (loopOf : Conn → Loop) (s₀ : YStore) (events : List (Event Conn Loop))
    (s : Server Conn Loop) : Prop where
  coherent : Coherent loopOf s
  serial : ∃ trace, Run CallStep s₀ trace s.store ∧
    (labels trace).reverse = moved Event.calls events
  deque : Move [] (moved Event.pushed events)
    (moved (fun e => e.executed.map Prod.fst) events) s.unexecuted
  lanes : ∀ c, s.m_State c ≠ .kDisconnected →
    Move [] (ofKey c (moved Event.replied events)) (ofKey c (moved Event.sent events))
      (lane loopOf s c)

theorem Accounts.next {s₀ : YStore} {events : List (Event Conn Loop)}
    (ha : Accounts loopOf s₀ events s) (h : s.Step loopOf e s') :
    Accounts loopOf s₀ (e :: events) s' where
  coherent := h.coherent ha.coherent
  serial := by
    obtain ⟨trace, run, hlabels⟩ := ha.serial
    obtain ⟨trace', run', hlabels'⟩ := h.calls run
    refine ⟨trace', run', ?_⟩
    rw [hlabels', moved_cons, ← hlabels, List.reverse_append, List.reverse_reverse]
  deque := by
    rw [moved_cons, moved_cons]
    exact ha.deque.trans (h.deque ha.coherent)
  lanes := by
    intro c hc
    have hc' := h.not_disconnected hc
    rw [moved_cons, moved_cons, ofKey_append, ofKey_append]
    exact (ha.lanes c hc').trans (h.lane ha.coherent hc')

theorem accounts_of_run {s₀ : YStore}
    {trace : List (Transition (Server Conn Loop) (Event Conn Loop))}
    (run : Run (Server.Step loopOf) (.start s₀) trace s) :
    Accounts loopOf s₀ (labels trace) s := by
  refine run.invariant_labels (P := Accounts loopOf s₀) ?_ fun _ _ _ _ ha h => ha.next h
  exact {
    coherent := ⟨trivial, by simp [Server.start], by simp [Server.start]⟩
    serial := ⟨[], .start, rfl⟩
    deque := .idle _
    lanes := fun _ _ => .idle _ }

/-- Nothing is left in any queue. -/
def Server.Drained (s : Server Conn Loop) : Prop :=
  s.m_deque = [] ∧ ∀ l, s.functors l = [] ∧ s.pending l = []

omit [DecidableEq Loop] in
theorem Server.Drained.empty (hd : s.Drained) (hw : Coherent loopOf s) :
    s.unexecuted = [] ∧ ∀ c, lane loopOf s c = [] := by
  obtain ⟨hdeque, hloops⟩ := hd
  have hfront := hw.front
  cases hcons : s.consumer with
  | waiting =>
      refine ⟨by rw [unexecuted, hcons]; exact hdeque, fun c => ?_⟩
      rw [lane, hcons, (hloops _).1, (hloops _).2]
      rfl
  | taken temp => simp [hcons, hdeque] at hfront
  | executed conn srcbuf => simp [hcons, hdeque] at hfront
  | sending conn srcbuf => simp [hcons, hdeque] at hfront
  | sent => simp [hcons, hdeque] at hfront

/-- In every run the commands are executed one after the other in the order in which they were
enqueued, and the payloads for which `sendInLoop` runs on a connection that is connected are a
prefix of the replies to its commands; when the queues are drained, all commands are executed and it
has run for all replies. -/
theorem request_reply_pairing {s₀ : YStore}
    {trace : List (Transition (Server Conn Loop) (Event Conn Loop))}
    (run : Run (Server.Step loopOf) (.start s₀) trace s) :
    (∃ calls, Run CallStep s₀ calls s.store ∧
      (labels calls).reverse = moved Event.calls (labels trace)) ∧
    moved (fun e => e.executed.map Prod.fst) (labels trace) <+: moved Event.pushed (labels trace) ∧
    ∀ c, s.m_State c = .kConnected →
      ofKey c (moved Event.sent (labels trace)) <+: ofKey c (moved Event.replied (labels trace)) ∧
      (s.Drained →
        moved (fun e => e.executed.map Prod.fst) (labels trace) =
          moved Event.pushed (labels trace) ∧
        ofKey c (moved Event.sent (labels trace)) =
          ofKey c (moved Event.replied (labels trace))) := by
  have ha := accounts_of_run run
  refine ⟨ha.serial, ha.deque.outs_prefix, fun c hc => ?_⟩
  have hlane := ha.lanes c (by simp [hc])
  refine ⟨hlane.outs_prefix, fun hd => ?_⟩
  obtain ⟨hunexecuted, hempty⟩ := hd.empty ha.coherent
  have hdeque := ha.deque
  rw [hunexecuted] at hdeque
  rw [hempty c] at hlane
  exact ⟨hdeque.outs_eq, hlane.outs_eq⟩

/-- One connection sends `COMMAND`, and `sendInLoop` runs for the reply. -/
theorem request_reply_pairing_command : ∃ (trace : List (Transition (Server Unit Unit) (Event Unit Unit)))
    (s : Server Unit Unit), Run (Server.Step fun _ => ()) (.start .start) trace s ∧ s.Drained ∧
      ofKey () (moved Event.sent (labels trace)) = [ascii "+OK\r\n"] := by
  have hexec : CallStep .start ⟨[ascii "COMMAND"], ascii "+OK\r\n"⟩ .start :=
    ⟨default, true, execCommand_ok (c := .COMMAND) rfl (command_run rfl)⟩
  have r1 : Run (Server.Step fun _ : Unit => ()) (.start .start) _ _ :=
    .next .start (.connectEstablished () rfl)
  have r2 := r1.next (.producerTask ⟨(), [ascii "COMMAND"]⟩ rfl (Or.inl rfl))
  have r3 := r2.next (.push_back _ rfl rfl (by decide))
  have r4 := r3.next (.front ⟨(), [ascii "COMMAND"]⟩ [] rfl rfl)
  have r5 := r4.next (.execCommand _ _ _ rfl hexec)
  have r6 := r5.next (.send () _ rfl rfl)
  have r7 := r6.next (.queueInLoop () _ rfl nofun)
  have r8 := r7.next (.pop_front rfl)
  have r9 := r8.next (.doPendingFunctors () rfl)
  have r10 := r9.next (.runFunctor () () (ascii "+OK\r\n") [] rfl)
  refine ⟨_, _, r10, ⟨rfl, fun _ => ⟨rfl, rfl⟩⟩, ?_⟩
  exact (((request_reply_pairing r10).2.2 () rfl).2 ⟨rfl, fun _ => ⟨rfl, rfl⟩⟩).2

end Yedis
