import Yedis.Pairing
import Yedis.Session

/-!
# From a read to its reply

The server with its sockets: a loop thread reads from a connection, parses what it
got and stays in `onRead` until `producerTask` has taken the parameters. A client
that writes its commands so that each read delivers one of them has them executed in
its order, each once, and `sendInLoop` runs for their replies in this order.
-/

namespace Yedis
open Fifo Runs

structure Front (Conn Loop : Type) where
  server : Server Conn Loop
  m_InputBuffer : Conn → Buffer := fun _ => .new
  /-- the parameters with which a loop thread is in `onRead` -/
  reading : Loop → Option (connAndCmd Conn) := fun _ => none

inductive FrontEvent (Conn Loop : Type)
  | handleRead (conn : Conn) (data : Bytes) (vecCmd : List Bytes)
  | server (e : Event Conn Loop)

variable {Conn Loop : Type} [DecidableEq Conn] [DecidableEq Loop]

inductive Front.Step (loopOf : Conn → Loop) (s : Front Conn Loop) :
    FrontEvent Conn Loop → Front Conn Loop → Prop
  | handleRead (conn : Conn) (data : Bytes) (vecCmd : List Bytes) (buffer : Buffer)
      (hloop : s.reading (loopOf conn) = none) (hopen : Opened (s.server.m_State conn))
      (hdata : data ≠ [])
      (hread : onRead ((s.m_InputBuffer conn).readFd data) = .ok (vecCmd, buffer)) :
      Step loopOf s (.handleRead conn data vecCmd)
        { s with
          m_InputBuffer := Function.update s.m_InputBuffer conn buffer
          reading := Function.update s.reading (loopOf conn) (some ⟨conn, vecCmd⟩) }
  | producerTask (item : connAndCmd Conn) (server : Server Conn Loop)
      (hreading : s.reading (loopOf item.conn) = some item)
      (h : s.server.Step loopOf (.producerTask item) server) :
      Step loopOf s (.server (.producerTask item)) { s with server := server }
  | push_back (item : connAndCmd Conn) (server : Server Conn Loop)
      (h : s.server.Step loopOf (.push_back item) server) :
      Step loopOf s (.server (.push_back item))
        { s with
          server := server
          reading := Function.update s.reading (loopOf item.conn) none }
  | other (e : Event Conn Loop) (server : Server Conn Loop)
      (htask : ∀ item, e ≠ .producerTask item) (hpush : ∀ item, e ≠ .push_back item)
      (h : s.server.Step loopOf e server) : Step loopOf s (.server e) { s with server := server }

def Front.start (store : YStore) : Front Conn Loop where
  server := .start store

namespace Event

/-- The commands executed, with their replies, by connection. -/
def served (e : Event Conn Loop) : List (Conn × Call) :=
  e.executed.map fun x => (x.1.conn, ⟨x.1.vecCmd, x.2⟩)

/-- The parameters enqueued, by connection. -/
def entered (e : Event Conn Loop) : List (Conn × List Bytes) :=
  e.pushed.map fun item => (item.conn, item.vecCmd)

end Event

namespace FrontEvent

/-- What the reads of a connection deliver. -/
def arrived : FrontEvent Conn Loop → List (Conn × Bytes)
  | handleRead conn data _ => [(conn, data)]
  | server _ => []

/-- What they hand on. -/
def handed : FrontEvent Conn Loop → List (Conn × List Bytes)
  | handleRead conn _ vecCmd => [(conn, vecCmd)]
  | server _ => []

def events : FrontEvent Conn Loop → List (Event Conn Loop)
  | handleRead _ _ _ => []
  | server e => [e]

end FrontEvent

/-- The steps of the server in a history, the newest first. -/
def serverEvents (history : List (FrontEvent Conn Loop)) : List (Event Conn Loop) :=
  history.flatMap FrontEvent.events

/-- The parameters of `c` that its loop thread has not enqueued yet. -/
def Front.waiting (loopOf : Conn → Loop) (s : Front Conn Loop) (c : Conn) : List (List Bytes) :=
  ofKey c ((s.reading (loopOf c)).toList.map fun item => (item.conn, item.vecCmd))

/-- Reads leave their buffers empty, and the item of the thread in `producerTask` is the one its
loop thread reads. -/
structure FrontCoherent (loopOf : Conn → Loop) (s : Front Conn Loop) : Prop where
  drained : ∀ c, (s.m_InputBuffer c).readable = []
  item : ∀ item, s.server.item = some item → s.reading (loopOf item.conn) = some item

section Steps
variable {loopOf : Conn → Loop} {s s' : Front Conn Loop} {e : FrontEvent Conn Loop}

omit [DecidableEq Conn] [DecidableEq Loop] in
theorem onRead_fresh {buffer buffer' : Buffer} {data : Bytes} {vecCmd : List Bytes}
    (hempty : buffer.readable = []) (h : onRead (buffer.readFd data) = .ok (vecCmd, buffer')) :
    Hands data vecCmd ∧ buffer'.readable = [] := by
  obtain ⟨hands, rfl⟩ := (onRead_ok_iff _ _ _).mp h
  rw [Buffer.readable_readFd, hempty, List.nil_append] at hands
  refine ⟨hands, ?_⟩
  rw [Buffer.readable_retrieve, ← Buffer.readable_length, List.drop_length]

/-- The other steps leave the item of `producerTask` as it is. -/
theorem Server.Step.same_item {t t' : Server Conn Loop} {e : Event Conn Loop}
    (h : t.Step loopOf e t') (htask : ∀ item, e ≠ .producerTask item)
    (hpush : ∀ item, e ≠ .push_back item) : t'.item = t.item := by
  cases h with
  | producerTask item hlock hopen => exact absurd rfl (htask item)
  | push_back item hitem hlock hfull => exact absurd rfl (hpush item)
  | _ => rfl

theorem Front.Step.coherent (h : s.Step loopOf e s') (hs : FrontCoherent loopOf s) :
    FrontCoherent loopOf s' := by
  cases h with
  | handleRead conn data vecCmd buffer hloop hopen hdata hread =>
      refine ⟨fun c => ?_, fun item hitem => ?_⟩
      · simp only [Function.update_apply]
        split_ifs with hc
        · exact (onRead_fresh (hs.drained conn) hread).2
        · exact hs.drained c
      · have hne : loopOf item.conn ≠ loopOf conn := by
          intro heq
          have hold := hs.item item hitem
          rw [heq, hloop] at hold
          cases hold
        simp only [Function.update_of_ne hne]
        exact hs.item item hitem
  | producerTask item server hreading h =>
      refine ⟨hs.drained, fun item' hitem => ?_⟩
      cases h with
      | producerTask _ hlock hopen =>
          cases hitem
          exact hreading
  | push_back item server h =>
      refine ⟨hs.drained, fun item' hitem => ?_⟩
      cases h with
      | push_back _ _ hlock hfull => cases hitem
  | other e server htask hpush h =>
      refine ⟨hs.drained, fun item hitem => ?_⟩
      rw [h.same_item htask hpush] at hitem
      exact hs.item item hitem

/-- A loop thread is a queue of one place between its reads and the deque. -/
theorem Front.Step.waiting (h : s.Step loopOf e s') (hs : FrontCoherent loopOf s) (c : Conn) :
    Move (s.waiting loopOf c) (ofKey c e.handed) (ofKey c (e.events.flatMap Event.entered))
      (s'.waiting loopOf c) := by
  cases h with
  | handleRead conn data vecCmd buffer hloop hopen hdata hread =>
      simp only [Front.waiting, FrontEvent.handed, FrontEvent.events, Function.update_apply]
      split_ifs with hl
      · rw [hl, hloop]
        exact .put _ _
      · have hne : conn ≠ c := by
          rintro rfl
          exact hl rfl
        rw [ofKey_cons_of_ne hne]
        exact .idle _
  | producerTask item server hreading h => exact .idle _
  | push_back item server h =>
      cases h with
      | push_back _ hitem hlock hfull =>
          simp only [Front.waiting, FrontEvent.handed, FrontEvent.events, List.flatMap_cons,
            List.flatMap_nil, List.append_nil, Event.entered, Event.pushed, List.map_cons,
            List.map_nil, Function.update_apply]
          split_ifs with hl
          · rw [hl, hs.item item hitem]
            have htake := Move.take (ofKey c [(item.conn, item.vecCmd)]) []
            rwa [List.append_nil] at htake
          · have hne : item.conn ≠ c := by
              rintro rfl
              exact hl rfl
            rw [ofKey_cons_of_ne hne]
            exact .idle _
  | other e server htask hpush h =>
      have hentered : e.entered = [] := by
        cases e with
        | push_back item => exact absurd rfl (hpush item)
        | _ => rfl
      simp only [Front.waiting, FrontEvent.handed, FrontEvent.events, List.flatMap_cons,
        List.flatMap_nil, List.append_nil, hentered]
      exact .idle _

theorem Front.Step.server (h : s.Step loopOf e s') {s₀ : YStore}
    {trace : List (Transition (Server Conn Loop) (Event Conn Loop))}
    (run : Run (Server.Step loopOf) (.start s₀) trace s.server) :
    ∃ trace', Run (Server.Step loopOf) (.start s₀) trace' s'.server ∧
      labels trace' = e.events ++ labels trace := by
  cases h with
  | handleRead conn data vecCmd buffer hloop hopen hdata hread => exact ⟨trace, run, rfl⟩
  | producerTask item server hreading h => exact ⟨_, run.next h, rfl⟩
  | push_back item server h => exact ⟨_, run.next h, rfl⟩
  | other e server htask hpush h => exact ⟨_, run.next h, rfl⟩

end Steps

/-- What holds of the server with its sockets after the steps `history`, the newest first. -/
structure FrontAccounts (loopOf : Conn → Loop) (s₀ : YStore)
    (history : List (FrontEvent Conn Loop)) (s : Front Conn Loop) : Prop where
  coherent : FrontCoherent loopOf s
  server : ∃ trace, Run (Server.Step loopOf) (.start s₀) trace s.server ∧
    labels trace = serverEvents history
  waiting : ∀ c, Move [] (ofKey c (moved FrontEvent.handed history))
    (ofKey c (moved Event.entered (serverEvents history))) (s.waiting loopOf c)
  parsed : ∀ c, List.Forall₂ Hands (ofKey c (moved FrontEvent.arrived history))
    (ofKey c (moved FrontEvent.handed history))

section Runs
variable {loopOf : Conn → Loop} {s s' : Front Conn Loop} {e : FrontEvent Conn Loop} {s₀ : YStore}
  {history : List (FrontEvent Conn Loop)}

omit [DecidableEq Conn] [DecidableEq Loop] in
theorem moved_serverEvents_cons {α : Type} (f : Event Conn Loop → List α) :
    moved f (serverEvents (e :: history)) =
      moved f (serverEvents history) ++ e.events.flatMap f := by
  rw [serverEvents, List.flatMap_cons, moved, List.reverse_append, List.flatMap_append]
  cases e <;> rfl

theorem Front.Step.parsed (h : s.Step loopOf e s') (hs : FrontCoherent loopOf s) (c : Conn) :
    List.Forall₂ Hands (ofKey c e.arrived) (ofKey c e.handed) := by
  cases h with
  | handleRead conn data vecCmd buffer hloop hopen hdata hread =>
      simp only [FrontEvent.arrived, FrontEvent.handed]
      by_cases hc : conn = c
      · subst hc
        rw [ofKey_cons_self, ofKey_cons_self]
        exact .cons (onRead_fresh (hs.drained conn) hread).1 .nil
      · rw [ofKey_cons_of_ne hc, ofKey_cons_of_ne hc]
        exact .nil
  | _ => exact .nil

theorem FrontAccounts.next (ha : FrontAccounts loopOf s₀ history s) (h : s.Step loopOf e s') :
    FrontAccounts loopOf s₀ (e :: history) s' where
  coherent := h.coherent ha.coherent
  server := by
    obtain ⟨trace, run, hlabels⟩ := ha.server
    obtain ⟨trace', run', hlabels'⟩ := h.server run
    exact ⟨trace', run', by rw [hlabels', hlabels]; rfl⟩
  waiting := by
    intro c
    rw [moved_cons, moved_serverEvents_cons, ofKey_append, ofKey_append]
    exact (ha.waiting c).trans (h.waiting ha.coherent c)
  parsed := by
    intro c
    rw [moved_cons, moved_cons, ofKey_append, ofKey_append]
    exact List.rel_append (ha.parsed c) (h.parsed ha.coherent c)

theorem frontAccounts_of_run {trace : List (Transition (Front Conn Loop) (FrontEvent Conn Loop))}
    (run : Run (Front.Step loopOf) (.start s₀) trace s) :
    FrontAccounts loopOf s₀ (labels trace) s := by
  refine run.invariant_labels (P := FrontAccounts loopOf s₀) ?_ fun _ _ _ _ ha h => ha.next h
  exact {
    coherent := ⟨fun _ => Buffer.readable_new, nofun⟩
    server := ⟨[], .start, rfl⟩
    waiting := fun _ => .idle _
    parsed := fun _ => .nil }

end Runs

/-- The data of the reads on `c`. -/
def dataOn (c : Conn) (trace : List (Transition (Front Conn Loop) (FrontEvent Conn Loop))) :
    List Bytes :=
  ofKey c (moved FrontEvent.arrived (labels trace))

/-- The commands of `c` that were executed, with their replies. -/
def servedOn (c : Conn) (trace : List (Transition (Front Conn Loop) (FrontEvent Conn Loop))) :
    List Call :=
  ofKey c (moved Event.served (serverEvents (labels trace)))

/-- The payloads for which `sendInLoop` has run on `c`. -/
def sentOn (c : Conn) (trace : List (Transition (Front Conn Loop) (FrontEvent Conn Loop))) :
    List Bytes :=
  ofKey c (moved Event.sent (serverEvents (labels trace)))

/-- Nothing is being read and all queues are empty. -/
def Front.Quiet (s : Front Conn Loop) : Prop := (∀ l, s.reading l = none) ∧ s.server.Drained

section Ledgers
variable {loopOf : Conn → Loop} {events : List (Event Conn Loop)}

omit [DecidableEq Loop] in
theorem params_served (c : Conn) : (ofKey c (moved Event.served events)).map Call.params =
    ofKey c ((moved (fun e => e.executed.map Prod.fst) events).map fun item =>
      (item.conn, item.vecCmd)) := by
  rw [← ofKey_map, ← moved_map, ← moved_map]
  congr 2
  funext e
  rw [Event.served, List.map_map, List.map_map]
  rfl

omit [DecidableEq Loop] in
theorem replies_served (c : Conn) : (ofKey c (moved Event.served events)).map Call.reply =
    ofKey c (moved Event.replied events) := by
  rw [← ofKey_map, ← moved_map]
  congr 2
  funext e
  rw [Event.served, List.map_map]
  rfl

omit [DecidableEq Conn] [DecidableEq Loop] in
theorem calls_served : (moved Event.served events).map Prod.snd = moved Event.calls events := by
  rw [← moved_map]
  congr 1
  funext e
  rw [Event.served, List.map_map]
  rfl

omit [DecidableEq Loop] in
theorem entered_pushed (c : Conn) : ofKey c (moved Event.entered events) =
    ofKey c ((moved Event.pushed events).map fun item => (item.conn, item.vecCmd)) := by
  rw [← moved_map]
  rfl

end Ledgers

section Runs
variable {loopOf : Conn → Loop} {s : Front Conn Loop} {s₀ : YStore}
  {trace : List (Transition (Front Conn Loop) (FrontEvent Conn Loop))} {c : Conn}
  {cmds : List (List Bytes)}

omit [DecidableEq Conn] [DecidableEq Loop] in
/-- Reads that deliver one command each hand on these commands. -/
theorem requests_of_encoded {reads : List Bytes} {requests : List (List Bytes)}
    (h : List.Forall₂ Hands reads requests) (hdata : reads = cmds.map encodeCommand)
    (hsize : ∀ cmd ∈ cmds, (encodeCommand cmd).length < 2147483648) : requests = cmds := by
  have hunique : Relator.RightUnique Hands := by
    rintro data cmd cmd' ⟨res, hres, rfl⟩ ⟨res', hres', rfl⟩
    rw [hres] at hres'
    cases hres'
    rfl
  rw [hdata] at h
  exact hunique.forall₂ h (hands_encodeCommand hsize)

/-- The commands are executed one after the other. -/
theorem FrontAccounts.serial {history : List (FrontEvent Conn Loop)}
    (ha : FrontAccounts loopOf s₀ history s) :
    ∃ calls, Run CallStep s₀ calls s.server.store ∧ (labels calls).reverse =
      (moved Event.served (serverEvents history)).map Prod.snd := by
  obtain ⟨trace', run', hlabels⟩ := ha.server
  obtain ⟨calls, hcalls, hlabels'⟩ := (accounts_of_run run').serial
  refine ⟨calls, hcalls, ?_⟩
  rw [hlabels', hlabels, calls_served]

/-- The accounts of a client, whose requests are what its reads hand on. -/
theorem FrontAccounts.serves {history : List (FrontEvent Conn Loop)}
    (ha : FrontAccounts loopOf s₀ history s) :
    ∃ requests, List.Forall₂ Hands (ofKey c (moved FrontEvent.arrived history)) requests ∧
    (ofKey c (moved Event.served (serverEvents history))).map Call.params <+: requests ∧
    (s.server.m_State c = .kConnected → ofKey c (moved Event.sent (serverEvents history)) <+:
      (ofKey c (moved Event.served (serverEvents history))).map Call.reply) ∧
    (s.Quiet → (ofKey c (moved Event.served (serverEvents history))).map Call.params = requests ∧
      (s.server.m_State c = .kConnected → ofKey c (moved Event.sent (serverEvents history)) =
        (ofKey c (moved Event.served (serverEvents history))).map Call.reply)) := by
  obtain ⟨trace', run', hlabels⟩ := ha.server
  have hserver := accounts_of_run run'
  have hwaiting := ha.waiting c
  have hdeque := hserver.deque
  have hlanes := hserver.lanes c
  rw [hlabels] at hdeque hlanes
  rw [params_served, replies_served]
  refine ⟨_, ha.parsed c, ?_, fun hc => ?_, fun hquiet => ⟨?_, fun hc => ?_⟩⟩
  · refine List.IsPrefix.trans ?_ hwaiting.outs_prefix
    rw [entered_pushed]
    exact ofKey_prefix c (hdeque.outs_prefix.map _)
  · have hlane := hlanes (by simp [hc])
    exact hlane.outs_prefix
  · obtain ⟨hidle, hdrained⟩ := hquiet
    obtain ⟨hunexecuted, -⟩ := hdrained.empty hserver.coherent
    rw [hunexecuted] at hdeque
    rw [Front.waiting, hidle] at hwaiting
    rw [hdeque.outs_eq, ← entered_pushed]
    exact hwaiting.outs_eq
  · obtain ⟨-, hdrained⟩ := hquiet
    obtain ⟨-, hempty⟩ := hdrained.empty hserver.coherent
    have hlane := hlanes (by simp [hc])
    rw [hempty c] at hlane
    exact hlane.outs_eq

/-- In every run in which each read on a connection delivers one command of its client: the commands
are executed one after the other, those of the client in its order, each once, and the payloads for
which `sendInLoop` runs, as long as it is connected, are the first replies to its commands, in
order. When nothing is left to do, all commands are executed and it has run for all replies. -/
theorem clients_are_served_in_order (run : Run (Front.Step loopOf) (.start s₀) trace s)
    (hdata : dataOn c trace = cmds.map encodeCommand)
    (hsize : ∀ cmd ∈ cmds, (encodeCommand cmd).length < 2147483648) :
    (∃ calls, Run CallStep s₀ calls s.server.store ∧
      (labels calls).reverse = (moved Event.served (serverEvents (labels trace))).map Prod.snd) ∧
    (servedOn c trace).map Call.params <+: cmds ∧
    (s.server.m_State c = .kConnected → sentOn c trace <+: (servedOn c trace).map Call.reply) ∧
    (s.Quiet → (servedOn c trace).map Call.params = cmds ∧
      (s.server.m_State c = .kConnected →
        sentOn c trace = (servedOn c trace).map Call.reply)) := by
  have ha := frontAccounts_of_run run
  obtain ⟨requests, hparsed, hserves⟩ := ha.serves (c := c)
  rw [requests_of_encoded hparsed hdata hsize] at hserves
  exact ⟨ha.serial, hserves⟩

end Runs

/-- One client sends `COMMAND`, and `sendInLoop` runs for the reply. -/
theorem clients_are_served_in_order_command :
    ∃ (trace : List (Transition (Front Unit Unit) (FrontEvent Unit Unit))) (s : Front Unit Unit),
      Run (Front.Step fun _ => ()) (.start .start) trace s ∧
      dataOn () trace = [encodeCommand [ascii "COMMAND"]] ∧
      sentOn () trace = [ascii "+OK\r\n"] ∧
      (servedOn () trace).map Call.params = [[ascii "COMMAND"]] := by
  have hexec : CallStep .start ⟨[ascii "COMMAND"], ascii "+OK\r\n"⟩ .start :=
    ⟨default, true, execCommand_ok (c := .COMMAND) rfl (command_run rfl)⟩
  have hsize : ∀ cmd ∈ [[ascii "COMMAND"]], (encodeCommand cmd).length < 2147483648 :=
    List.forall_mem_singleton.mpr (by decide)
  obtain ⟨-, buffer, hread⟩ := onRead_received (parseRequest_encodeCommand (r := [])
    (List.append_nil (encodeCommand [ascii "COMMAND"])).symm (by decide))
  have r1 : Run (Front.Step fun _ : Unit => ()) (.start .start) _ _ :=
    .next .start (.other (.connectEstablished ()) _ nofun nofun (.connectEstablished () rfl))
  have r2 := r1.next (.handleRead () (encodeCommand [ascii "COMMAND"]) _ buffer rfl (Or.inl rfl)
    (List.cons_ne_nil _ _) hread)
  have r3 := r2.next (.producerTask _ _ rfl
    (.producerTask ⟨(), [ascii "COMMAND"]⟩ rfl (Or.inl rfl)))
  have r4 := r3.next (.push_back _ _ (.push_back _ rfl rfl (Nat.succ_pos 29)))
  have r5 := r4.next (.other (.front _) _ nofun nofun (.front ⟨(), [ascii "COMMAND"]⟩ [] rfl rfl))
  have r6 := r5.next (.other (.execCommand _ _) _ nofun nofun (.execCommand _ _ _ rfl hexec))
  have r7 := r6.next (.other (.send _) _ nofun nofun (.send () _ rfl rfl))
  have r8 := r7.next (.other (.queueInLoop _) _ nofun nofun (.queueInLoop () _ rfl nofun))
  have r9 := r8.next (.other .pop_front _ nofun nofun (.pop_front rfl))
  have r10 := r9.next (.other (.doPendingFunctors _) _ nofun nofun (.doPendingFunctors () rfl))
  have r11 := r10.next (.other (.sendInLoop _ _) _ nofun nofun
    (.runFunctor () () (ascii "+OK\r\n") [] rfl))
  obtain ⟨-, -, -, hquiet⟩ := clients_are_served_in_order r11 (c := ()) rfl hsize
  obtain ⟨hserved, hsent⟩ := hquiet ⟨fun _ => rfl, rfl, fun _ => ⟨rfl, rfl⟩⟩
  exact ⟨_, _, r11, rfl, hsent rfl, hserved⟩

end Yedis
