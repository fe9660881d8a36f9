import Yedis.Clients
import Yedis.LiveConnections

/-!
# What the loops do to the connections

A step of a loop changes the state of one connection at most, from connecting to
connected or to disconnected. Message callbacks that take all bytes leave the buffers
empty, and functors are queued behind those that are there.
-/

namespace Yedis.Net
open Function Runs EPollPoller

variable {Conn Loop : Type}

/-- Both `YedisSession::onRead` and `defaultMessageCallback` take all bytes of the buffer. -/
def retrieveAll {Conn : Type} : Conn → Buffer → Buffer := fun _ buffer => buffer.retrieveAll

/-- `readv` reads less than two gigabytes at once. -/
def ReadAnswer.InRange : ReadAnswer → Prop
  | .reads data => data.length < 2147483648
  | .fails _ => True

namespace Server

/-- A connection in a poller has been established. -/
def OpenedInPollers (s : Server Conn Loop) : Prop :=
  ∀ l c, ((s.pollers l).channels c).nIndex ≠ .kNew → Opened (s.connections c).m_State

def BuffersEmpty (s : Server Conn Loop) : Prop :=
  ∀ c, (s.connections c).m_InputBuffer.readable = []

/-- Afterwards the connections have the states `m_State`. -/
structure Moves (s s' : Server Conn Loop) (m_State : Conn → State) : Prop where
  states : ∀ c, (s'.connections c).m_State = m_State c
  opened : s.OpenedInPollers → s'.OpenedInPollers
  empty : s.BuffersEmpty → s'.BuffersEmpty
  pending : ∀ l, s.pending l <+: s'.pending l
  functors : s'.functors = s.functors

/-- The states of the connections. -/
def states (s : Server Conn Loop) (c : Conn) : State := (s.connections c).m_State

theorem Moves.refl (s : Server Conn Loop) : Moves s s s.states :=
  ⟨fun _ => rfl, id, id, fun _ => List.prefix_rfl, rfl⟩

theorem Moves.trans {s s' s'' : Server Conn Loop} {m_State m_State' : Conn → State}
    (h : Moves s s' m_State) (h' : Moves s' s'' m_State') : Moves s s'' m_State' where
  states := h'.states
  opened ho := h'.opened (h.opened ho)
  empty he := h'.empty (h.empty he)
  pending l := (h.pending l).trans (h'.pending l)
  functors := h'.functors.trans h.functors

theorem Moves.congr {s s' : Server Conn Loop} {m_State m_State' : Conn → State}
    (h : Moves s s' m_State) (hstates : m_State = m_State') : Moves s s' m_State' := hstates ▸ h

variable [DecidableEq Conn] [DecidableEq Loop] {s : Server Conn Loop} {fd : Conn → ℤ} {c : Conn}

omit [DecidableEq Loop] in
theorem moves_setState (c : Conn) {state : State} (hstate : Opened state) :
    Moves s (s.setState c state) (update s.states c state) := by
  have hconnections : ∀ c', ((s.setState c state).connections c').m_State =
      update s.states c state c' ∧ ((s.setState c state).connections c').m_InputBuffer =
        (s.connections c').m_InputBuffer := by
    intro c'
    by_cases hc : c' = c
    · rw [hc, setState, setConnection_self, update_self]
      exact ⟨rfl, rfl⟩
    · rw [setState, setConnection_of_ne _ hc, update_of_ne hc]
      exact ⟨rfl, rfl⟩
  refine ⟨fun c' => (hconnections c').1, fun ho l c' hindex => ?_, fun he c' => ?_,
    fun _ => List.prefix_rfl, rfl⟩
  · rw [(hconnections c').1]
    exact opened_update (ho l c' hindex) hstate
  · rw [(hconnections c').2]
    exact he c'

theorem change_index (h : Sound fd s) (call : InterestCall) {l : Loop} {c' : Conn}
    (hindex : (((s.change fd call c).2.pollers l).channels c').nIndex ≠ .kNew) :
    c' = c ∨ ((s.pollers l).channels c').nIndex ≠ .kNew := by
  by_cases hl : l = s.getLoop c
  · rw [change_eq, hl] at hindex
    simp only [setPoller_self] at hindex
    rw [Ne, call.index_eq_new_iff (h.placed _) (h.registered _), not_and_or, not_not] at hindex
    rwa [hl]
  · rw [change_eq] at hindex
    simp only at hindex
    rw [setPoller_of_ne _ hl] at hindex
    exact Or.inr hindex

theorem moves_change (h : Sound fd s) (call : InterestCall) (hc : Opened (s.states c)) :
    Moves s (s.change fd call c).2 s.states where
  states _ := rfl
  opened ho l c' hindex := by
    rcases change_index h call hindex with rfl | hold
    · exact hc
    · exact ho l c' hold
  empty := id
  pending _ := List.prefix_rfl
  functors := rfl

omit [DecidableEq Conn] in
theorem moves_queueInLoop (l : Loop) (cb : Functor Conn) : Moves s (s.queueInLoop l cb) s.states where
  states _ := rfl
  opened := id
  empty := id
  pending l' := by
    by_cases hl : l' = l
    · simp [hl, queueInLoop]
    · simp [hl, queueInLoop]
  functors := rfl

omit [DecidableEq Conn] in
theorem moves_removeConnection (h : Sound fd s) (thread : Loop) (c : Conn) :
    Moves s (s.removeConnection thread c) s.states := by
  unfold Server.removeConnection
  split_ifs
  · rw [h.removeConnectionInLoop]
    exact .refl s
  · exact moves_queueInLoop _ _

/-- The connection is disconnected afterwards, also when it was before. -/
theorem moves_handleClose (hfd : Injective fd) (h : Sound fd s) (thread : Loop)
    (hc : c ∈ s.accepted) :
    Moves s (s.handleClose fd thread c) (update s.states c .kDisconnected) := by
  unfold Server.handleClose
  split_ifs with hstate
  · exact (Moves.refl s).congr (update_eq_self_iff.mpr hstate.symm).symm
  · have hset := h.setState c .kDisconnected
    have hchange := (hset.sound.change hfd .disableAll (c := c) (by rwa [hset.accepted])).2
    have hmoves := moves_setState (s := s) c (Or.inr rfl : Opened .kDisconnected)
    have hchanged := moves_change hset.sound .disableAll (c := c) (by
      rw [states, hmoves.states, update_self]
      exact Or.inr rfl)
    have hremoved := moves_removeConnection hchange.sound thread c
    exact (hmoves.trans (hchanged.trans hremoved)).congr (funext hmoves.states)

/-- Nothing stands in the way of a connection that is established. -/
theorem moves_connectEstablished (hfd : Injective fd) (h : Sound fd s) (thread : Loop)
    (hc : c ∈ s.accepted) :
    Moves s (s.connectEstablished fd thread c)
      (if s.states c = .kConnecting then update s.states c .kConnected else s.states) := by
  unfold Server.connectEstablished
  by_cases hstate : (s.connections c).m_State = .kConnecting
  · rw [if_neg (not_not.mpr hstate), if_pos (show s.states c = .kConnecting from hstate)]
    have hset := h.setState c .kConnected
    have hchange := hset.sound.change hfd .enableReading (c := c) (by rwa [hset.accepted])
    have hmoves := moves_setState (s := s) c (Or.inl rfl : Opened .kConnected)
    have hchanged := moves_change hset.sound .enableReading (c := c) (by
      rw [states, hmoves.states, update_self]
      exact Or.inl rfl)
    generalize (s.setState c .kConnected).change fd .enableReading c = changed at hchange hchanged
    obtain ⟨done, s'⟩ := changed
    obtain rfl : done = true := hchange.1
    exact (hmoves.trans hchanged).congr (funext hmoves.states)
  · rw [if_pos hstate, if_neg (show s.states c ≠ .kConnecting from hstate)]
    exact .refl s

omit [DecidableEq Loop] in
theorem moves_setBuffer {buffer : Buffer} (hbuffer : s.BuffersEmpty → buffer.readable = []) :
    Moves s (s.setConnection c { s.connections c with m_InputBuffer := buffer }) s.states := by
  have hstates : ∀ c', ((s.setConnection c { s.connections c with
      m_InputBuffer := buffer }).connections c').m_State = s.states c' := by
    intro c'
    by_cases hc : c' = c
    · rw [hc, setConnection_self, states]
    · rw [setConnection_of_ne _ hc, states]
  refine ⟨hstates, fun ho l c' hindex => ?_, fun he c' => ?_, fun _ => List.prefix_rfl, rfl⟩
  · rw [hstates c']
    exact ho l c' hindex
  · by_cases hc : c' = c
    · rw [hc, setConnection_self]
      exact hbuffer he
    · rw [setConnection_of_ne _ hc]
      exact he c'

omit [DecidableEq Loop] in
theorem moves_handleRead (c : Conn) {answer : ReadAnswer} (hanswer : answer.InRange) :
    Moves s (s.handleRead retrieveAll c answer) s.states := by
  unfold Server.handleRead
  simp only
  split_ifs with hread
  · exact moves_setBuffer fun _ => Buffer.readable_retrieveAll _
  · refine moves_setBuffer fun he => ?_
    cases answer with
    | fails temporary => exact he c
    | reads data =>
        have hlength : data.length < 2147483648 := hanswer
        rw [readFd, wrap32_of_range (by omega) (by omega)] at hread
        have hdata : data = [] := List.eq_nil_of_length_eq_zero (by simpa using hread)
        rw [readFd, Buffer.readable_readFd, he c, hdata, List.append_nil]

/-- What an event that may say that the connection has failed does first. -/
def closed (fd : Conn → ℤ) (thread : Loop) (c : Conn) (s : Server Conn Loop) : Server Conn Loop :=
  if s.nEvents c &&& errorEvents ≠ 0 then s.handleClose fd thread c else s

theorem moves_closed (hfd : Injective fd) (h : Sound fd s) (thread : Loop)
    (hc : c ∈ s.accepted) : Moves s (s.closed fd thread c)
      (if s.nEvents c &&& errorEvents ≠ 0 then update s.states c .kDisconnected
        else s.states) := by
  unfold closed
  split_ifs
  · exact moves_handleClose hfd h thread hc
  · exact .refl s

theorem moves_HandleEvent (hfd : Injective fd) (h : Sound fd s) (thread : Loop)
    (hc : c ∈ s.accepted) {answer : ReadAnswer} (hanswer : answer.InRange) :
    Moves s (s.HandleEvent fd retrieveAll thread c answer)
      (if s.nEvents c &&& errorEvents ≠ 0 then update s.states c .kDisconnected
        else s.states) := by
  have hclosed := moves_closed hfd h thread hc
  have hevent : s.HandleEvent fd retrieveAll thread c answer =
      if (s.closed fd thread c).nEvents c &&& readEvents ≠ 0 then
        (s.closed fd thread c).handleRead retrieveAll c answer
      else s.closed fd thread c := rfl
  rw [hevent]
  by_cases hread : (s.closed fd thread c).nEvents c &&& readEvents ≠ 0
  · rw [if_pos hread]
    exact (hclosed.trans (moves_handleRead c hanswer)).congr (funext hclosed.states)
  · rw [if_neg hread]
    exact hclosed

theorem nEvents_change (h : Sound fd s) (call : InterestCall) (c : Conn) :
    (s.change fd call c).2.nEvents c = call.events (s.nEvents c) := by
  have hgetLoop : (s.change fd call c).2.getLoop c = s.getLoop c := rfl
  have hpollers : (s.change fd call c).2.pollers (s.getLoop c) =
      (call.run fd c (s.pollers (s.getLoop c))).2 := setPoller_self ..
  rw [nEvents, hgetLoop, hpollers, call.run_eq (h.placed _) (h.registered _), updated_nEvents,
    setEvents_self, nEvents]

omit [DecidableEq Conn] in
theorem nEvents_removeConnection (h : Sound fd s) (thread : Loop) (c c' : Conn) :
    (s.removeConnection thread c).nEvents c' = s.nEvents c' := by
  unfold Server.removeConnection
  split_ifs
  · rw [h.removeConnectionInLoop]
  · rfl

/-- A connection that is closed only now wants nothing any more. -/
theorem nEvents_handleClose (hfd : Injective fd) (h : Sound fd s) (thread : Loop)
    (hc : c ∈ s.accepted) (hstate : s.states c ≠ .kDisconnected) :
    (s.handleClose fd thread c).nEvents c = Channel.kNoneEvent := by
  have hset := h.setState c .kDisconnected
  have hchange := (hset.sound.change hfd .disableAll (c := c) (by rwa [hset.accepted])).2
  have hopen : ¬ (s.connections c).m_State = .kDisconnected := hstate
  rw [Server.handleClose, if_neg hopen, nEvents_removeConnection hchange.sound,
    nEvents_change hset.sound]
  rfl

/-- The buffer for which `handleRead` calls the message callback, if it does. -/
def delivers (fd : Conn → ℤ) (thread : Loop) (c : Conn) (answer : ReadAnswer)
    (s : Server Conn Loop) : Option Buffer :=
  let s := s.closed fd thread c
  if s.nEvents c &&& readEvents ≠ 0 then
    let (nRead, buffer) := readFd (s.connections c).m_InputBuffer answer
    if nRead > 0 then some buffer else none
  else none

/-- Bytes are read on a connection only when this event does not close it. -/
theorem closed_of_delivers (hfd : Injective fd) (h : Sound fd s) {thread : Loop}
    (hc : c ∈ s.accepted) {answer : ReadAnswer} {buffer : Buffer}
    (hdelivers : s.delivers fd thread c answer = some buffer) : s.closed fd thread c = s := by
  by_cases herror : s.nEvents c &&& errorEvents ≠ 0
  · have hclosed : s.closed fd thread c = s.handleClose fd thread c := if_pos herror
    by_cases hstate : s.states c = .kDisconnected
    · rw [hclosed]
      exact if_pos hstate
    · have hnone : (s.closed fd thread c).nEvents c &&& readEvents = 0 := by
        rw [hclosed, nEvents_handleClose hfd h thread hc hstate]
        decide
      unfold delivers at hdelivers
      simp only [hnone, ne_eq, not_true_eq_false, if_false, reduceCtorEq] at hdelivers
  · exact if_neg herror

theorem delivers_eq_some (hfd : Injective fd) (h : Sound fd s) {thread : Loop}
    (hc : c ∈ s.accepted) {data : Bytes} {buffer : Buffer}
    (hdelivers : s.delivers fd thread c (.reads data) = some buffer) :
    data ≠ [] ∧ buffer = (s.connections c).m_InputBuffer.readFd data := by
  have hclosed := closed_of_delivers hfd h hc hdelivers
  unfold delivers at hdelivers
  rw [hclosed] at hdelivers
  simp only [Option.ite_none_right_eq_some, Option.some_inj] at hdelivers
  obtain ⟨-, hpos, hbuffer⟩ := hdelivers
  refine ⟨?_, hbuffer.symm⟩
  rintro rfl
  have hzero : (readFd (s.connections c).m_InputBuffer (.reads [])).1 = 0 := by
    change wrap32 0 = 0
    decide
  exact absurd hzero hpos.ne'

theorem delivers_reads {thread : Loop} {data : Bytes} (herror : s.nEvents c &&& errorEvents = 0)
    (hread : s.nEvents c &&& readEvents ≠ 0) (hdata : 0 < wrap32 data.length) :
    s.delivers fd thread c (.reads data) =
      some ((s.connections c).m_InputBuffer.readFd data) := by
  have hclosed : s.closed fd thread c = s := if_neg (not_not.mpr herror)
  unfold delivers
  rw [hclosed]
  simp only [if_pos hread]
  exact if_pos hdata

/-- A connection that is read keeps its state. -/
theorem moves_of_delivers (hfd : Injective fd) (h : Sound fd s) {thread : Loop}
    (hc : c ∈ s.accepted) {answer : ReadAnswer} {buffer : Buffer} (hanswer : answer.InRange)
    (hdelivers : s.delivers fd thread c answer = some buffer) :
    Moves s (s.HandleEvent fd retrieveAll thread c answer) s.states := by
  have hclosed := closed_of_delivers hfd h hc hdelivers
  have hmoves := moves_closed hfd h thread hc
  have hevent := moves_HandleEvent hfd h thread hc hanswer
  rw [← funext hmoves.states, hclosed] at hevent
  exact hevent

omit [DecidableEq Loop] in
/-- A connection that is new is connecting, as it was before. -/
theorem moves_enter (hstate : s.states c = .kConnecting) (addr : SocketAddr) :
    Moves s (s.enter c addr) s.states := by
  have hstates : ∀ c', ((s.enter c addr).connections c').m_State = s.states c' := by
    intro c'
    by_cases hc : c' = c
    · rw [hc, enter_self, hstate]
    · rw [enter_of_ne addr hc, states]
  refine ⟨hstates, fun ho l c' hindex => ?_, fun he c' => ?_, fun _ => List.prefix_rfl, rfl⟩
  · rw [hstates c']
    exact ho l c' hindex
  · by_cases hc : c' = c
    · rw [hc, enter_self]
      exact Buffer.readable_new
    · rw [enter_of_ne addr hc]
      exact he c'

theorem moves_newConnection (hfd : Injective fd) (h : Sound fd s) (hnew : c ∉ s.accepted)
    (hstate : s.states c = .kConnecting) (addr : SocketAddr) :
    Moves s (s.newConnection fd c addr)
      (if (s.enter c addr).getLoop c = s.m_ptrLoop then update s.states c .kConnected
        else s.states) := by
  have hentered := moves_enter hstate addr
  have hstates : (s.enter c addr).states = s.states := funext hentered.states
  unfold Server.newConnection
  simp only
  have hloop : (s.enter c addr).m_ptrLoop = s.m_ptrLoop := rfl
  rw [hloop]
  split_ifs with hsame
  · have hmoves := moves_connectEstablished hfd (h.enter hnew addr) s.m_ptrLoop
      List.mem_cons_self (c := c)
    rw [hstates, if_pos hstate] at hmoves
    exact hentered.trans hmoves
  · exact hentered.trans ((moves_queueInLoop _ _).congr hstates)

/-- The states after a functor, which may establish a connection and does not close one. -/
def statesAfter (s : Server Conn Loop) : Functor Conn → Conn → State
  | .connectEstablished c =>
    if s.states c = .kConnecting then update s.states c .kConnected else s.states
  | _ => s.states

theorem moves_runFunctor (hfd : Injective fd) (h : Sound fd s) (thread : Loop) {cb : Functor Conn}
    (hcb : Spares s.accepted cb) : Moves s (s.runFunctor fd thread cb) (s.statesAfter cb) := by
  obtain ⟨c, hc, rfl | rfl⟩ := hcb
  · exact moves_connectEstablished hfd h thread hc
  · rw [Server.runFunctor, h.removeConnectionInLoop]
    exact .refl s

theorem moves_poll (l : Loop) (reports : List (EpollEvent Conn)) :
    Moves s { s with
      pollers := update s.pollers l (fillActiveChannels fd reports (s.pollers l)).2
      active := update s.active l (fillActiveChannels fd reports (s.pollers l)).1 } s.states where
  states _ := rfl
  opened ho l' c hindex := by
    by_cases hl : l' = l
    · rw [hl] at hindex
      simp only [update_self, fillActiveChannels_index] at hindex
      exact ho l c hindex
    · simp only [update_of_ne hl] at hindex
      exact ho l' c hindex
  empty := id
  pending _ := List.prefix_rfl
  functors := rfl

theorem Moves.handle {thread : Loop} {answer : ReadAnswer} {rest : List Conn}
    {onMessage : Conn → Buffer → Buffer} {m_State : Conn → State}
    (h : Moves s (s.HandleEvent fd onMessage thread c answer) m_State) :
    Moves s (s.handle fd onMessage thread c answer rest) m_State :=
  ⟨h.states, h.opened, h.empty, h.pending, h.functors⟩

omit [DecidableEq Conn] in
theorem Sound.taken (h : Sound fd s) {l : Loop} {cb : Functor Conn} {rest : List (Functor Conn)}
    (hfunctors : s.functors l = cb :: rest) :
    Sound fd { s with functors := update s.functors l rest } ∧ Spares s.accepted cb := by
  have hall : ∀ cb' ∈ cb :: rest, Spares s.accepted cb' := hfunctors ▸ h.functors l
  refine ⟨{ h with functors := fun l' cb' hmem => ?_ }, hall cb List.mem_cons_self⟩
  rcases mem_of_mem_update hmem with ⟨rfl, hgiven⟩ | hhad
  · exact hall cb' (List.mem_cons_of_mem _ hgiven)
  · exact h.functors l' cb' hhad

end Server

end Yedis.Net
