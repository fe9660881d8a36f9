import Yedis.Buffer
import Yedis.EpollPoller
import Yedis.Runs
import Yedis.TcpConnection

/-!
# The connection table and the event loops

`Server` accepts connections in its own loop and gives each to one of the loops of a
pool. The loop of a connection polls, handles the active channels one by one and
runs its pending functors; `removeConnectionInLoop` and `connectDestroyed` are such
functors. What is done with the bytes that were read is a parameter, and so are the
descriptors and the addresses of the peers.
-/

namespace Yedis.Net
open Function Runs

/-- The four bytes of the IP address and the port, in host order. -/
structure SocketAddr where
  sin_addr : Fin 4 → UInt8
  sin_port : UInt16

def SocketAddr.ToString (addr : SocketAddr) : Bytes :=
  let byte i := decimal (addr.sin_addr i).toNat
  byte 0 ++ ascii "." ++ byte 1 ++ ascii "." ++ byte 2 ++ ascii "." ++ byte 3 ++ ascii ":" ++
    decimal addr.sin_port.toNat

/-- The name that a connection has in the table; `snprintf` keeps 31 bytes of what follows
`m_strName`. -/
def strConnName (m_strName : Bytes) (peerAdder : SocketAddr) (m_nNextConnId : ℤ) : Bytes :=
  m_strName ++
    (ascii ":" ++ peerAdder.ToString ++ ascii "#" ++ signedDecimal m_nNextConnId).take 31

structure EventLoopThreadPool (Loop : Type) where
  m_baseLoop : Loop
  m_vecLoops : List Loop
  m_nNext : ℕ := 0
  next_lt : m_vecLoops ≠ [] → m_nNext < m_vecLoops.length

def EventLoopThreadPool.getNextLoop {Loop : Type} (pool : EventLoopThreadPool Loop) :
    Loop × EventLoopThreadPool Loop :=
  if h : pool.m_vecLoops = [] then (pool.m_baseLoop, pool)
  else
    have hlt := pool.next_lt h
    (pool.m_vecLoops[pool.m_nNext],
      { pool with
        m_nNext := if pool.m_vecLoops.length ≤ pool.m_nNext + 1 then 0 else pool.m_nNext + 1
        next_lt := by
          intro _
          split_ifs
          · exact List.length_pos_of_ne_nil h
          · omega })

/-- What `readv` answers: no bytes mean that the peer has closed, and a failure may be a temporary
one, as when there is nothing to read. -/
inductive ReadAnswer
  | reads (data : Bytes)
  | fails (temporary : Bool)
  deriving DecidableEq

/-- `m_InputBuffer.readFd` and what it returns, as an `int32_t`. -/
def readFd (buffer : Buffer) : ReadAnswer → ℤ × Buffer
  | .reads data => (wrap32 data.length, buffer.readFd data)
  | .fails _ => (-1, buffer)

structure TcpConnection (Loop : Type) where
  m_ptrLoop : Loop
  m_name : Bytes := []
  m_State : State := .kConnecting
  m_InputBuffer : Buffer := Buffer.new

/-- The functors that go through `queueInLoop`. -/
inductive Functor (Conn : Type)
  | connectEstablished (conn : Conn)
  | removeConnectionInLoop (conn : Conn)
  | connectDestroyed (conn : Conn)
  deriving DecidableEq

structure Server (Conn Loop : Type) where
  m_ptrLoop : Loop
  m_strName : Bytes
  m_ptrEventLoopThreadPool : EventLoopThreadPool Loop
  m_nNextConnId : ℤ
  m_mapConnections : Bytes → Option Conn := fun _ => none
  connections : Conn → TcpConnection Loop
  pollers : Loop → EPollPoller Conn := fun _ => {}
  /-- the channels of `m_vecActiveChannels` that are still to be handled -/
  active : Loop → List Conn := fun _ => []
  /-- `m_vecPendingFunctor` -/
  pending : Loop → List (Functor Conn) := fun _ => []
  /-- those that `doPendingFunctors` has swapped out and not run yet -/
  functors : Loop → List (Functor Conn) := fun _ => []
  accepted : List Conn := []
  /-- the connections that were closed by the peer or have failed -/
  ended : List Conn := []

/-- Before the first connection; the constructor of `Server` leaves `m_nNextConnId` as it is. -/
def Server.start {Conn Loop : Type} (m_ptrLoop : Loop) (m_vecLoops : List Loop)
    (m_strName : Bytes) (m_nNextConnId : ℤ) : Server Conn Loop where
  m_ptrLoop := m_ptrLoop
  m_strName := m_strName
  m_ptrEventLoopThreadPool := ⟨m_ptrLoop, m_vecLoops, 0, List.length_pos_of_ne_nil⟩
  m_nNextConnId := m_nNextConnId
  connections := fun _ => { m_ptrLoop := m_ptrLoop }

variable {Conn Loop : Type} [DecidableEq Conn] [DecidableEq Loop]

namespace Server

def getLoop (s : Server Conn Loop) (c : Conn) : Loop := (s.connections c).m_ptrLoop

/-- `m_nEvents` of the channel of `c`. -/
def nEvents (s : Server Conn Loop) (c : Conn) : BitVec 32 :=
  ((s.pollers (s.getLoop c)).channels c).nEvents

def setConnection (s : Server Conn Loop) (c : Conn) (conn : TcpConnection Loop) :
    Server Conn Loop :=
  { s with connections := update s.connections c conn }

def setState (s : Server Conn Loop) (c : Conn) (state : State) : Server Conn Loop :=
  s.setConnection c { s.connections c with m_State := state }

def setPoller (s : Server Conn Loop) (l : Loop) (poller : EPollPoller Conn) : Server Conn Loop :=
  { s with pollers := update s.pollers l poller }

def queueInLoop (s : Server Conn Loop) (l : Loop) (cb : Functor Conn) : Server Conn Loop :=
  { s with pending := update s.pending l (s.pending l ++ [cb]) }

variable (fd : Conn → ℤ)

/-- `enableReading`, `disableAll` and the like on the channel of `c`. -/
def change (call : InterestCall) (c : Conn) (s : Server Conn Loop) : Bool × Server Conn Loop :=
  let (done, poller) := call.run fd c (s.pollers (s.getLoop c))
  (done, s.setPoller (s.getLoop c) poller)

/-- `Channel::remove`. -/
def remove (c : Conn) (s : Server Conn Loop) : Server Conn Loop :=
  s.setPoller (s.getLoop c) ((s.pollers (s.getLoop c)).removeChannel fd c)

def connectDestroyed (c : Conn) (s : Server Conn Loop) : Server Conn Loop :=
  if (s.connections c).m_State = .kConnected then
    ((s.setState c .kDisconnected).change fd .disableAll c).2.remove fd c
  else s.remove fd c

def removeConnectionInLoop (c : Conn) (s : Server Conn Loop) : Server Conn Loop :=
  let name := (s.connections c).m_name
  if s.m_mapConnections name = none then s
  else
    { s with m_mapConnections := update s.m_mapConnections name none }.queueInLoop (s.getLoop c)
      (.connectDestroyed c)

/-- `removeConnection` in the thread of the loop `thread`. -/
def removeConnection (thread : Loop) (c : Conn) (s : Server Conn Loop) : Server Conn Loop :=
  if s.m_ptrLoop = thread then s.removeConnectionInLoop c
  else s.queueInLoop s.m_ptrLoop (.removeConnectionInLoop c)

/-- `handleClose`, also the error callback. The callback for new connections does nothing for one
that is not connected. -/
def handleClose (thread : Loop) (c : Conn) (s : Server Conn Loop) : Server Conn Loop :=
  if (s.connections c).m_State = .kDisconnected then s
  else ((s.setState c .kDisconnected).change fd .disableAll c).2.removeConnection thread c

def connectEstablished (thread : Loop) (c : Conn) (s : Server Conn Loop) : Server Conn Loop :=
  if (s.connections c).m_State ≠ .kConnecting then s
  else
    let (done, s) := (s.setState c .kConnected).change fd .enableReading c
    if done then s else s.handleClose fd thread c

/-- The name under which a connection from `peerAdder` would be entered now. -/
def nextName (s : Server Conn Loop) (peerAdder : SocketAddr) : Bytes :=
  strConnName s.m_strName peerAdder s.m_nNextConnId

/-- `newConnection` until the connection is handed to its loop. An entry under the same name is
overwritten. The connection that had it is destroyed with it, but goes on here: what is said of
connections that are served needs that none is replaced. -/
def enter (c : Conn) (peerAdder : SocketAddr) (s : Server Conn Loop) : Server Conn Loop :=
  let (nextLoop, pool) := s.m_ptrEventLoopThreadPool.getNextLoop
  { s with
    m_ptrEventLoopThreadPool := pool
    connections := update s.connections c { m_ptrLoop := nextLoop }
    m_nNextConnId := wrap32 (s.m_nNextConnId + 1)
    m_mapConnections := update s.m_mapConnections (s.nextName peerAdder) (some c)
    accepted := c :: s.accepted }

def newConnection (c : Conn) (peerAdder : SocketAddr) (s : Server Conn Loop) :
    Server Conn Loop :=
  let s := s.enter c peerAdder
  let nextLoop := s.getLoop c
  if nextLoop = s.m_ptrLoop then s.connectEstablished fd s.m_ptrLoop c
  else s.queueInLoop nextLoop (.connectEstablished c)

variable (onMessage : Conn → Buffer → Buffer)

def handleRead (c : Conn) (answer : ReadAnswer) (s : Server Conn Loop) : Server Conn Loop :=
  let conn := s.connections c
  let (nRead, buffer) := readFd conn.m_InputBuffer answer
  if nRead > 0 then s.setConnection c { conn with m_InputBuffer := onMessage c buffer }
  else s.setConnection c { conn with m_InputBuffer := buffer }

def errorEvents : BitVec 32 := XPOLLERR ||| XPOLLNVAL

def readEvents : BitVec 32 := XPOLLIN ||| XPOLLPRI ||| XPOLLRDHUP

/-- `Channel::HandleEvent`; the events are looked at again after each callback. The write callback
only writes to the socket. -/
def HandleEvent (thread : Loop) (c : Conn) (answer : ReadAnswer) (s : Server Conn Loop) :
    Server Conn Loop :=
  let s := if s.nEvents c &&& errorEvents ≠ 0 then s.handleClose fd thread c else s
  if s.nEvents c &&& readEvents ≠ 0 then s.handleRead onMessage c answer else s

def runFunctor (thread : Loop) (s : Server Conn Loop) : Functor Conn → Server Conn Loop
  | .connectEstablished c => s.connectEstablished fd thread c
  | .removeConnectionInLoop c => s.removeConnectionInLoop c
  | .connectDestroyed c => s.connectDestroyed fd c

/-- The event that is handled closes the connection or says that it has failed. -/
def Ends (s : Server Conn Loop) (c : Conn) (answer : ReadAnswer) : Prop :=
  s.nEvents c &&& errorEvents ≠ 0 ∨
    (s.nEvents c &&& readEvents ≠ 0 ∧ (answer = .reads [] ∨ answer = .fails false))

instance (s : Server Conn Loop) (c : Conn) (answer : ReadAnswer) : Decidable (s.Ends c answer) :=
  inferInstanceAs (Decidable (_ ∨ _))

/-- The active channel `c` of the loop `thread` is handled. -/
def handle (thread : Loop) (c : Conn) (answer : ReadAnswer) (rest : List Conn)
    (s : Server Conn Loop) : Server Conn Loop :=
  let handled := s.HandleEvent fd onMessage thread c answer
  { handled with
    active := update handled.active thread rest
    ended := if s.Ends c answer then c :: handled.ended else handled.ended }

section Fields
variable (s : Server Conn Loop) (c : Conn) (l l' : Loop) (fd : Conn → ℤ) (call : InterestCall)
  (poller : EPollPoller Conn) (conn : TcpConnection Loop)

omit [DecidableEq Loop] in
@[simp] theorem setConnection_self : (s.setConnection c conn).connections c = conn :=
  update_self _ _ _

omit [DecidableEq Conn] in
@[simp] theorem setPoller_self : (s.setPoller l poller).pollers l = poller := update_self _ _ _

theorem change_eq : s.change fd call c =
    ((call.run fd c (s.pollers (s.getLoop c))).1,
      s.setPoller (s.getLoop c) (call.run fd c (s.pollers (s.getLoop c))).2) := rfl

variable (addr : SocketAddr)

omit [DecidableEq Loop] in
theorem enter_map : (s.enter c addr).m_mapConnections =
    update s.m_mapConnections (s.nextName addr) (some c) := rfl

omit [DecidableEq Loop] in
@[simp] theorem enter_self : (s.enter c addr).connections c =
    { m_ptrLoop := s.m_ptrEventLoopThreadPool.getNextLoop.1 } := update_self _ _ _

variable {s c l l'}

omit [DecidableEq Loop] in
theorem enter_of_ne {c' : Conn} (h : c' ≠ c) :
    (s.enter c addr).connections c' = s.connections c' := update_of_ne h _ _

omit [DecidableEq Loop] in
theorem setConnection_of_ne {c' : Conn} (h : c' ≠ c) :
    (s.setConnection c conn).connections c' = s.connections c' := update_of_ne h _ _

omit [DecidableEq Conn] in
theorem setPoller_of_ne (h : l' ≠ l) : (s.setPoller l poller).pollers l' = s.pollers l' :=
  update_of_ne h _ _

end Fields

end Server

inductive NetEvent (Conn Loop : Type)
  | accept (c : Conn)
  | poll (l : Loop) (reports : List (EpollEvent Conn))
  | handleEvent (l : Loop) (c : Conn) (answer : ReadAnswer)
  | doPendingFunctors (l : Loop)
  | runFunctor (l : Loop) (cb : Functor Conn)

/-- A loop runs the functors that it has swapped out before it does anything else. -/
inductive NetStep (fd : Conn → ℤ) (peer : Conn → SocketAddr) (onMessage : Conn → Buffer → Buffer)
    (s : Server Conn Loop) : NetEvent Conn Loop → Server Conn Loop → Prop
  | accept (c : Conn) (hnew : c ∉ s.accepted) (hidle : s.functors s.m_ptrLoop = []) :
      NetStep fd peer onMessage s (.accept c) (s.newConnection fd c (peer c))
  | poll (l : Loop) (reports : List (EpollEvent Conn)) (hidle : s.functors l = [])
      (hhandled : s.active l = [])
      (hreports : ∀ report ∈ reports, Reportable fd (s.pollers l) report) :
      NetStep fd peer onMessage s (.poll l reports)
        { s with
          pollers := update s.pollers l (EPollPoller.fillActiveChannels fd reports (s.pollers l)).2
          active := update s.active l (EPollPoller.fillActiveChannels fd reports (s.pollers l)).1 }
  | handleEvent (l : Loop) (c : Conn) (answer : ReadAnswer) (rest : List Conn)
      (hidle : s.functors l = []) (hactive : s.active l = c :: rest) :
      NetStep fd peer onMessage s (.handleEvent l c answer) (s.handle fd onMessage l c answer rest)
  | doPendingFunctors (l : Loop) (hidle : s.functors l = []) (hhandled : s.active l = []) :
      NetStep fd peer onMessage s (.doPendingFunctors l)
        { s with
          pending := update s.pending l []
          functors := update s.functors l (s.pending l) }
  | runFunctor (l : Loop) (cb : Functor Conn) (rest : List (Functor Conn))
      (hfunctors : s.functors l = cb :: rest) :
      NetStep fd peer onMessage s (.runFunctor l cb)
        ({ s with functors := update s.functors l rest }.runFunctor fd l cb)

/-- All loops have run their pending functors. -/
def Server.Drained (s : Server Conn Loop) : Prop := ∀ l, s.pending l = [] ∧ s.functors l = []

/-- The table holds the live connections, and those that have ended are disconnected and not in
their poller. -/
structure Server.TracksLive (fd : Conn → ℤ) (s : Server Conn Loop) : Prop where
  table : ∀ c, (∃ name, s.m_mapConnections name = some c) ↔ c ∈ s.accepted ∧ c ∉ s.ended
  closed : ∀ c ∈ s.ended, (s.connections c).m_State = .kDisconnected ∧
    (s.pollers (s.getLoop c)).mapChannels (fd c) ≠ some c

end Yedis.Net
