import Yedis.Fifo
import Yedis.KeySpace
import Yedis.TcpConnection

/-!
# Connections, event loops and the consumer thread

The state that the loop threads and the consumer of `TaskManager` share, and one step
for each piece of their code between two changes of that state: the task deque with
its two locks, the pending functors of each loop, which are swapped out and run, and
the consumer, which holds the lock of the deque while it executes a command and sends
its reply.
-/

namespace Yedis

structure connAndCmd (Conn : Type) where
  conn : Conn
  vecCmd : List Bytes

/-- How far `consumer` has come; except for `waiting` it holds `m_mtx`. -/
inductive Consumer (Conn : Type)
  | waiting
  | taken (temp : connAndCmd Conn)
  | executed (conn : Conn) (srcbuf : Bytes)
  | sending (conn : Conn) (srcbuf : Bytes)
  | sent

inductive Thread (Loop : Type)
  | consumer
  | loop (l : Loop)
  deriving DecidableEq

def isInLoopThread {Loop : Type} (l : Loop) (thread : Thread Loop) : Prop := thread = .loop l

structure Server (Conn Loop : Type) where
  m_State : Conn → State
  m_deque : List (connAndCmd Conn) := []
  /-- the item of the thread that holds `m_itemCounterMtx` -/
  item : Option (connAndCmd Conn) := none
  consumer : Consumer Conn := .waiting
  store : YStore
  /-- `sendInLoop` calls in `m_vecPendingFunctor` -/
  pending : Loop → List (Conn × Bytes) := fun _ => []
  /-- those that `doPendingFunctors` has swapped out and not run yet -/
  functors : Loop → List (Conn × Bytes) := fun _ => []

def m_nMAxSize : ℕ := 30

inductive Event (Conn Loop : Type)
  | connectEstablished (conn : Conn)
  | handleClose (conn : Conn)
  | producerTask (item : connAndCmd Conn)
  | push_back (item : connAndCmd Conn)
  | front (item : connAndCmd Conn)
  | execCommand (item : connAndCmd Conn) (srcbuf : Bytes)
  | send (conn : Conn)
  | queueInLoop (conn : Conn)
  | sendInLoop (conn : Conn) (payload : Bytes)
  | pop_front
  | doPendingFunctors (l : Loop)

variable {Conn Loop : Type} [DecidableEq Conn] [DecidableEq Loop]

/-- A connection reads only when it has been established. -/
def Opened (state : State) : Prop := state = .kConnected ∨ state = .kDisconnected

inductive Server.Step (loopOf : Conn → Loop) (s : Server Conn Loop) :
    Event Conn Loop → Server Conn Loop → Prop
  | connectEstablished (conn : Conn) (h : s.m_State conn = .kConnecting) :
      Step loopOf s (.connectEstablished conn)
        { s with m_State := Function.update s.m_State conn .kConnected }
  | handleClose (conn : Conn) (h : s.m_State conn ≠ .kDisconnected) :
      Step loopOf s (.handleClose conn)
        { s with m_State := Function.update s.m_State conn .kDisconnected }
  | producerTask (item : connAndCmd Conn) (hlock : s.item = none)
      (hopen : Opened (s.m_State item.conn)) :
      Step loopOf s (.producerTask item) { s with item := some item }
  | push_back (item : connAndCmd Conn) (hitem : s.item = some item)
      (hlock : s.consumer = .waiting) (hfull : s.m_deque.length < m_nMAxSize) :
      Step loopOf s (.push_back item) { s with item := none, m_deque := s.m_deque ++ [item] }
  | front (temp : connAndCmd Conn) (rest : List (connAndCmd Conn)) (hlock : s.consumer = .waiting)
      (hdeque : s.m_deque = temp :: rest) :
      Step loopOf s (.front temp) { s with consumer := .taken temp }
  | execCommand (temp : connAndCmd Conn) (srcbuf : Bytes) (store : YStore)
      (htemp : s.consumer = .taken temp) (hexec : CallStep s.store ⟨temp.vecCmd, srcbuf⟩ store) :
      Step loopOf s (.execCommand temp srcbuf)
        { s with store := store, consumer := .executed temp.conn srcbuf }
  | send (conn : Conn) (srcbuf : Bytes) (hexec : s.consumer = .executed conn srcbuf)
      (hstate : s.m_State conn = .kConnected) :
      Step loopOf s (.send conn) { s with consumer := .sending conn srcbuf }
  | sendClosed (conn : Conn) (srcbuf : Bytes) (hexec : s.consumer = .executed conn srcbuf)
      (hstate : s.m_State conn ≠ .kConnected) :
      Step loopOf s (.send conn) { s with consumer := .sent }
  | queueInLoop (conn : Conn) (srcbuf : Bytes) (hsend : s.consumer = .sending conn srcbuf)
      (hthread : ¬ isInLoopThread (loopOf conn) .consumer) :
      Step loopOf s (.queueInLoop conn)
        { s with
          consumer := .sent
          pending := Function.update s.pending (loopOf conn)
            (s.pending (loopOf conn) ++ [(conn, srcbuf)]) }
  | sendInLoop (conn : Conn) (srcbuf : Bytes) (hsend : s.consumer = .sending conn srcbuf)
      (hthread : isInLoopThread (loopOf conn) .consumer) :
      Step loopOf s (.sendInLoop conn srcbuf) { s with consumer := .sent }
  | pop_front (hsent : s.consumer = .sent) :
      Step loopOf s .pop_front { s with consumer := .waiting, m_deque := s.m_deque.tail }
  | doPendingFunctors (l : Loop) (hdone : s.functors l = []) :
      Step loopOf s (.doPendingFunctors l)
        { s with
          pending := Function.update s.pending l []
          functors := Function.update s.functors l (s.pending l) }
  | runFunctor (l : Loop) (conn : Conn) (payload : Bytes) (rest : List (Conn × Bytes))
      (hfunctors : s.functors l = (conn, payload) :: rest) :
      Step loopOf s (.sendInLoop conn payload)
        { s with functors := Function.update s.functors l rest }

/-- No connection is established yet. -/
def Server.start (store : YStore) : Server Conn Loop where
  m_State := fun _ => .kConnecting
  store := store

end Yedis
