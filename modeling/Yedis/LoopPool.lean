import Yedis.LiveConnections
import Yedis.RoundRobin

/-!
# Loops take turns

`EventLoopThreadPool` from its construction on: `Init`, `Start` and `getNextLoop` in
any order. What the calls before say about the pool is read off their history. Once
started with some threads the pool gives their loops in turn, whatever `Init` and
`Start` are called for later, and never a place outside `m_vecLoops`. `Server` deals
its connections to the loops in this way, and each stays with its loop.
-/

namespace Yedis
open RoundRobin Runs

namespace EventLoopThreadPool

variable {Loop : Type}

structure Pool (Loop : Type) where
  m_baseLoop : Option Loop := none
  m_bStarted : Bool := false
  m_nThreadNumbers : ℤ := 0
  m_nNext : ℕ := 0
  m_vecLoops : List Loop := []

namespace Pool

def Init (self : Pool Loop) (baseLoop : Option Loop) (numThreads : ℤ) : Pool Loop :=
  { self with m_baseLoop := baseLoop, m_nThreadNumbers := numThreads }

/-- `startLoop` gives what `StartLoop` returns for each thread. -/
def Start (startLoop : ℕ → Loop) (self : Pool Loop) : Pool Loop :=
  if self.m_baseLoop.isNone then self
  else if self.m_bStarted then self
  else
    { self with
      m_bStarted := true
      m_vecLoops :=
        self.m_vecLoops ++ (List.range self.m_nThreadNumbers.toNat).map startLoop }

/-- `none` where `m_vecLoops` is read outside. -/
def getNextLoop (self : Pool Loop) : Option (Option Loop × Pool Loop) :=
  if ¬ self.m_bStarted then some (none, self)
  else if self.m_vecLoops = [] then some (self.m_baseLoop, self)
  else do
    let TempLoop ← self.m_vecLoops[self.m_nNext]?
    return (some TempLoop,
      { self with
        m_nNext := if self.m_vecLoops.length ≤ self.m_nNext + 1 then 0 else self.m_nNext + 1 })

end Pool

inductive PoolCall (Loop : Type)
  | Init (baseLoop : Option Loop) (numThreads : ℤ)
  | Start
  | getNextLoop (result : Option Loop)

inductive PoolStep (startLoop : ℕ → Loop) (s : Pool Loop) : PoolCall Loop → Pool Loop → Prop
  | Init (baseLoop : Option Loop) (numThreads : ℤ) :
      PoolStep startLoop s (.Init baseLoop numThreads) (s.Init baseLoop numThreads)
  | Start : PoolStep startLoop s .Start (s.Start startLoop)
  | getNextLoop {result : Option Loop} {s' : Pool Loop}
      (h : s.getNextLoop = some (result, s')) : PoolStep startLoop s (.getNextLoop result) s'

/-- What the last `Init` has set, in a history with the newest call first. -/
def lastInit : List (PoolCall Loop) → Option Loop × ℤ
  | [] => (none, 0)
  | .Init baseLoop numThreads :: _ => (baseLoop, numThreads)
  | _ :: calls => lastInit calls

/-- The number of threads with which the pool was started. -/
def startedWith : List (PoolCall Loop) → Option ℤ
  | [] => none
  | .Start :: calls =>
    (startedWith calls).or (if (lastInit calls).1.isSome then some (lastInit calls).2 else none)
  | _ :: calls => startedWith calls

/-- The calls of `getNextLoop` since then. -/
def turnsTaken : List (PoolCall Loop) → ℕ
  | [] => 0
  | .getNextLoop _ :: calls =>
    if (startedWith calls).isSome then turnsTaken calls + 1 else turnsTaken calls
  | _ :: calls => turnsTaken calls

/-- The loops of the threads with which the pool was started. -/
def startedLoops (startLoop : ℕ → Loop) (calls : List (PoolCall Loop)) : List Loop :=
  (List.range ((startedWith calls).getD 0).toNat).map startLoop

/-- The answer that the calls before lead to expect. -/
def expected (startLoop : ℕ → Loop) (calls : List (PoolCall Loop)) : Option Loop :=
  if startedWith calls = none then none
  else if startedLoops startLoop calls = [] then (lastInit calls).1
  else turn (startedLoops startLoop calls) (turnsTaken calls)

/-- The pool is as its history says. -/
structure Follows (startLoop : ℕ → Loop) (calls : List (PoolCall Loop)) (s : Pool Loop) : Prop where
  init : (s.m_baseLoop, s.m_nThreadNumbers) = lastInit calls
  started : s.m_bStarted = (startedWith calls).isSome
  loops : s.m_vecLoops = startedLoops startLoop calls
  next : s.m_vecLoops ≠ [] → s.m_nNext = turnsTaken calls % s.m_vecLoops.length
  before : startedWith calls = none → turnsTaken calls = 0 ∧ s.m_nNext = 0

section Steps
variable {startLoop : ℕ → Loop} {calls : List (PoolCall Loop)} {s s' : Pool Loop}
  {call : PoolCall Loop}

theorem Follows.getNextLoop (h : Follows startLoop calls s) : ∃ s',
    s.getNextLoop = some (expected startLoop calls, s') ∧
      Follows startLoop (.getNextLoop (expected startLoop calls) :: calls) s' := by
  obtain ⟨hinit, hstarted, hloops, hnext, hbefore⟩ := h
  cases hwith : startedWith calls with
  | none =>
      have hfalse : s.m_bStarted = false := by rw [hstarted, hwith]; rfl
      refine ⟨s, by simp [Pool.getNextLoop, hfalse, expected, hwith], hinit, hstarted, hloops, ?_, ?_⟩
      · intro hne
        rw [turnsTaken, hwith]
        exact hnext hne
      · intro _
        rw [turnsTaken, hwith]
        exact hbefore hwith
  | some n =>
      have htrue : s.m_bStarted = true := by rw [hstarted, hwith]; rfl
      have hsome : startedWith calls ≠ none := by simp [hwith]
      by_cases hempty : s.m_vecLoops = []
      · have hbase : s.m_baseLoop = (lastInit calls).1 := by rw [← hinit]
        refine ⟨s, ?_, hinit, hstarted, hloops, fun hne => absurd hempty hne,
          fun hnone => absurd hnone hsome⟩
        rw [Pool.getNextLoop, if_neg (by simp [htrue]), if_pos hempty, expected, if_neg hsome,
          ← hloops, if_pos hempty, hbase]
      · have hlt : s.m_nNext < s.m_vecLoops.length := by
          rw [hnext hempty]
          exact Nat.mod_lt _ (List.length_pos_of_ne_nil hempty)
        have hturn : turn s.m_vecLoops (turnsTaken calls) = some s.m_vecLoops[s.m_nNext] :=
          turn_eq (hnext hempty) hlt
        have htaken : turnsTaken (.getNextLoop (expected startLoop calls) :: calls) =
            turnsTaken calls + 1 := by
          rw [turnsTaken, hwith]
          rfl
        refine ⟨{ s with
            m_nNext := if s.m_vecLoops.length ≤ s.m_nNext + 1 then 0 else s.m_nNext + 1 },
          ?_, hinit, hstarted, hloops, fun _ => ?_, fun hnone => absurd hnone hsome⟩
        · rw [Pool.getNextLoop, if_neg (by simp [htrue]), if_neg hempty,
            List.getElem?_eq_getElem hlt, expected, if_neg hsome, ← hloops, if_neg hempty, hturn]
          rfl
        · rw [htaken, next_mod (List.length_pos_of_ne_nil hempty), ← hnext hempty]

theorem PoolStep.follows (hs : PoolStep startLoop s call s') (h : Follows startLoop calls s) :
    Follows startLoop (call :: calls) s' := by
  cases hs with
  | Init baseLoop numThreads => exact ⟨rfl, h.started, h.loops, h.next, h.before⟩
  | Start =>
      obtain ⟨hinit, hstarted, hloops, hnext, hbefore⟩ := h
      have hbase : s.m_baseLoop = (lastInit calls).1 := by rw [← hinit]
      have hthreads : s.m_nThreadNumbers = (lastInit calls).2 := by rw [← hinit]
      cases hwith : startedWith calls with
      | some n =>
          have hsame : startedWith (.Start :: calls) = startedWith calls := by
            rw [startedWith, hwith]
            rfl
          have hstart : s.Start startLoop = s := by
            rw [Pool.Start, hstarted, hwith]
            split_ifs with hnull hagain
            · rfl
            · rfl
            · exact absurd rfl hagain
          rw [hstart]
          refine ⟨hinit, by rw [hsame, hstarted], ?_, hnext, fun hnone => ?_⟩
          · rw [startedLoops, hsame]
            exact hloops
          · rw [hsame, hwith] at hnone
            cases hnone
      | none =>
          have hnone := hloops
          rw [startedLoops, hwith] at hnone
          cases hlast : (lastInit calls).1 with
          | none =>
              have hsame : startedWith (.Start :: calls) = none := by
                rw [startedWith, hwith, hlast]
                rfl
              have hstart : s.Start startLoop = s := by
                rw [Pool.Start, hbase, hlast]
                rfl
              rw [hstart]
              refine ⟨hinit, by rw [hsame, hstarted, hwith], ?_, hnext, fun _ => hbefore hwith⟩
              rw [startedLoops, hsame]
              exact hnone
          | some l =>
              have hnew : startedWith (.Start :: calls) = some s.m_nThreadNumbers := by
                rw [startedWith, hwith, hlast, hthreads]
                rfl
              obtain ⟨htaken, hzero⟩ := hbefore hwith
              have hstart : s.Start startLoop = { s with
                  m_bStarted := true
                  m_vecLoops := (List.range s.m_nThreadNumbers.toNat).map startLoop } := by
                rw [Pool.Start, hbase, hlast, hstarted, hwith, hnone]
                rfl
              rw [hstart]
              refine ⟨hinit, by rw [hnew]; rfl, ?_, fun _ => ?_, fun h => ?_⟩
              · rw [startedLoops, hnew]
                rfl
              · change s.m_nNext = turnsTaken calls % _
                rw [htaken, hzero, Nat.zero_mod]
              · rw [hnew] at h
                cases h
  | getNextLoop hget =>
      obtain ⟨s'', hget', hfollows⟩ := h.getNextLoop
      rw [hget', Option.some.injEq, Prod.mk.injEq] at hget
      rw [← hget.1, ← hget.2]
      exact hfollows

end Steps

theorem follows_of_run {startLoop : ℕ → Loop} {s : Pool Loop}
    {trace : List (Transition (Pool Loop) (PoolCall Loop))}
    (run : Run (PoolStep startLoop) {} trace s) : Follows startLoop (labels trace) s :=
  run.invariant_labels (P := Follows startLoop)
    ⟨rfl, rfl, rfl, fun h => absurd rfl h, fun _ => ⟨rfl, rfl⟩⟩ fun _ _ _ _ h hs => hs.follows h

/-- In every sequence of calls, `getNextLoop` answers null before the pool is started, and then the
loops of the threads it was started with in turn, or the base loop of the last `Init` if there
are none. It can always be called. -/
theorem pool_takes_turns {startLoop : ℕ → Loop} {s : Pool Loop}
    {trace : List (Transition (Pool Loop) (PoolCall Loop))}
    (run : Run (PoolStep startLoop) {} trace s) :
    (∀ later result earlier, labels trace = later ++ .getNextLoop result :: earlier →
      result =
        if startedWith earlier = none then none
        else if startedLoops startLoop earlier = [] then (lastInit earlier).1
        else turn (startedLoops startLoop earlier) (turnsTaken earlier)) ∧
    ∃ result s', PoolStep startLoop s (.getNextLoop result) s' := by
  constructor
  · intro later result earlier hsplit
    have hlabel := run.each_label (P := Follows startLoop)
      (Q := fun calls call => ∀ result, call = .getNextLoop result →
        result = expected startLoop calls)
      ⟨rfl, rfl, rfl, fun h => absurd rfl h, fun _ => ⟨rfl, rfl⟩⟩ ?_ hsplit
    · exact hlabel result rfl
    · rintro calls s call s' h hs
      refine ⟨hs.follows h, ?_⟩
      rintro result rfl
      cases hs with
      | getNextLoop hget =>
          obtain ⟨s'', hget', -⟩ := h.getNextLoop
          rw [hget', Option.some.injEq, Prod.mk.injEq] at hget
          exact hget.1.symm
  · obtain ⟨s', hget, -⟩ := (follows_of_run run).getNextLoop
    exact ⟨_, s', .getNextLoop hget⟩

/-- Two loops are given in turn. -/
theorem pool_takes_turns_two :
    ∃ (trace : List (Transition (Pool ℕ) (PoolCall ℕ))) (s : Pool ℕ),
      Run (PoolStep id) {} trace s ∧
      labels trace = [.getNextLoop (some 0), .getNextLoop (some 1), .getNextLoop (some 0), .Start,
        .Init (some 9) 2] ∧
      ∃ result s', PoolStep id s (.getNextLoop result) s' ∧ result = some 1 := by
  have r1 : Run (PoolStep id) {} _ _ := .next .start (.Init (some 9) 2)
  have r2 := r1.next .Start
  have r3 := r2.next (.getNextLoop rfl)
  have r4 := r3.next (.getNextLoop rfl)
  have r5 := r4.next (.getNextLoop rfl)
  obtain ⟨hanswers, result, s', hstep⟩ := pool_takes_turns r5
  refine ⟨_, _, r5, rfl, result, s', hstep, ?_⟩
  exact (pool_takes_turns (r5.next hstep)).1 [] result _ rfl

end EventLoopThreadPool

namespace Net
open Function

variable {Conn Loop : Type} [DecidableEq Conn] [DecidableEq Loop]

/-- No connection is accepted or given to another loop. -/
structure SameDeal (s s' : Server Conn Loop) : Prop where
  pool : s'.m_ptrEventLoopThreadPool = s.m_ptrEventLoopThreadPool
  accepted : s'.accepted = s.accepted
  getLoop : ∀ c, s'.getLoop c = s.getLoop c

namespace SameDeal
variable {s s' s'' : Server Conn Loop} {fd : Conn → ℤ} {onMessage : Conn → Buffer → Buffer}

omit [DecidableEq Conn] [DecidableEq Loop] in
theorem refl (s : Server Conn Loop) : SameDeal s s := ⟨rfl, rfl, fun _ => rfl⟩

omit [DecidableEq Conn] [DecidableEq Loop] in
theorem trans (h : SameDeal s s') (h' : SameDeal s' s'') : SameDeal s s'' :=
  ⟨h'.pool.trans h.pool, h'.accepted.trans h.accepted,
    fun c => (h'.getLoop c).trans (h.getLoop c)⟩

omit [DecidableEq Loop] in
theorem setConnection (c : Conn) {conn : TcpConnection Loop} (hloop : conn.m_ptrLoop = s.getLoop c) :
    SameDeal s (s.setConnection c conn) := by
  refine ⟨rfl, rfl, fun c' => ?_⟩
  by_cases hc : c' = c
  · rw [hc, Server.getLoop, Server.setConnection_self, hloop]
  · rw [Server.getLoop, Server.setConnection_of_ne conn hc, Server.getLoop]

omit [DecidableEq Loop] in
theorem setState (c : Conn) (state : State) : SameDeal s (s.setState c state) :=
  setConnection c rfl

theorem change (call : InterestCall) (c : Conn) : SameDeal s (s.change fd call c).2 :=
  ⟨rfl, rfl, fun _ => rfl⟩

theorem remove (c : Conn) : SameDeal s (s.remove fd c) := ⟨rfl, rfl, fun _ => rfl⟩

omit [DecidableEq Conn] in
theorem queueInLoop (l : Loop) (cb : Functor Conn) : SameDeal s (s.queueInLoop l cb) :=
  ⟨rfl, rfl, fun _ => rfl⟩

theorem connectDestroyed (c : Conn) : SameDeal s (s.connectDestroyed fd c) := by
  unfold Server.connectDestroyed
  split_ifs
  · exact ((setState c _).trans (change _ c)).trans (remove c)
  · exact remove c

omit [DecidableEq Conn] in
theorem removeConnectionInLoop (c : Conn) : SameDeal s (s.removeConnectionInLoop c) := by
  unfold Server.removeConnectionInLoop
  simp only
  split_ifs
  · exact refl s
  · exact ⟨rfl, rfl, fun _ => rfl⟩

omit [DecidableEq Conn] in
theorem removeConnection (thread : Loop) (c : Conn) : SameDeal s (s.removeConnection thread c) := by
  unfold Server.removeConnection
  split_ifs
  · exact removeConnectionInLoop c
  · exact queueInLoop _ _

theorem handleClose (thread : Loop) (c : Conn) : SameDeal s (s.handleClose fd thread c) := by
  unfold Server.handleClose
  split_ifs
  · exact refl s
  · exact ((setState c _).trans (change _ c)).trans (removeConnection thread c)

theorem connectEstablished (thread : Loop) (c : Conn) :
    SameDeal s (s.connectEstablished fd thread c) := by
  unfold Server.connectEstablished
  have hchange : SameDeal s ((s.setState c .kConnected).change fd .enableReading c).2 :=
    (setState c _).trans (change _ c)
  split_ifs
  · exact refl s
  · simp only
    split_ifs
    · exact hchange
    · exact hchange.trans (handleClose thread c)

omit [DecidableEq Loop] in
theorem handleRead (c : Conn) (answer : ReadAnswer) : SameDeal s (s.handleRead onMessage c answer) := by
  unfold Server.handleRead
  simp only
  split_ifs
  · exact setConnection c rfl
  · exact setConnection c rfl

theorem HandleEvent (thread : Loop) (c : Conn) (answer : ReadAnswer) :
    SameDeal s (s.HandleEvent fd onMessage thread c answer) := by
  unfold Server.HandleEvent
  simp only
  split_ifs
  · exact (handleClose thread c).trans (handleRead c answer)
  · exact handleClose thread c
  · exact handleRead c answer
  · exact refl s

theorem runFunctor (thread : Loop) (cb : Functor Conn) : SameDeal s (s.runFunctor fd thread cb) := by
  cases cb with
  | connectEstablished c => exact connectEstablished thread c
  | removeConnectionInLoop c => exact removeConnectionInLoop c
  | connectDestroyed c => exact connectDestroyed c

end SameDeal

/-- The loops of the first `k` connections. -/
def dealt (m_baseLoop : Loop) (m_vecLoops : List Loop) (k : ℕ) : List Loop :=
  if m_vecLoops = [] then List.replicate k m_baseLoop else turns m_vecLoops k

structure Dealt (m_baseLoop : Loop) (m_vecLoops : List Loop) (s : Server Conn Loop) : Prop where
  base : s.m_ptrEventLoopThreadPool.m_baseLoop = m_baseLoop
  loops : s.m_ptrEventLoopThreadPool.m_vecLoops = m_vecLoops
  next : m_vecLoops ≠ [] →
    s.m_ptrEventLoopThreadPool.m_nNext = s.accepted.length % m_vecLoops.length
  loopOf : s.accepted.reverse.map s.getLoop = dealt m_baseLoop m_vecLoops s.accepted.length

section Runs
variable {m_ptrLoop : Loop} {m_vecLoops : List Loop} {m_strName : Bytes} {id : ℤ}
  {fd : Conn → ℤ} {peer : Conn → SocketAddr} {onMessage : Conn → Buffer → Buffer}
  {s s' : Server Conn Loop} {e : NetEvent Conn Loop}

omit [DecidableEq Conn] [DecidableEq Loop] in
theorem SameDeal.dealt (h : SameDeal s s') (hs : Dealt m_ptrLoop m_vecLoops s) :
    Dealt m_ptrLoop m_vecLoops s' := by
  obtain ⟨hbase, hloops, hnext, hloopOf⟩ := hs
  have hsame : s'.getLoop = s.getLoop := funext h.getLoop
  refine ⟨by rw [h.pool, hbase], by rw [h.pool, hloops], ?_, ?_⟩
  · rw [h.pool, h.accepted]
    exact hnext
  · rw [h.accepted, hsame]
    exact hloopOf

omit [DecidableEq Loop] in
theorem Dealt.enter (hs : Dealt m_ptrLoop m_vecLoops s) {c : Conn} (hnew : c ∉ s.accepted)
    (addr : SocketAddr) : Dealt m_ptrLoop m_vecLoops (s.enter c addr) := by
  obtain ⟨hbase, hloops, hnext, hloopOf⟩ := hs
  have hold : s.accepted.reverse.map (s.enter c addr).getLoop = s.accepted.reverse.map s.getLoop := by
    apply List.map_congr_left
    intro c' hc'
    have hne : c' ≠ c := by
      rintro rfl
      exact hnew (List.mem_reverse.mp hc')
    rw [Server.getLoop, Server.enter_of_ne addr hne, Server.getLoop]
  have hc : (s.enter c addr).getLoop c = s.m_ptrEventLoopThreadPool.getNextLoop.1 := by
    rw [Server.getLoop, Server.enter_self]
  have hpool : (s.enter c addr).m_ptrEventLoopThreadPool =
      s.m_ptrEventLoopThreadPool.getNextLoop.2 := rfl
  have hall : (s.enter c addr).accepted.reverse.map (s.enter c addr).getLoop =
      dealt m_ptrLoop m_vecLoops s.accepted.length ++
        [s.m_ptrEventLoopThreadPool.getNextLoop.1] := by
    change (c :: s.accepted).reverse.map _ = _
    rw [List.reverse_cons, List.map_append, hold, hloopOf, List.map_singleton, hc]
  have hlen : (s.enter c addr).accepted.length = s.accepted.length + 1 := rfl
  by_cases hempty : s.m_ptrEventLoopThreadPool.m_vecLoops = []
  · rw [EventLoopThreadPool.getNextLoop, dif_pos hempty] at hpool hall
    rw [hloops] at hempty
    refine ⟨by rw [hpool, hbase], by rw [hpool, hloops], fun hne => absurd hempty hne, ?_⟩
    rw [hall, hlen, dealt, dealt, if_pos hempty, if_pos hempty, hbase, List.replicate_succ']
  · rw [EventLoopThreadPool.getNextLoop, dif_neg hempty] at hpool hall
    have hlt := s.m_ptrEventLoopThreadPool.next_lt hempty
    have hpos := List.length_pos_of_ne_nil hempty
    have hne : m_vecLoops ≠ [] := hloops ▸ hempty
    have hturn : turn m_vecLoops s.accepted.length =
        some s.m_ptrEventLoopThreadPool.m_vecLoops[s.m_ptrEventLoopThreadPool.m_nNext] := by
      rw [← hloops]
      apply turn_eq
      rw [hnext hne, hloops]
    refine ⟨by rw [hpool, ← hbase], by rw [hpool, ← hloops], fun _ => ?_, ?_⟩
    · rw [hpool, hlen]
      simp only
      rw [hnext hne, hloops, next_mod (by rw [← hloops]; exact hpos)]
    · rw [hall, hlen, dealt, dealt, if_neg hne, if_neg hne, turns_succ hturn]

theorem NetStep.dealt (h : NetStep fd peer onMessage s e s') (hs : Dealt m_ptrLoop m_vecLoops s) :
    Dealt m_ptrLoop m_vecLoops s' := by
  cases h with
  | accept c hnew hidle =>
      have henter := hs.enter hnew (peer c)
      unfold Server.newConnection
      simp only
      split_ifs
      · exact (SameDeal.connectEstablished _ c).dealt henter
      · exact (SameDeal.queueInLoop _ _).dealt henter
  | poll l reports hidle hhandled hreports =>
      exact SameDeal.dealt (s := s) ⟨rfl, rfl, fun _ => rfl⟩ hs
  | handleEvent l c answer rest hidle hactive =>
      have hsame : SameDeal s (s.HandleEvent fd onMessage l c answer) :=
        SameDeal.HandleEvent l c answer
      exact SameDeal.dealt (s := s.HandleEvent fd onMessage l c answer) ⟨rfl, rfl, fun _ => rfl⟩
        (hsame.dealt hs)
  | doPendingFunctors l hidle hhandled =>
      exact SameDeal.dealt (s := s) ⟨rfl, rfl, fun _ => rfl⟩ hs
  | runFunctor l cb rest hfunctors =>
      apply (SameDeal.runFunctor l cb).dealt
      exact SameDeal.dealt (s := s) ⟨rfl, rfl, fun _ => rfl⟩ hs

/-- In every run the connections, in the order in which they were accepted, have the loops of the
pool in turn, or the loop of the server if the pool has none, and keep them; two loops never
differ by more than one in the number of connections they were given. -/
theorem connections_dealt_in_turn {trace : List (Transition (Server Conn Loop) (NetEvent Conn Loop))}
    (run : Run (NetStep fd peer onMessage)
      (Server.start m_ptrLoop m_vecLoops m_strName id) trace s) :
    s.accepted.reverse.map s.getLoop =
      (if m_vecLoops = [] then List.replicate s.accepted.length m_ptrLoop
        else turns m_vecLoops s.accepted.length) ∧
    (m_vecLoops.Nodup → ∀ (i j : ℕ) (hi : i < m_vecLoops.length) (hj : j < m_vecLoops.length),
      (s.accepted.map s.getLoop).count m_vecLoops[i] ≤
        (s.accepted.map s.getLoop).count m_vecLoops[j] + 1) := by
  have hs : Dealt m_ptrLoop m_vecLoops s := by
    refine run.invariant (P := Dealt m_ptrLoop m_vecLoops) ?_ fun _ _ _ hs h => h.dealt hs
    refine ⟨rfl, rfl, fun _ => (Nat.zero_mod _).symm, ?_⟩
    rw [dealt]
    split_ifs <;> rfl
  refine ⟨hs.loopOf, fun hnodup i j hi hj => ?_⟩
  have hne : m_vecLoops ≠ [] := List.length_pos_iff.mp (by omega)
  have hcount : ∀ l, (s.accepted.map s.getLoop).count l =
      (turns m_vecLoops s.accepted.length).count l := by
    intro l
    have hloopOf := hs.loopOf
    rw [dealt, if_neg hne, List.map_reverse] at hloopOf
    rw [← hloopOf, List.count_reverse]
  rw [hcount, hcount]
  exact count_turns_le hnodup hi hj _

end Runs

/-- Two connections for two loops. -/
theorem connections_dealt_in_turn_two :
    ∃ trace s, Run (NetStep (fun c => if c then 6 else 5) (fun _ => localhost 4000) keep)
        (Server.start false [false, true] (ascii "YedisServer") 0) trace s ∧
      labels trace = [.accept true, .accept false] ∧
      s.getLoop false = false ∧ s.getLoop true = true := by
  have run₀ : Run (NetStep (fun c : Bool => if c then 6 else 5) (fun _ => localhost 4000) keep)
    (Server.start false [false, true] (ascii "YedisServer") 0) [] _ := .start
  have run₁ := run₀.next (.accept false (by decide) rfl)
  have run₂ := run₁.next (.accept true (by decide) rfl)
  have hdealt := (connections_dealt_in_turn run₂).1
  change [_, _] = [false, true] at hdealt
  obtain ⟨hfirst, hsecond⟩ := List.cons_eq_cons.mp hdealt
  exact ⟨_, _, run₂, rfl, hfirst, (List.cons_eq_cons.mp hsecond).1⟩

end Net

end Yedis
