import Yedis.ConnectionNames
import Yedis.LoopEffects
import Yedis.LoopPool

/-!
# The whole program

The event loops with their connections, the sessions that `YedisServer::onConnection`
makes for them, the task queue with its consumer, and the store. A connection is read
by its own session from its first byte on, so what holds of clients and the task queue
holds from the acceptance of a connection to the replies that `sendInLoop` writes.
-/

namespace Yedis
open Fifo Function Runs

/-- What `m_MessageCallback` of a connection is bound to; a session has the connection that it was
made for. -/
inductive MessageCallback (Conn : Type)
  | defaultMessageCallback
  | onRead (m_weakPtrTempConn : Conn)

/-- The functors in `m_vecPendingFunctor`, those of connections and the calls of `sendInLoop`. -/
inductive FunctorKind
  | connection
  | sendInLoop
  deriving DecidableEq

structure Program (Conn Loop : Type) where
  /-- the loops, with the functors of connections among theirs -/
  net : Net.Server Conn Loop
  m_MessageCallback : Conn → MessageCallback Conn := fun _ => .defaultMessageCallback
  m_listSessions : List Conn := []
  /-- the parameters with which a loop thread is in `onRead` -/
  reading : Loop → Option (connAndCmd Conn) := fun _ => none
  m_deque : List (connAndCmd Conn) := []
  /-- the item of the thread that holds `m_itemCounterMtx` -/
  item : Option (connAndCmd Conn) := none
  consumer : Consumer Conn := .waiting
  store : YStore
  /-- the calls of `sendInLoop` among the pending functors -/
  sends : Loop → List (Conn × Bytes) := fun _ => []
  /-- those among the functors swapped out -/
  sending : Loop → List (Conn × Bytes) := fun _ => []
  /-- in which order the pending functors of both kinds are queued -/
  order : Loop → List FunctorKind := fun _ => []
  /-- in which order those swapped out are to run -/
  running : Loop → List FunctorKind := fun _ => []

variable {Conn Loop : Type} [DecidableEq Conn] [DecidableEq Loop]

namespace Net.Server

/-- `connectEstablished` comes to the callback for new connections. -/
def Establishes (fd : Conn → ℤ) (c : Conn) (s : Net.Server Conn Loop) : Prop :=
  (s.connections c).m_State = .kConnecting ∧
    ((s.setState c .kConnected).change fd .enableReading c).1 = true

instance (fd : Conn → ℤ) (c : Conn) (s : Net.Server Conn Loop) : Decidable (s.Establishes fd c) :=
  inferInstanceAs (Decidable (_ ∧ _))

end Net.Server

namespace Program

/-- The server from the task queue on. -/
def server (s : Program Conn Loop) : Server Conn Loop where
  m_State c := (s.net.connections c).m_State
  m_deque := s.m_deque
  item := s.item
  consumer := s.consumer
  store := s.store
  pending := s.sends
  functors := s.sending

def withServer (s : Program Conn Loop) (server : Server Conn Loop) : Program Conn Loop :=
  { s with
    m_deque := server.m_deque
    item := server.item
    consumer := server.consumer
    store := server.store
    sends := server.pending
    sending := server.functors }

/-- The loops go on to `net`, and the functors that they queue come behind the others. -/
def withNet (s : Program Conn Loop) (net : Net.Server Conn Loop) : Program Conn Loop :=
  { s with
    net := net
    order := fun l => s.order l ++
      List.replicate ((net.pending l).length - (s.net.pending l).length) .connection }

/-- `YedisServer::onConnection` for a connection that is connected. -/
def onConnection (c : Conn) (s : Program Conn Loop) : Program Conn Loop :=
  { s with
    m_MessageCallback := update s.m_MessageCallback c (.onRead c)
    m_listSessions := s.m_listSessions ++ [c] }

/-- `connectEstablished` was called in `net`. -/
def established (fd : Conn → ℤ) (net : Net.Server Conn Loop) (c : Conn) (s : Program Conn Loop) :
    Program Conn Loop :=
  if net.Establishes fd c then s.onConnection c else s

/-- The callbacks of `newConnection`, where the connection has been entered into `net`. -/
def accepted (fd : Conn → ℤ) (net : Net.Server Conn Loop) (c : Conn) (s : Program Conn Loop) :
    Program Conn Loop :=
  let s := { s with
    m_MessageCallback := update s.m_MessageCallback c .defaultMessageCallback }
  if net.getLoop c = net.m_ptrLoop then s.established fd net c else s

def ranFunctor (fd : Conn → ℤ) (net : Net.Server Conn Loop) (s : Program Conn Loop) :
    Net.Functor Conn → Program Conn Loop
  | .connectEstablished c => s.established fd net c
  | _ => s

/-- The thread of the loop is neither in `onRead` nor among its functors. -/
def Idle (s : Program Conn Loop) (l : Loop) : Prop := s.reading l = none ∧ s.sending l = []

end Program

inductive ProgramEvent (Conn Loop : Type)
  | loop (e : Net.NetEvent Conn Loop)
  | message (c : Conn) (data : Bytes) (callback : MessageCallback Conn)
  | task (e : Event Conn Loop)

/-- No connection is stored under the key of another one, which only its entry keeps alive. -/
def ProgramEvent.ReplacesNone (peer : Conn → Net.SocketAddr) (s : Program Conn Loop) :
    ProgramEvent Conn Loop → Prop
  | loop e => s.net.ReplacesNone peer e
  | _ => True

/-- The steps of the consumer but for the call of `queueInLoop`. -/
def Event.OfConsumer : Event Conn Loop → Prop
  | front _ => True
  | execCommand _ _ => True
  | send _ => True
  | pop_front => True
  | _ => False

theorem Event.OfConsumer.ne {Conn Loop : Type} {e : Event Conn Loop} (h : e.OfConsumer) :
    (∀ item, e ≠ .producerTask item) ∧ (∀ item, e ≠ .push_back item) ∧
      (∀ c, e ≠ .connectEstablished c) ∧ (∀ c, e ≠ .handleClose c) ∧ ∀ c, e ≠ .queueInLoop c := by
  refine ⟨?_, ?_, ?_, ?_, ?_⟩
  all_goals
    rintro x rfl
    exact h

open Net in
inductive Program.Step (fd : Conn → ℤ) (peer : Conn → SocketAddr) (s : Program Conn Loop) :
    ProgramEvent Conn Loop → Program Conn Loop → Prop
  | accept (c : Conn) {net : Net.Server Conn Loop} (hidle : s.Idle s.net.m_ptrLoop)
      (h : NetStep fd peer retrieveAll s.net (.accept c) net) :
      Step fd peer s (.loop (.accept c))
        ((s.withNet net).accepted fd (s.net.enter c (peer c)) c)
  | poll (l : Loop) (reports : List (EpollEvent Conn)) {net : Net.Server Conn Loop}
      (hidle : s.Idle l) (h : NetStep fd peer retrieveAll s.net (.poll l reports) net) :
      Step fd peer s (.loop (.poll l reports)) (s.withNet net)
  | handleEvent (l : Loop) (c : Conn) (answer : ReadAnswer) {net : Net.Server Conn Loop}
      (hidle : s.Idle l) (hanswer : answer.InRange)
      (h : NetStep fd peer retrieveAll s.net (.handleEvent l c answer) net)
      (hsilent : s.net.delivers fd l c answer = none) :
      Step fd peer s (.loop (.handleEvent l c answer)) (s.withNet net)
  | onRead (l : Loop) (c : Conn) (data : Bytes) {net : Net.Server Conn Loop} {buffer : Buffer}
      {session : Conn} {vecCmd : List Bytes} {rest : Buffer} (hidle : s.Idle l)
      (hanswer : (ReadAnswer.reads data).InRange)
      (h : NetStep fd peer retrieveAll s.net (.handleEvent l c (.reads data)) net)
      (hdelivers : s.net.delivers fd l c (.reads data) = some buffer)
      (hcallback : s.m_MessageCallback c = .onRead session)
      (hparse : Yedis.onRead buffer = .ok (vecCmd, rest)) :
      Step fd peer s (.message c data (.onRead session))
        { s.withNet net with reading := update s.reading l (some ⟨session, vecCmd⟩) }
  | defaultMessageCallback (l : Loop) (c : Conn) (data : Bytes) {net : Net.Server Conn Loop}
      {buffer : Buffer} (hidle : s.Idle l) (hanswer : (ReadAnswer.reads data).InRange)
      (h : NetStep fd peer retrieveAll s.net (.handleEvent l c (.reads data)) net)
      (hdelivers : s.net.delivers fd l c (.reads data) = some buffer)
      (hcallback : s.m_MessageCallback c = .defaultMessageCallback) :
      Step fd peer s (.message c data .defaultMessageCallback) (s.withNet net)
  | doPendingFunctors (l : Loop) {net : Net.Server Conn Loop} (hidle : s.Idle l)
      (h : NetStep fd peer retrieveAll s.net (.doPendingFunctors l) net) :
      Step fd peer s (.loop (.doPendingFunctors l))
        { s with
          net := net
          sends := update s.sends l []
          sending := update s.sending l (s.sends l)
          order := update s.order l []
          running := update s.running l (s.order l) }
  | runFunctor (l : Loop) (cb : Net.Functor Conn) {net : Net.Server Conn Loop}
      {rest : List FunctorKind} (hreading : s.reading l = none)
      (hrunning : s.running l = .connection :: rest)
      (h : NetStep fd peer retrieveAll s.net (.runFunctor l cb) net) :
      Step fd peer s (.loop (.runFunctor l cb))
        ({ s.withNet net with running := update s.running l rest }.ranFunctor fd s.net cb)
  | sendInLoop (l : Loop) (c : Conn) (payload : Bytes) {behind : List (Conn × Bytes)}
      {rest : List FunctorKind} (hreading : s.reading l = none)
      (hrunning : s.running l = .sendInLoop :: rest)
      (hsending : s.sending l = (c, payload) :: behind) :
      Step fd peer s (.task (.sendInLoop c payload))
        { s with
          sending := update s.sending l behind
          running := update s.running l rest }
  | producerTask (item : connAndCmd Conn) {server : Server Conn Loop}
      (hreading : s.reading (s.net.getLoop item.conn) = some item)
      (h : s.server.Step s.net.getLoop (.producerTask item) server) :
      Step fd peer s (.task (.producerTask item)) (s.withServer server)
  | push_back (item : connAndCmd Conn) {server : Server Conn Loop}
      (h : s.server.Step s.net.getLoop (.push_back item) server) :
      Step fd peer s (.task (.push_back item))
        { s.withServer server with
          reading := update s.reading (s.net.getLoop item.conn) none }
  | consumer (e : Event Conn Loop) {server : Server Conn Loop} (he : e.OfConsumer)
      (h : s.server.Step s.net.getLoop e server) :
      Step fd peer s (.task e) (s.withServer server)
  | queueInLoop (c : Conn) {server : Server Conn Loop}
      (h : s.server.Step s.net.getLoop (.queueInLoop c) server) :
      Step fd peer s (.task (.queueInLoop c))
        { s.withServer server with
          order := update s.order (s.net.getLoop c)
            (s.order (s.net.getLoop c) ++ [.sendInLoop]) }

/-- `main`, before the first event. -/
def Program.start (m_ptrLoop : Loop) (m_vecLoops : List Loop) (m_nNextConnId : ℤ)
    (store : YStore) : Program Conn Loop where
  net := .start m_ptrLoop m_vecLoops (ascii "YedisServer") m_nNextConnId
  store := store

/-! ### Sessions -/

/-- Of the connections that have been established each has its session, which gets its messages,
and no other has one. -/
structure Wired (fd : Conn → ℤ) (s : Program Conn Loop) : Prop where
  sound : s.net.Sound fd
  opened : s.net.OpenedInPollers
  empty : s.net.BuffersEmpty
  fresh : ∀ c, c ∉ s.net.accepted → s.net.states c = .kConnecting
  callback : ∀ c, Opened (s.net.states c) → s.m_MessageCallback c = .onRead c
  listed : ∀ c, c ∈ s.m_listSessions ↔ Opened (s.net.states c)
  nodup : s.m_listSessions.Nodup

section Sessions
variable {fd : Conn → ℤ} {peer : Conn → Net.SocketAddr} {s s' : Program Conn Loop}
  {net : Net.Server Conn Loop} {m_State : Conn → State} {c : Conn}

theorem not_opened_kConnecting : ¬ Opened .kConnecting := by
  rintro (h | h) <;> cases h

omit [DecidableEq Conn] [DecidableEq Loop] in
theorem wired_start (fd : Conn → ℤ) (m_ptrLoop : Loop) (m_vecLoops : List Loop) (id : ℤ)
    (store : YStore) : Wired fd (.start m_ptrLoop m_vecLoops id store : Program Conn Loop) where
  sound := .start fd m_ptrLoop m_vecLoops _ id
  opened _ _ h := absurd rfl h
  empty _ := Buffer.readable_new
  fresh _ _ := rfl
  callback _ h := absurd h not_opened_kConnecting
  listed _ := iff_of_false List.not_mem_nil not_opened_kConnecting
  nodup := List.nodup_nil

omit [DecidableEq Conn] [DecidableEq Loop] in
/-- No connection is established. -/
theorem Wired.keep (h : Wired fd s) (hsound : s'.net.Sound fd)
    (hmoves : s.net.Moves s'.net m_State)
    (haccepted : ∀ c ∈ s.net.accepted, c ∈ s'.net.accepted)
    (hstates : ∀ c, m_State c = s.net.states c ∨
      c ∈ s.net.accepted ∧ Opened (s.net.states c) ∧ Opened (m_State c))
    (hcallback : ∀ c, Opened (s.net.states c) → s'.m_MessageCallback c = s.m_MessageCallback c)
    (hlist : s'.m_listSessions = s.m_listSessions) : Wired fd s' := by
  have hnew : s'.net.states = m_State := funext hmoves.states
  have hopened : ∀ c, Opened (s'.net.states c) ↔ Opened (s.net.states c) := by
    intro c
    rw [hnew]
    rcases hstates c with hsame | ⟨-, hold, hnow⟩
    · rw [hsame]
    · exact iff_of_true hnow hold
  refine ⟨hsound, hmoves.opened h.opened, hmoves.empty h.empty, fun c hc => ?_, fun c hc => ?_,
    fun c => ?_, hlist ▸ h.nodup⟩
  · rw [hnew]
    have hold : c ∉ s.net.accepted := fun hmem => hc (haccepted c hmem)
    rcases hstates c with hsame | ⟨hmem, -⟩
    · rw [hsame]
      exact h.fresh c hold
    · exact absurd hmem hold
  · rw [hopened] at hc
    rw [hcallback c hc]
    exact h.callback c hc
  · rw [hlist, hopened]
    exact h.listed c

omit [DecidableEq Loop] in
theorem Wired.establish (h : Wired fd s) (hsound : s'.net.Sound fd)
    (hmoves : s.net.Moves s'.net (update s.net.states c .kConnected))
    (haccepted : ∀ c' ∈ s.net.accepted, c' ∈ s'.net.accepted) (hc : c ∈ s'.net.accepted)
    (hconnecting : s.net.states c = .kConnecting)
    (hself : s'.m_MessageCallback c = .onRead c)
    (hcallback : ∀ c', c' ≠ c → s'.m_MessageCallback c' = s.m_MessageCallback c')
    (hlist : s'.m_listSessions = s.m_listSessions ++ [c]) : Wired fd s' := by
  have hnew : s'.net.states = update s.net.states c .kConnected := funext hmoves.states
  have hunlisted : c ∉ s.m_listSessions := by
    rw [h.listed, hconnecting]
    exact not_opened_kConnecting
  refine ⟨hsound, hmoves.opened h.opened, hmoves.empty h.empty, fun c' hc' => ?_, fun c' hc' => ?_,
    fun c' => ?_, ?_⟩
  · have hne : c' ≠ c := fun heq => hc' (heq ▸ hc)
    rw [hnew, update_of_ne hne]
    exact h.fresh c' fun hmem => hc' (haccepted c' hmem)
  · by_cases heq : c' = c
    · rw [heq, hself]
    · rw [hnew, update_of_ne heq] at hc'
      rw [hcallback c' heq]
      exact h.callback c' hc'
  · rw [hlist, List.mem_append, List.mem_singleton, hnew]
    by_cases heq : c' = c
    · rw [heq, update_self]
      exact iff_of_true (Or.inr rfl) (Or.inl rfl)
    · rw [update_of_ne heq, or_iff_left heq]
      exact h.listed c'
  · rw [hlist]
    refine h.nodup.append (List.nodup_singleton c) ?_
    rwa [List.disjoint_singleton]

theorem establishes_iff {net : Net.Server Conn Loop} (hfd : Injective fd) (h : net.Sound fd)
    (hc : c ∈ net.accepted) : net.Establishes fd c ↔ net.states c = .kConnecting := by
  have hset := h.setState c .kConnected
  have hchange := hset.sound.change hfd .enableReading (c := c) (by rwa [hset.accepted])
  exact and_iff_left hchange.1

omit [DecidableEq Conn] [DecidableEq Loop] in
/-- A connection whose events are handled has been established. -/
theorem Wired.active (h : Wired fd s) {l : Loop} {rest : List Conn}
    (hactive : s.net.active l = c :: rest) :
    c ∈ s.net.accepted ∧ s.net.getLoop c = l ∧ Opened (s.net.states c) := by
  have hindex := h.sound.active l c (by
    rw [hactive]
    exact List.mem_cons_self)
  obtain ⟨haccepted, hloop⟩ := h.sound.owned l c hindex
  exact ⟨haccepted, hloop, h.opened l c hindex⟩

omit [DecidableEq Conn] [DecidableEq Loop] in
theorem Wired.same (h : Wired fd s) (hnet : s'.net = s.net)
    (hcallback : s'.m_MessageCallback = s.m_MessageCallback)
    (hlist : s'.m_listSessions = s.m_listSessions) : Wired fd s' := by
  have hmoves : s.net.Moves s'.net s.net.states := hnet ▸ .refl s.net
  exact h.keep (hnet ▸ h.sound) hmoves (fun _ hc => hnet ▸ hc) (fun _ => Or.inl rfl)
    (fun c _ => by rw [hcallback]) hlist

/-- What an event of a connection does to the states. -/
theorem Wired.moves_handle (h : Wired fd s) (hfd : Injective fd) {l : Loop} {rest : List Conn}
    {answer : Net.ReadAnswer} (hactive : s.net.active l = c :: rest) (hanswer : answer.InRange) :
    s.net.Moves (s.net.handle fd Net.retrieveAll l c answer rest)
      (if s.net.nEvents c &&& Net.Server.errorEvents ≠ 0 then
        update s.net.states c .kDisconnected
      else s.net.states) :=
  (Net.Server.moves_HandleEvent hfd h.sound l (h.active hactive).1 hanswer).handle

theorem Wired.handle (h : Wired fd s) (hfd : Injective fd) {l : Loop} {rest : List Conn}
    {answer : Net.ReadAnswer} (hactive : s.net.active l = c :: rest) (hanswer : answer.InRange)
    (hnet : s'.net = s.net.handle fd Net.retrieveAll l c answer rest)
    (hcallback : s'.m_MessageCallback = s.m_MessageCallback)
    (hlist : s'.m_listSessions = s.m_listSessions) : Wired fd s' := by
  have hkept := h.sound.handled hfd Net.retrieveAll hactive answer
  have haccepted : s'.net.accepted = s.net.accepted := by
    rw [hnet]
    exact hkept.accepted
  obtain ⟨hc, -, hopened⟩ := h.active hactive
  have hmoves := h.moves_handle hfd hactive hanswer
  rw [← hnet] at hmoves
  refine h.keep (hnet ▸ h.sound.handle hfd hactive) hmoves (fun c hc => haccepted ▸ hc)
    (fun c' => ?_) (fun c' _ => by rw [hcallback]) hlist
  split_ifs
  · by_cases heq : c' = c
    · rw [heq, update_self]
      exact Or.inr ⟨hc, hopened, Or.inr rfl⟩
    · exact Or.inl (update_of_ne heq _ _)
  · exact Or.inl rfl

theorem Wired.accept (h : Wired fd s) (hfd : Injective fd) (hnew : c ∉ s.net.accepted)
    (addr : Net.SocketAddr) : Wired fd ((s.withNet (s.net.newConnection fd c addr)).accepted fd
      (s.net.enter c addr) c) := by
  have hkept := h.sound.newConnection hfd hnew addr
  have hconnecting := h.fresh c hnew
  have hmoves := Net.Server.moves_newConnection hfd h.sound hnew hconnecting addr
  have haccepted : (s.net.newConnection fd c addr).accepted = c :: s.net.accepted := hkept.accepted
  have hold : ∀ c' ∈ s.net.accepted, c' ∈ (s.net.newConnection fd c addr).accepted := by
    rw [haccepted]
    exact fun c' hc' => List.mem_cons_of_mem _ hc'
  have hc : c ∈ (s.net.newConnection fd c addr).accepted := by
    rw [haccepted]
    exact List.mem_cons_self
  have hestablishes : (s.net.enter c addr).Establishes fd c :=
    (establishes_iff hfd (h.sound.enter hnew addr) List.mem_cons_self).mpr (by
      rw [Net.Server.states, Net.Server.enter_self])
  have hloop : (s.net.enter c addr).m_ptrLoop = s.net.m_ptrLoop := rfl
  unfold Program.accepted Program.established
  simp only [hloop, if_pos hestablishes]
  split_ifs at hmoves ⊢ with hsame
  · refine h.establish hkept.sound hmoves hold hc hconnecting (update_self ..)
      (fun c' hne => ?_) rfl
    simp only [Program.onConnection, update_of_ne hne, Program.withNet]
  · refine h.keep hkept.sound hmoves hold (fun _ => Or.inl rfl) (fun c' hc' => ?_) rfl
    have hne : c' ≠ c := by
      rintro rfl
      rw [hconnecting] at hc'
      exact not_opened_kConnecting hc'
    simp only [update_of_ne hne, Program.withNet]

/-- What a functor does to the states, where it has been taken. -/
theorem Wired.moves_runFunctor (h : Wired fd s) (hfd : Injective fd) {l : Loop}
    {cb : Net.Functor Conn} {rest : List (Net.Functor Conn)}
    (hfunctors : s.net.functors l = cb :: rest) :
    Net.Server.Moves { s.net with functors := update s.net.functors l rest }
      ({ s.net with functors := update s.net.functors l rest }.runFunctor fd l cb)
      (s.net.statesAfter cb) := by
  obtain ⟨htaken, hspares⟩ := h.sound.taken hfunctors
  exact Net.Server.moves_runFunctor hfd htaken l hspares

theorem Wired.runFunctor (h : Wired fd s) (hfd : Injective fd) {l : Loop}
    {cb : Net.Functor Conn} {rest : List (Net.Functor Conn)}
    (hfunctors : s.net.functors l = cb :: rest)
    (hnet : s'.net = { s.net with functors := update s.net.functors l rest }.runFunctor fd l cb)
    (hcallback : s'.m_MessageCallback = s.m_MessageCallback)
    (hlist : s'.m_listSessions = s.m_listSessions) : Wired fd (s'.ranFunctor fd s.net cb) := by
  have hmoves := h.moves_runFunctor hfd hfunctors
  have hkept := h.sound.run hfd hfunctors
  obtain ⟨htaken, hspares⟩ := h.sound.taken hfunctors
  have hwired : Wired fd { s with net := { s.net with functors := update s.net.functors l rest } } :=
    ⟨htaken, h.opened, h.empty, h.fresh, h.callback, h.listed, h.nodup⟩
  rw [← hnet] at hmoves hkept
  have haccepted : ∀ c ∈ s.net.accepted, c ∈ s'.net.accepted := by
    rw [hkept.accepted]
    exact fun _ hc => hc
  obtain ⟨c, hc, rfl | rfl⟩ := hspares
  · unfold Program.ranFunctor Program.established
    unfold Net.Server.statesAfter at hmoves
    simp only [establishes_iff hfd h.sound hc] at hmoves ⊢
    split_ifs at hmoves ⊢ with hconnecting
    · refine hwired.establish hkept.sound hmoves haccepted (haccepted c hc) hconnecting
        (update_self ..) (fun c' hne => ?_) ?_
      · simp only [Program.onConnection, update_of_ne hne, hcallback]
      · simp only [Program.onConnection, hlist]
    · exact hwired.keep hkept.sound hmoves haccepted (fun _ => Or.inl rfl)
        (fun c' _ => congrFun hcallback c') hlist
  · exact hwired.keep hkept.sound hmoves haccepted (fun _ => Or.inl rfl)
      (fun c' _ => congrFun hcallback c') hlist

theorem Wired.step (h : Wired fd s) (hfd : Injective fd) {e : ProgramEvent Conn Loop}
    (hstep : s.Step fd peer e s') : Wired fd s' := by
  cases hstep with
  | accept c hidle hnet =>
      cases hnet with
      | accept _ hnew hloop => exact h.accept hfd hnew (peer c)
  | poll l reports hidle hnet =>
      cases hnet with
      | poll _ _ hloop hhandled hreports =>
          exact h.keep (h.sound.poll l reports) (Net.Server.moves_poll l reports)
            (fun _ hc => hc) (fun _ => Or.inl rfl) (fun _ _ => rfl) rfl
  | handleEvent l c answer hidle hanswer hnet hsilent =>
      cases hnet with
      | handleEvent _ _ _ rest hloop hactive => exact h.handle hfd hactive hanswer rfl rfl rfl
  | onRead l c data hidle hanswer hnet hdelivers hcallback hparse =>
      cases hnet with
      | handleEvent _ _ _ rest hloop hactive => exact h.handle hfd hactive hanswer rfl rfl rfl
  | defaultMessageCallback l c data hidle hanswer hnet hdelivers hcallback =>
      cases hnet with
      | handleEvent _ _ _ rest hloop hactive => exact h.handle hfd hactive hanswer rfl rfl rfl
  | doPendingFunctors l hidle hnet =>
      have hsound := h.sound.step hfd hnet
      cases hnet with
      | doPendingFunctors _ hloop hhandled =>
          exact ⟨hsound, h.opened, h.empty, h.fresh, h.callback, h.listed, h.nodup⟩
  | runFunctor l cb hreading hrunning hnet =>
      cases hnet with
      | runFunctor _ _ rest hfunctors => exact h.runFunctor hfd hfunctors rfl rfl rfl
  | _ => exact h.same rfl rfl rfl

end Sessions

/-! ### The clients of the program -/

namespace ProgramEvent

/-- What the reads of a connection deliver. -/
def arrived : ProgramEvent Conn Loop → List (Conn × Bytes)
  | message c data _ => [(c, data)]
  | _ => []

/-- The commands executed, with their replies, by connection. -/
def served : ProgramEvent Conn Loop → List (Conn × Call)
  | task e => e.served
  | _ => []

/-- The payloads that `sendInLoop` hands to `Write`. -/
def sent : ProgramEvent Conn Loop → List (Conn × Bytes)
  | task e => e.sent
  | _ => []

end ProgramEvent

/-- The front end has the state of the program, with buffers that are as empty. -/
structure Sees (s : Program Conn Loop) (f : Front Conn Loop) : Prop where
  server : f.server = s.server
  reading : f.reading = s.reading
  empty : ∀ c, (f.m_InputBuffer c).readable = []

/-- A step of the program, as the front end sees it: none, or one that delivers, serves and sends
the same. -/
def Shows (loopOf : Conn → Loop) (f : Front Conn Loop) (e : ProgramEvent Conn Loop)
    (s' : Program Conn Loop) : Prop :=
  (Sees s' f ∧ e.arrived = [] ∧ e.served = [] ∧ e.sent = []) ∨
    ∃ fe f', f.Step loopOf fe f' ∧ Sees s' f' ∧ fe.arrived = e.arrived ∧
      fe.events.flatMap Event.served = e.served ∧ fe.events.flatMap Event.sent = e.sent

section Simulation
variable {fd : Conn → ℤ} {peer : Conn → Net.SocketAddr} {s s' : Program Conn Loop}
  {f : Front Conn Loop} {m_State : Conn → State} {c : Conn} {loopOf : Conn → Loop}
  {e : Net.NetEvent Conn Loop}

omit [DecidableEq Conn] [DecidableEq Loop] in
theorem Sees.same (h : Sees s f) (hserver : s'.server = s.server) (hreading : s'.reading = s.reading) :
    Sees s' f :=
  ⟨h.server.trans hserver.symm, h.reading.trans hreading.symm, h.empty⟩

/-- A step of the loops is seen as a step of the server that delivers, serves and sends nothing. -/
theorem Sees.loop_step (h : Sees s f) {fe : Event Conn Loop} {server : Server Conn Loop}
    (hstep : s.server.Step loopOf fe server) (htask : ∀ item, fe ≠ .producerTask item)
    (hpush : ∀ item, fe ≠ .push_back item) (hserver : s'.server = server)
    (hreading : s'.reading = s.reading) (hserved : fe.served = []) (hsent : fe.sent = []) :
    Shows loopOf f (.loop e) s' := by
  rw [← h.server] at hstep
  refine Or.inr ⟨_, _, .other fe server htask hpush hstep,
    ⟨hserver.symm, h.reading.trans hreading.symm, h.empty⟩, rfl, ?_, ?_⟩
  · simp [FrontEvent.events, hserved, ProgramEvent.served]
  · simp [FrontEvent.events, hsent, ProgramEvent.sent]

omit [DecidableEq Conn] [DecidableEq Loop] in
/-- The loops change nothing of the server but the states of connections. -/
theorem server_eq (s s' : Program Conn Loop) {net : Net.Server Conn Loop} (hmoves : net.Moves s'.net m_State)
    (hserver : { s'.server with m_State := m_State } = { s.server with m_State := m_State }) :
    s'.server = { s.server with m_State := m_State } := by
  rw [← hserver, ← funext hmoves.states]
  rfl

/-- A connection is established, or was before. -/
theorem Sees.establish (h : Sees s f)
    (hserver : s'.server = { s.server with m_State := s.net.statesAfter (.connectEstablished c) })
    (hreading : s'.reading = s.reading) : Shows loopOf f (.loop e) s' := by
  simp only [Net.Server.statesAfter] at hserver
  split_ifs at hserver with hconnecting
  · exact h.loop_step (.connectEstablished c hconnecting) nofun nofun hserver hreading rfl rfl
  · exact Or.inl ⟨h.same hserver hreading, rfl, rfl, rfl⟩

/-- A connection is closed, or was before. -/
theorem Sees.close (h : Sees s f) (hserver : s'.server =
      { s.server with m_State := update s.net.states c .kDisconnected })
    (hreading : s'.reading = s.reading) : Shows loopOf f (.loop e) s' := by
  by_cases hclosed : s.net.states c = .kDisconnected
  · rw [← hclosed, update_eq_self] at hserver
    exact Or.inl ⟨h.same hserver hreading, rfl, rfl, rfl⟩
  · exact h.loop_step (.handleClose c hclosed) nofun nofun hserver hreading rfl rfl

/-- Only the call of `queueInLoop` looks at the loop of a connection. -/
theorem Server.Step.reroute (loopOf' : Conn → Loop) {t t' : Server Conn Loop} {fe : Event Conn Loop}
    (h : t.Step loopOf fe t') (hroute : ∀ c, fe = .queueInLoop c → loopOf' c = loopOf c) :
    t.Step loopOf' fe t' := by
  cases h with
  | connectEstablished conn h => exact .connectEstablished conn h
  | handleClose conn h => exact .handleClose conn h
  | producerTask item hlock hopen => exact .producerTask item hlock hopen
  | push_back item hitem hlock hfull => exact .push_back item hitem hlock hfull
  | front temp rest hlock hdeque => exact .front temp rest hlock hdeque
  | execCommand temp srcbuf store htemp hexec => exact .execCommand temp srcbuf store htemp hexec
  | send conn srcbuf hexec hstate => exact .send conn srcbuf hexec hstate
  | sendClosed conn srcbuf hexec hstate => exact .sendClosed conn srcbuf hexec hstate
  | queueInLoop conn srcbuf hsend hthread =>
      rw [← hroute conn rfl] at hthread ⊢
      exact .queueInLoop conn srcbuf hsend hthread
  | sendInLoop conn srcbuf hsend hthread => cases hthread
  | pop_front hsent => exact .pop_front hsent
  | doPendingFunctors l hdone => exact .doPendingFunctors l hdone
  | runFunctor l conn payload rest hfunctors => exact .runFunctor l conn payload rest hfunctors

/-- Steps of the task queue leave the states of the connections. -/
theorem server_withServer {server : Server Conn Loop} {fe : Event Conn Loop}
    (h : s.server.Step loopOf fe server) (hestablish : ∀ c, fe ≠ .connectEstablished c)
    (hclose : ∀ c, fe ≠ .handleClose c) : (s.withServer server).server = server := by
  have hstates : server.m_State = s.server.m_State := by
    cases h with
    | connectEstablished conn h => exact absurd rfl (hestablish conn)
    | handleClose conn h => exact absurd rfl (hclose conn)
    | _ => rfl
  obtain ⟨m_State, _, _, _, _, _, _⟩ := server
  obtain rfl : m_State = s.server.m_State := hstates
  rfl

omit [DecidableEq Conn] [DecidableEq Loop] in
/-- The connections that the task queue deals with have been accepted. -/
theorem Wired.accepted (h : Wired fd s) (hc : Opened (s.net.states c)) : c ∈ s.net.accepted := by
  by_contra hnew
  rw [h.fresh c hnew] at hc
  exact not_opened_kConnecting hc

/-- A step of the consumer and the threads in `producerTask`. -/
theorem Sees.task_step (h : Sees s f) {fe : Event Conn Loop} {server : Server Conn Loop}
    (hstep : s.server.Step loopOf fe server) (htask : ∀ item, fe ≠ .producerTask item)
    (hpush : ∀ item, fe ≠ .push_back item) (hserver : s'.server = server)
    (hreading : s'.reading = s.reading) : Shows loopOf f (.task fe) s' := by
  rw [← h.server] at hstep
  refine Or.inr ⟨_, _, .other fe server htask hpush hstep,
    ⟨hserver.symm, h.reading.trans hreading.symm, h.empty⟩, rfl, ?_, ?_⟩
  · simp [FrontEvent.events, ProgramEvent.served]
  · simp [FrontEvent.events, ProgramEvent.sent]

/-- A read of a session. -/
theorem Sees.read (h : Sees s f) {l : Loop} {data : Bytes} {vecCmd : List Bytes} {buffer rest : Buffer}
    (hl : loopOf c = l) (hidle : s.reading l = none) (hopened : Opened (s.net.states c))
    (hdata : data ≠ []) (hempty : buffer.readable = [])
    (hparse : onRead (buffer.readFd data) = .ok (vecCmd, rest)) (hserver : s'.server = s.server)
    (hreading : s'.reading = update s.reading l (some ⟨c, vecCmd⟩)) :
    Shows loopOf f (.message c data (.onRead c)) s' := by
  subst hl
  obtain ⟨hands, -⟩ := onRead_fresh hempty hparse
  obtain ⟨rest', hread⟩ : ∃ rest', onRead ((f.m_InputBuffer c).readFd data) = .ok (vecCmd, rest') := by
    refine ⟨_, (onRead_ok_iff _ _ _).mpr ⟨?_, rfl⟩⟩
    rw [Buffer.readable_readFd, h.empty c, List.nil_append]
    exact hands
  refine Or.inr ⟨_, _, .handleRead c data vecCmd rest' ?_ ?_ hdata hread, ⟨?_, ?_, fun c' => ?_⟩,
    rfl, rfl, rfl⟩
  · rw [h.reading, hidle]
  · rw [h.server]
    exact hopened
  · rw [hserver]
    exact h.server
  · rw [hreading, ← h.reading]
  · by_cases hc : c' = c
    · simp only [hc, update_self]
      exact (onRead_fresh (h.empty c) hread).2
    · simp only [update_of_ne hc]
      exact h.empty c'

/-- The callbacks for new connections leave what the front end sees. -/
theorem accepted_same (fd : Conn → ℤ) (s : Program Conn Loop) (net : Net.Server Conn Loop)
    (c : Conn) : (s.accepted fd net c).net = s.net ∧
      (s.accepted fd net c).server = s.server ∧ (s.accepted fd net c).reading = s.reading := by
  unfold Program.accepted Program.established
  simp only
  split_ifs
  · exact ⟨rfl, rfl, rfl⟩
  · exact ⟨rfl, rfl, rfl⟩
  · exact ⟨rfl, rfl, rfl⟩

theorem ranFunctor_same (fd : Conn → ℤ) (s : Program Conn Loop) (net : Net.Server Conn Loop)
    (cb : Net.Functor Conn) : (s.ranFunctor fd net cb).net = s.net ∧ (s.ranFunctor fd net cb).server = s.server ∧
      (s.ranFunctor fd net cb).reading = s.reading := by
  cases cb with
  | connectEstablished c =>
      unfold Program.ranFunctor Program.established
      simp only
      split_ifs
      · exact ⟨rfl, rfl, rfl⟩
      · exact ⟨rfl, rfl, rfl⟩
  | removeConnectionInLoop c => exact ⟨rfl, rfl, rfl⟩
  | connectDestroyed c => exact ⟨rfl, rfl, rfl⟩

/-- A connection is accepted, and established at once if it stays in the loop of the server. -/
theorem Sees.accept (h : Sees s f) (hw : Wired fd s) (hfd : Injective fd)
    (hnew : c ∉ s.net.accepted) (addr : Net.SocketAddr) : Shows loopOf f (.loop e)
      ((s.withNet (s.net.newConnection fd c addr)).accepted fd (s.net.enter c addr) c) := by
  have hconnecting := hw.fresh c hnew
  have hmoves := Net.Server.moves_newConnection hfd hw.sound hnew hconnecting addr
  have hserver := server_eq s (s.withNet (s.net.newConnection fd c addr)) hmoves rfl
  obtain ⟨-, hsame, hreading⟩ := accepted_same fd
    (s.withNet (s.net.newConnection fd c addr)) (s.net.enter c addr) c
  rw [← hsame] at hserver
  split_ifs at hserver
  · refine h.establish (c := c) ?_ hreading
    rw [hserver, Net.Server.statesAfter, if_pos hconnecting]
  · exact Or.inl ⟨h.same hserver hreading, rfl, rfl, rfl⟩

/-- Every step of the program is one of the front end or none that it sees, with the connections in
the loops that they have been given to. -/
theorem Program.Step.shows {e : ProgramEvent Conn Loop} (hstep : s.Step fd peer e s')
    (hfd : Injective fd) (hw : Wired fd s) (hcoherent : Coherent loopOf s.server) (h : Sees s f)
    (hloop : ∀ c ∈ s.net.accepted, loopOf c = s.net.getLoop c) : Shows loopOf f e s' := by
  cases hstep with
  | accept c hidle hnet =>
      cases hnet with
      | accept _ hnew _ => exact h.accept hw hfd hnew (peer c)
  | poll l reports hidle hnet =>
      cases hnet with
      | poll _ _ _ hhandled hreports => exact Or.inl ⟨h.same rfl rfl, rfl, rfl, rfl⟩
  | handleEvent l c answer hidle hanswer hnet hsilent =>
      cases hnet with
      | handleEvent _ _ _ rest _ hactive =>
          have hmoves := hw.moves_handle hfd hactive hanswer
          have hserver := server_eq s
            (s.withNet (s.net.handle fd Net.retrieveAll l c answer rest)) hmoves rfl
          split_ifs at hserver
          · exact h.close hserver rfl
          · exact Or.inl ⟨h.same hserver rfl, rfl, rfl, rfl⟩
  | @onRead l c data net buffer session vecCmd rest hidle hanswer hnet hdelivers hcallback hparse =>
      cases hnet with
      | handleEvent _ _ _ active _ hactive =>
          obtain ⟨haccepted, hl, hopened⟩ := hw.active hactive
          rw [hw.callback c hopened] at hcallback
          cases hcallback
          obtain ⟨hdata, rfl⟩ :=
            Net.Server.delivers_eq_some hfd hw.sound haccepted hdelivers
          have hmoves : s.net.Moves (s.net.handle fd Net.retrieveAll l c (.reads data) active)
              s.net.states :=
            (Net.Server.moves_of_delivers hfd hw.sound haccepted hanswer hdelivers).handle
          exact h.read ((hloop c haccepted).trans hl) hidle.1 hopened hdata (hw.empty c) hparse
            (server_eq s _ hmoves rfl) rfl
  | defaultMessageCallback l c data hidle hanswer hnet hdelivers hcallback =>
      cases hnet with
      | handleEvent _ _ _ active _ hactive =>
          rw [hw.callback c (hw.active hactive).2.2] at hcallback
          cases hcallback
  | doPendingFunctors l hidle hnet =>
      cases hnet with
      | doPendingFunctors _ _ hhandled =>
          exact h.loop_step (.doPendingFunctors l hidle.2) (by simp) (by simp) rfl rfl rfl rfl
  | runFunctor l cb hreading hrunning hnet =>
      cases hnet with
      | runFunctor _ _ rest hfunctors =>
          have hmoves := hw.moves_runFunctor hfd hfunctors
          obtain ⟨-, c, hc, hcb⟩ := hw.sound.taken hfunctors
          obtain ⟨-, hsame, hread⟩ := ranFunctor_same fd
            { s.withNet ({ s.net with functors := update s.net.functors l rest }.runFunctor
              fd l cb) with running := update s.running l _ } s.net cb
          have hserver := hsame.trans (server_eq s _ hmoves rfl)
          rcases hcb with rfl | rfl
          · exact h.establish hserver hread
          · exact Or.inl ⟨h.same hserver hread, rfl, rfl, rfl⟩
  | sendInLoop l c payload hreading hrunning hsending =>
      exact h.task_step (.runFunctor l c payload _ hsending) (by simp) (by simp) rfl rfl
  | producerTask item hreading hserver =>
      have hc : Opened (s.net.states item.conn) := by
        cases hserver with
        | producerTask _ hlock hopen => exact hopen
      have hl := hloop _ (hw.accepted hc)
      have hsame := server_withServer hserver (by simp) (by simp)
      have hserver' := hserver.reroute loopOf (by simp)
      rw [← h.server] at hserver'
      refine Or.inr ⟨_, _, .producerTask item _ ?_ hserver', ⟨hsame.symm, h.reading, h.empty⟩,
        rfl, ?_, ?_⟩
      · rw [hl, h.reading]
        exact hreading
      · simp [FrontEvent.events, ProgramEvent.served]
      · simp [FrontEvent.events, ProgramEvent.sent]
  | push_back item hserver =>
      have hc : Opened (s.net.states item.conn) := by
        cases hserver with
        | push_back _ hitem hlock hfull => exact hcoherent.opened item (Or.inr hitem)
      have hl := hloop _ (hw.accepted hc)
      have hsame := server_withServer hserver (by simp) (by simp)
      have hserver' := hserver.reroute loopOf (by simp)
      rw [← h.server] at hserver'
      refine Or.inr ⟨_, _, .push_back item _ hserver', ⟨hsame.symm, ?_, h.empty⟩, rfl, ?_, ?_⟩
      · rw [hl, h.reading]
      · simp [FrontEvent.events, ProgramEvent.served]
      · simp [FrontEvent.events, ProgramEvent.sent]
  | consumer e he hserver =>
      obtain ⟨htask, hpush, hestablish, hclose, hqueue⟩ := he.ne
      have hsame := server_withServer hserver hestablish hclose
      exact h.task_step (hserver.reroute loopOf fun c hc => absurd hc (hqueue c)) htask hpush hsame rfl
  | queueInLoop c hserver =>
      have hc : Opened (s.net.states c) := by
        have hfront := hcoherent.front
        cases hserver with
        | queueInLoop _ srcbuf hsend hthread =>
            rw [hsend] at hfront
            obtain ⟨vecCmd, rest, hdeque⟩ := hfront
            exact hcoherent.opened ⟨c, vecCmd⟩ (Or.inl (by rw [hdeque]; exact List.mem_cons_self))
      have hroute : ∀ c', (.queueInLoop c : Event Conn Loop) = .queueInLoop c' →
          loopOf c' = s.net.getLoop c' := by
        intro c' heq
        cases heq
        exact hloop c (hw.accepted hc)
      have hsame := server_withServer hserver (by simp) (by simp)
      exact h.task_step (hserver.reroute loopOf hroute) (by simp) (by simp) hsame rfl

/-- Connections stay accepted, and in their loops. -/
theorem NetStep.keeps_loops {onMessage : Conn → Buffer → Buffer} {t t' : Net.Server Conn Loop}
    (h : Net.NetStep fd peer onMessage t e t') :
    ∀ c ∈ t.accepted, c ∈ t'.accepted ∧ t'.getLoop c = t.getLoop c := by
  have hall : ∀ t₁ t₂ : Net.Server Conn Loop, Net.SameDeal t₁ t₂ →
      ∀ c ∈ t₁.accepted, c ∈ t₂.accepted ∧ t₂.getLoop c = t₁.getLoop c :=
    fun t₁ t₂ hsame c hc => ⟨hsame.accepted ▸ hc, hsame.getLoop c⟩
  cases h with
  | accept c hnew hidle =>
      intro c' hc'
      have hentered : c' ∈ (t.enter c (peer c)).accepted := List.mem_cons_of_mem _ hc'
      have hne : c' ≠ c := ne_of_mem_of_not_mem hc' hnew
      have hloop : (t.enter c (peer c)).getLoop c' = t.getLoop c' := by
        rw [Net.Server.getLoop, Net.Server.enter_of_ne _ hne, Net.Server.getLoop]
      rw [← hloop]
      unfold Net.Server.newConnection
      simp only
      split_ifs
      · exact hall _ _ (.connectEstablished _ c) c' hentered
      · exact hall _ _ (.queueInLoop _ _) c' hentered
  | poll l reports hidle hhandled hreports => exact fun c hc => ⟨hc, rfl⟩
  | handleEvent l c answer rest hidle hactive =>
      exact hall t (t.HandleEvent fd onMessage l c answer) (.HandleEvent l c answer)
  | doPendingFunctors l hidle hhandled => exact fun c hc => ⟨hc, rfl⟩
  | runFunctor l cb rest hfunctors =>
      exact hall { t with functors := update t.functors l rest } _ (.runFunctor l cb)

/-- A step of the program is one of the loops, or leaves them. -/
theorem Program.Step.net_step {e : ProgramEvent Conn Loop} (h : s.Step fd peer e s') :
    s'.net = s.net ∨ ∃ ne, Net.NetStep fd peer Net.retrieveAll s.net ne s'.net ∧
      (e.ReplacesNone peer s → s.net.ReplacesNone peer ne) := by
  cases h with
  | accept c hidle hnet =>
      right
      rw [(accepted_same _ _ _ _).1]
      exact ⟨_, hnet, id⟩
  | poll l reports hidle hnet => exact Or.inr ⟨_, hnet, id⟩
  | handleEvent l c answer hidle hanswer hnet hsilent => exact Or.inr ⟨_, hnet, id⟩
  | onRead l c data hidle hanswer hnet hdelivers hcallback hparse =>
      exact Or.inr ⟨_, hnet, fun _ => trivial⟩
  | defaultMessageCallback l c data hidle hanswer hnet hdelivers hcallback =>
      exact Or.inr ⟨_, hnet, fun _ => trivial⟩
  | doPendingFunctors l hidle hnet => exact Or.inr ⟨_, hnet, id⟩
  | runFunctor l cb hreading hrunning hnet =>
      right
      rw [(ranFunctor_same _ _ _ _).1]
      exact ⟨_, hnet, id⟩
  | _ => exact Or.inl rfl

theorem Program.Step.keeps_loops {e : ProgramEvent Conn Loop} (h : s.Step fd peer e s') :
    ∀ c ∈ s.net.accepted, c ∈ s'.net.accepted ∧ s'.net.getLoop c = s.net.getLoop c := by
  rcases h.net_step with hnet | ⟨ne, hnet, -⟩
  · rw [hnet]
    exact fun c hc => ⟨hc, rfl⟩
  · exact NetStep.keeps_loops hnet

theorem Program.Step.holdsAll {e : ProgramEvent Conn Loop} (h : s.Step fd peer e s')
    (hfd : Injective fd) (hw : Wired fd s) (hnone : e.ReplacesNone peer s)
    (hall : s.net.HoldsAll) : s'.net.HoldsAll := by
  rcases h.net_step with hnet | ⟨ne, hnet, hreplaces⟩
  · rwa [hnet]
  · exact hw.sound.holdsAll_step hfd hnet (hreplaces hnone) hall

/-- The history of a front end in which the clients of the program are seen. -/
structure Front.Mirrors (loopOf : Conn → Loop) (store : YStore)
    (history : List (ProgramEvent Conn Loop)) (s : Program Conn Loop)
    (seen : List (FrontEvent Conn Loop)) (f : Front Conn Loop) : Prop where
  run : ∃ trace, Run (Front.Step loopOf) (.start store) trace f ∧ labels trace = seen
  sees : Sees s f
  arrived : moved FrontEvent.arrived seen = moved ProgramEvent.arrived history
  served : moved Event.served (serverEvents seen) = moved ProgramEvent.served history
  sent : moved Event.sent (serverEvents seen) = moved ProgramEvent.sent history

theorem Front.Mirrors.coherent {store : YStore} {history : List (ProgramEvent Conn Loop)}
    {seen : List (FrontEvent Conn Loop)} (h : Front.Mirrors loopOf store history s seen f) :
    Coherent loopOf s.server := by
  obtain ⟨trace, run, -⟩ := h.run
  obtain ⟨trace', run', -⟩ := (frontAccounts_of_run run).server
  rw [← h.sees.server]
  exact (accounts_of_run run').coherent

theorem Front.Mirrors.next {store : YStore} {history : List (ProgramEvent Conn Loop)}
    {seen : List (FrontEvent Conn Loop)} {e : ProgramEvent Conn Loop}
    (h : Front.Mirrors loopOf store history s seen f) (hshows : Shows loopOf f e s') :
    ∃ seen' f', Front.Mirrors loopOf store (e :: history) s' seen' f' := by
  rcases hshows with ⟨hsees, harrived, hserved, hsent⟩ |
    ⟨fe, f', hstep, hsees, harrived, hserved, hsent⟩
  · refine ⟨seen, f, h.run, hsees, ?_, ?_, ?_⟩
    · rw [moved_cons, harrived, List.append_nil, h.arrived]
    · rw [moved_cons, hserved, List.append_nil, h.served]
    · rw [moved_cons, hsent, List.append_nil, h.sent]
  · obtain ⟨trace, run, hlabels⟩ := h.run
    refine ⟨fe :: seen, f', ⟨_, run.next hstep, by rw [labels_cons, hlabels]⟩, hsees, ?_, ?_, ?_⟩
    · rw [moved_cons, moved_cons, harrived, h.arrived]
    · rw [moved_serverEvents_cons, moved_cons, hserved, h.served]
    · rw [moved_serverEvents_cons, moved_cons, hsent, h.sent]

/-- What holds of the program after the steps `history`, the newest first. -/
structure ProgramAccounts (fd : Conn → ℤ) (store : YStore)
    (history : List (ProgramEvent Conn Loop)) (s : Program Conn Loop) : Prop where
  wired : Wired fd s
  messages : ∀ c data callback, .message c data callback ∈ history → callback = .onRead c
  seen : ∀ loopOf, (∀ c ∈ s.net.accepted, loopOf c = s.net.getLoop c) →
    ∃ seen f, Front.Mirrors loopOf store history s seen f

theorem ProgramAccounts.next {store : YStore} {history : List (ProgramEvent Conn Loop)}
    {e : ProgramEvent Conn Loop} (h : ProgramAccounts fd store history s) (hfd : Injective fd)
    (hstep : s.Step fd peer e s') : ProgramAccounts fd store (e :: history) s' where
  wired := h.wired.step hfd hstep
  messages c data callback hmem := by
    rcases List.mem_cons.mp hmem with rfl | hold
    · cases hstep with
      | onRead l _ _ hidle hanswer hnet hdelivers hcallback hparse =>
          cases hnet with
          | handleEvent _ _ _ rest _ hactive =>
              rw [← hcallback]
              exact h.wired.callback c (h.wired.active hactive).2.2
      | defaultMessageCallback l _ _ hidle hanswer hnet hdelivers hcallback =>
          cases hnet with
          | handleEvent _ _ _ rest _ hactive =>
              rw [← hcallback]
              exact h.wired.callback c (h.wired.active hactive).2.2
    · exact h.messages c data callback hold
  seen loopOf hloop := by
    have hkept := hstep.keeps_loops
    have hloop' : ∀ c ∈ s.net.accepted, loopOf c = s.net.getLoop c := by
      intro c hc
      rw [hloop c (hkept c hc).1, (hkept c hc).2]
    obtain ⟨seen, f, hmirrors⟩ := h.seen loopOf hloop'
    exact hmirrors.next (hstep.shows hfd h.wired hmirrors.coherent hmirrors.sees hloop')

theorem programAccounts_start (fd : Conn → ℤ) (m_ptrLoop : Loop) (m_vecLoops : List Loop) (id : ℤ)
    (store : YStore) :
    ProgramAccounts fd store [] (.start m_ptrLoop m_vecLoops id store : Program Conn Loop) where
  wired := wired_start fd m_ptrLoop m_vecLoops id store
  messages _ _ _ := nofun
  seen _ _ := ⟨[], .start store, ⟨[], .start, rfl⟩, ⟨rfl, rfl, fun _ => Buffer.readable_new⟩,
    rfl, rfl, rfl⟩

/-- Nothing is being read and all queues of the tasks are empty. -/
def Program.Quiet (s : Program Conn Loop) : Prop := (∀ l, s.reading l = none) ∧ s.server.Drained

/-- The table holds all connections in every run in which none is replaced. -/
theorem holdsAll_of_run (hfd : Injective fd) {m_ptrLoop : Loop} {m_vecLoops : List Loop}
    {id : ℤ} {store : YStore} {trace : List (Transition (Program Conn Loop) (ProgramEvent Conn Loop))}
    (run : Run (Program.Step fd peer) (.start m_ptrLoop m_vecLoops id store) trace s)
    (hnone : ∀ t ∈ trace, t.label.ReplacesNone peer t.src) : s.net.HoldsAll := by
  have h : Wired fd s ∧ s.net.HoldsAll := by
    refine run.invariant_of_all (P := fun s => Wired fd s ∧ s.net.HoldsAll)
      ⟨wired_start fd m_ptrLoop m_vecLoops id store, fun c hc => ?_⟩ hnone
      fun s e s' h hnone hstep => ⟨h.1.step hfd hstep, hstep.holdsAll hfd h.1 hnone h.2⟩
    cases hc
  exact h.2

/-- In every run of the program in which no connection is stored under the key of another one, the
table keeps every connection. Each message on a connection goes to the session of this connection,
and the sessions are those of the connections that have been established, one each, for good. The
commands of all clients are executed one after the other. Those of a connection are what its reads
hand on, one for each read and in their order, and as long as it is connected the payloads for which
`sendInLoop` runs are the first replies to its commands, in order. When nothing is left to do all
are executed, and it has run for all replies. -/
theorem program_serves_clients (hfd : Injective fd) {m_ptrLoop : Loop} {m_vecLoops : List Loop}
    {id : ℤ} {store : YStore} {trace : List (Transition (Program Conn Loop) (ProgramEvent Conn Loop))}
    (run : Run (Program.Step fd peer) (.start m_ptrLoop m_vecLoops id store) trace s)
    (hnone : ∀ t ∈ trace, t.label.ReplacesNone peer t.src) :
    s.net.HoldsAll ∧
    (∀ c data callback, .message c data callback ∈ labels trace → callback = .onRead c) ∧
    (s.m_listSessions.Nodup ∧ ∀ c, c ∈ s.m_listSessions ↔ Opened (s.net.states c)) ∧
    (∃ calls, Run CallStep store calls s.store ∧
      (labels calls).reverse = (moved ProgramEvent.served (labels trace)).map Prod.snd) ∧
    ∀ c, ∃ requests,
      List.Forall₂ Hands (ofKey c (moved ProgramEvent.arrived (labels trace))) requests ∧
      (ofKey c (moved ProgramEvent.served (labels trace))).map Call.params <+: requests ∧
      (s.net.states c = .kConnected → ofKey c (moved ProgramEvent.sent (labels trace)) <+:
        (ofKey c (moved ProgramEvent.served (labels trace))).map Call.reply) ∧
      (s.Quiet → (ofKey c (moved ProgramEvent.served (labels trace))).map Call.params = requests ∧
        (s.net.states c = .kConnected → ofKey c (moved ProgramEvent.sent (labels trace)) =
          (ofKey c (moved ProgramEvent.served (labels trace))).map Call.reply)) := by
  have h : ProgramAccounts fd store (labels trace) s := by
    refine run.invariant_labels (P := ProgramAccounts fd store) ?_
      fun _ _ _ _ h hstep => h.next hfd hstep
    exact programAccounts_start fd m_ptrLoop m_vecLoops id store
  obtain ⟨seen, f, ⟨trace', run', hlabels⟩, hsees, harrived, hserved, hsent⟩ :=
    h.seen s.net.getLoop fun _ _ => rfl
  have ha := frontAccounts_of_run run'
  rw [hlabels] at ha
  refine ⟨holdsAll_of_run hfd run hnone, h.messages, ⟨h.wired.nodup, h.wired.listed⟩, ?_,
    fun c => ?_⟩
  · have hserial := ha.serial
    rwa [hserved, hsees.server] at hserial
  · have hserves := ha.serves (c := c)
    unfold Front.Quiet at hserves
    rwa [harrived, hserved, hsent, hsees.server, hsees.reading] at hserves

end Simulation

/-- One client is accepted and sends `COMMAND`, and `sendInLoop` runs for the reply. -/
theorem program_serves_clients_command :
    ∃ (trace : List (Transition (Program Unit Bool) (ProgramEvent Unit Bool)))
      (s : Program Unit Bool),
      Run (Program.Step (fun _ => 5) fun _ => Net.localhost 4000) (.start false [true] 0 .start)
        trace s ∧
      ofKey () (moved ProgramEvent.arrived (labels trace)) = [encodeCommand [ascii "COMMAND"]] ∧
      ofKey () (moved ProgramEvent.sent (labels trace)) = [ascii "+OK\r\n"] ∧
      (ofKey () (moved ProgramEvent.served (labels trace))).map Call.params =
        [[ascii "COMMAND"]] := by
  have hfd : Injective fun _ : Unit => (5 : ℤ) := fun _ _ _ => rfl
  have hexec : CallStep .start ⟨[ascii "COMMAND"], ascii "+OK\r\n"⟩ .start :=
    ⟨default, true, execCommand_ok (c := .COMMAND) rfl (command_run rfl)⟩
  obtain ⟨-, rest, hparse⟩ := onRead_received (parseRequest_encodeCommand (r := [])
    (List.append_nil (encodeCommand [ascii "COMMAND"])).symm (by decide))
  have r1 : Run (Program.Step (fun _ : Unit => 5) fun _ => Net.localhost 4000)
    (.start false [true] 0 .start) _ _ := .next .start (.accept () ⟨rfl, rfl⟩ (.accept () (by decide) rfl))
  have r2 := r1.next (.doPendingFunctors true ⟨rfl, rfl⟩ (.doPendingFunctors true rfl rfl))
  have r3 := r2.next (.runFunctor true (.connectEstablished ()) rfl rfl
    (.runFunctor true (.connectEstablished ()) [] rfl))
  have r4 := r3.next (.poll true [⟨XPOLLIN, ()⟩] ⟨rfl, rfl⟩ (.poll true _ rfl rfl (by
    simp only [List.forall_mem_singleton]
    exact ⟨⟨XPOLLIN ||| XPOLLPRI, ()⟩, rfl, rfl, by decide, by decide⟩)))
  have r5 := r4.next (.onRead true () (encodeCommand [ascii "COMMAND"]) ⟨rfl, rfl⟩
    (show _ < _ by decide) (.handleEvent true () _ [] rfl rfl)
    (Net.Server.delivers_reads (by decide) (by decide) (by decide)) rfl hparse)
  have r6 := r5.next (.producerTask _ rfl
    (.producerTask ⟨(), [ascii "COMMAND"]⟩ rfl (Or.inl rfl)))
  have r7 := r6.next (.push_back _ (.push_back _ rfl rfl (Nat.succ_pos 29)))
  have r8 := r7.next (.consumer (.front _) trivial (.front ⟨(), [ascii "COMMAND"]⟩ [] rfl rfl))
  have r9 := r8.next (.consumer (.execCommand _ _) trivial (.execCommand _ _ _ rfl hexec))
  have r10 := r9.next (.consumer (.send _) trivial (.send () _ rfl rfl))
  have r11 := r10.next (.queueInLoop () (.queueInLoop () _ rfl nofun))
  have r12 := r11.next (.consumer .pop_front trivial (.pop_front rfl))
  have r13 := r12.next (.doPendingFunctors true ⟨rfl, rfl⟩ (.doPendingFunctors true rfl rfl))
  have r14 := r13.next (.sendInLoop true () (ascii "+OK\r\n") rfl rfl rfl)
  obtain ⟨-, -, -, -, hclients⟩ := program_serves_clients hfd r14 (by
    simp only [List.forall_mem_cons, ProgramEvent.ReplacesNone, Net.Server.ReplacesNone, true_and]
    exact ⟨rfl, fun _ h => absurd h List.not_mem_nil⟩)
  obtain ⟨requests, hrequests, -, -, hquiet⟩ := hclients ()
  obtain ⟨hserved, hsent⟩ := hquiet
    ⟨fun l => by cases l <;> rfl, rfl, fun l => by cases l <;> exact ⟨rfl, rfl⟩⟩
  have hcmds : requests = [[ascii "COMMAND"]] :=
    requests_of_encoded hrequests rfl (List.forall_mem_singleton.mpr (by decide))
  exact ⟨_, _, r14, rfl, hsent rfl, hserved.trans hcmds⟩

end Yedis
