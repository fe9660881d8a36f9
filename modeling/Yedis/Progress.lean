import Yedis.Program

/-!
# The program comes to rest

The functors of both kinds in a loop are one queue, so the next one can always be run.
As long as something is left to do one of the threads can do some of it, unless a
command or a read goes wrong. What is left to do is a number that every step lowers, so
a program that is left to itself has done everything in the end.
-/

namespace Yedis
open Fifo Function Runs

variable {Conn Loop : Type} [DecidableEq Conn] [DecidableEq Loop]

/-! ### One queue for both kinds of functors -/

/-- The kinds in `order` and `running` are those of the functors queued and swapped out. -/
structure InOrder (s : Program Conn Loop) : Prop where
  pending : ∀ l, (s.order l).count .connection = (s.net.pending l).length
  sends : ∀ l, (s.order l).count .sendInLoop = (s.sends l).length
  functors : ∀ l, (s.running l).count .connection = (s.net.functors l).length
  sending : ∀ l, (s.running l).count .sendInLoop = (s.sending l).length

section Order
variable {fd : Conn → ℤ} {peer : Conn → Net.SocketAddr} {s s' : Program Conn Loop} {l : Loop}

omit [DecidableEq Conn] [DecidableEq Loop] in
theorem InOrder.same (h : InOrder s) (hnet : s'.net = s.net) (hsends : s'.sends = s.sends)
    (hsending : s'.sending = s.sending) (horder : s'.order = s.order)
    (hrunning : s'.running = s.running) : InOrder s' where
  pending l := by rw [hnet, horder, h.pending]
  sends l := by rw [hsends, horder, h.sends]
  functors l := by rw [hnet, hrunning, h.functors]
  sending l := by rw [hsending, hrunning, h.sending]

omit [DecidableEq Conn] [DecidableEq Loop] in
/-- The loops go on and queue functors. -/
theorem InOrder.withNet (h : InOrder s) {net : Net.Server Conn Loop} {m_State : Conn → State}
    (hmoves : s.net.Moves net m_State) : InOrder (s.withNet net) where
  pending l := by
    have hle := (hmoves.pending l).length_le
    simp only [Program.withNet, List.count_append, List.count_replicate_self, h.pending l]
    omega
  sends l := by
    simp [Program.withNet, List.count_append, List.count_replicate, h.sends l]
  functors l := by
    rw [Program.withNet, hmoves.functors]
    exact h.functors l
  sending := h.sending

omit [DecidableEq Conn] in
theorem InOrder.swap (h : InOrder s) (l : Loop) : InOrder
    { s with
      net := { s.net with
        pending := update s.net.pending l []
        functors := update s.net.functors l (s.net.pending l) }
      sends := update s.sends l []
      sending := update s.sending l (s.sends l)
      order := update s.order l []
      running := update s.running l (s.order l) } := by
  refine ⟨fun l' => ?_, fun l' => ?_, fun l' => ?_, fun l' => ?_⟩
  all_goals
    by_cases hl : l' = l
    · simp only [hl, update_self]
      first | rfl | exact h.pending l | exact h.sends l
    · simp only [update_of_ne hl]
      first | exact h.pending l' | exact h.sends l' | exact h.functors l' | exact h.sending l'

theorem InOrder.established (h : InOrder s) (net : Net.Server Conn Loop) (c : Conn) :
    InOrder (s.established fd net c) := by
  unfold Program.established
  split_ifs
  · exact h.same rfl rfl rfl rfl rfl
  · exact h

theorem InOrder.accepted (h : InOrder s) (net : Net.Server Conn Loop) (c : Conn) :
    InOrder (s.accepted fd net c) := by
  have hreset : InOrder { s with
      m_MessageCallback := update s.m_MessageCallback c .defaultMessageCallback } :=
    h.same rfl rfl rfl rfl rfl
  unfold Program.accepted
  simp only
  split_ifs
  · exact hreset.established net c
  · exact hreset

theorem InOrder.ranFunctor (h : InOrder s) (net : Net.Server Conn Loop) (cb : Net.Functor Conn) :
    InOrder (s.ranFunctor fd net cb) := by
  cases cb with
  | connectEstablished c => exact h.established net c
  | removeConnectionInLoop c => exact h
  | connectDestroyed c => exact h

omit [DecidableEq Conn] in
theorem InOrder.take_connection (h : InOrder s) {rest : List FunctorKind}
    (hrunning : s.running l = .connection :: rest) {cb : Net.Functor Conn}
    {behind : List (Net.Functor Conn)} (hfunctors : s.net.functors l = cb :: behind) :
    InOrder { s with
      net := { s.net with functors := update s.net.functors l behind }
      running := update s.running l rest } := by
  have hfirst := h.functors l
  have hsecond := h.sending l
  rw [hrunning, hfunctors, List.count_cons_self, List.length_cons] at hfirst
  rw [hrunning, List.count_cons_of_ne (by decide)] at hsecond
  refine ⟨h.pending, h.sends, fun l' => ?_, fun l' => ?_⟩
  · by_cases hl : l' = l
    · simp only [hl, update_self]
      omega
    · simp only [update_of_ne hl]
      exact h.functors l'
  · by_cases hl : l' = l
    · simp only [hl, update_self]
      exact hsecond
    · simp only [update_of_ne hl]
      exact h.sending l'

omit [DecidableEq Conn] in
theorem InOrder.take_sendInLoop (h : InOrder s) {rest : List FunctorKind}
    (hrunning : s.running l = .sendInLoop :: rest) {p : Conn × Bytes} {behind : List (Conn × Bytes)}
    (hsending : s.sending l = p :: behind) :
    InOrder { s with
      sending := update s.sending l behind
      running := update s.running l rest } := by
  have hfirst := h.functors l
  have hsecond := h.sending l
  rw [hrunning, List.count_cons_of_ne (by decide)] at hfirst
  rw [hrunning, hsending, List.count_cons_self, List.length_cons] at hsecond
  refine ⟨h.pending, h.sends, fun l' => ?_, fun l' => ?_⟩
  · by_cases hl : l' = l
    · simp only [hl, update_self]
      exact hfirst
    · simp only [update_of_ne hl]
      exact h.functors l'
  · by_cases hl : l' = l
    · simp only [hl, update_self]
      omega
    · simp only [update_of_ne hl]
      exact h.sending l'

omit [DecidableEq Conn] in
theorem InOrder.queue_sendInLoop (h : InOrder s) (p : Conn × Bytes) :
    InOrder { s with
      sends := update s.sends l (s.sends l ++ [p])
      order := update s.order l (s.order l ++ [.sendInLoop]) } := by
  refine ⟨fun l' => ?_, fun l' => ?_, h.functors, h.sending⟩
  · by_cases hl : l' = l
    · simp [hl, h.pending l]
    · simp only [update_of_ne hl]
      exact h.pending l'
  · by_cases hl : l' = l
    · simp [hl, h.sends l]
    · simp only [update_of_ne hl]
      exact h.sends l'

/-- Tasks other than `queueInLoop` leave the functors as they are. -/
theorem InOrder.withServer (h : InOrder s) {loopOf : Conn → Loop} {fe : Event Conn Loop}
    {server : Server Conn Loop} (hstep : s.server.Step loopOf fe server)
    (hkind : fe.OfConsumer ∨ (∃ item, fe = .producerTask item) ∨ ∃ item, fe = .push_back item) :
    InOrder (s.withServer server) := by
  have hsame : server.pending = s.sends ∧ server.functors = s.sending := by
    rcases hkind with hconsumer | ⟨item, rfl⟩ | ⟨item, rfl⟩
    · cases hstep with
      | front temp rest hlock hdeque => exact ⟨rfl, rfl⟩
      | execCommand temp srcbuf store htemp hexec => exact ⟨rfl, rfl⟩
      | send conn srcbuf hexec hstate => exact ⟨rfl, rfl⟩
      | sendClosed conn srcbuf hexec hstate => exact ⟨rfl, rfl⟩
      | pop_front hsent => exact ⟨rfl, rfl⟩
      | _ => exact hconsumer.elim
    · cases hstep
      exact ⟨rfl, rfl⟩
    · cases hstep
      exact ⟨rfl, rfl⟩
  exact h.same rfl hsame.1 hsame.2 rfl rfl

theorem Program.Step.inOrder {e : ProgramEvent Conn Loop} (hstep : s.Step fd peer e s')
    (hfd : Injective fd) (hw : Wired fd s) (h : InOrder s) : InOrder s' := by
  cases hstep with
  | accept c hidle hnet =>
      cases hnet with
      | accept _ hnew _ =>
          have hmoves := Net.Server.moves_newConnection hfd hw.sound hnew (hw.fresh c hnew) (peer c)
          exact (h.withNet hmoves).accepted _ c
  | poll l reports hidle hnet =>
      cases hnet with
      | poll _ _ _ hhandled hreports => exact h.withNet (Net.Server.moves_poll l reports)
  | handleEvent l c answer hidle hanswer hnet hsilent =>
      cases hnet with
      | handleEvent _ _ _ rest _ hactive =>
          exact h.withNet (hw.moves_handle hfd hactive hanswer)
  | onRead l c data hidle hanswer hnet hdelivers hcallback hparse =>
      cases hnet with
      | handleEvent _ _ _ rest _ hactive =>
          have hread := h.withNet (hw.moves_handle hfd hactive hanswer)
          exact hread.same rfl rfl rfl rfl rfl
  | defaultMessageCallback l c data hidle hanswer hnet hdelivers hcallback =>
      cases hnet with
      | handleEvent _ _ _ rest _ hactive =>
          exact h.withNet (hw.moves_handle hfd hactive hanswer)
  | doPendingFunctors l hidle hnet =>
      cases hnet with
      | doPendingFunctors _ _ hhandled => exact h.swap l
  | runFunctor l cb hreading hrunning hnet =>
      cases hnet with
      | runFunctor _ _ rest hfunctors =>
          have htaken := h.take_connection hrunning hfunctors
          have hran := htaken.withNet (hw.moves_runFunctor hfd hfunctors)
          exact (hran.same rfl rfl rfl rfl rfl).ranFunctor s.net cb
  | sendInLoop l c payload hreading hrunning hsending => exact h.take_sendInLoop hrunning hsending
  | producerTask item hreading hserver =>
      exact h.withServer hserver (Or.inr (Or.inl ⟨item, rfl⟩))
  | push_back item hserver =>
      have hpushed := h.withServer hserver (Or.inr (Or.inr ⟨item, rfl⟩))
      exact hpushed.same rfl rfl rfl rfl rfl
  | consumer e he hserver => exact h.withServer hserver (Or.inl he)
  | queueInLoop c hserver =>
      cases hserver with
      | queueInLoop _ srcbuf hsend hthread =>
          exact (h.queue_sendInLoop (c, srcbuf)).same rfl rfl rfl rfl rfl

end Order

/-! ### What is left to do -/

/-- A thread is in `onRead` for an established connection of its loop. -/
def ReadsOwn (s : Program Conn Loop) : Prop :=
  ∀ l item, s.reading l = some item →
    s.net.getLoop item.conn = l ∧ Opened (s.net.states item.conn)

/-- The step is none that waits for a client, nor a round of `doPendingFunctors` with none pending. -/
def ProgramEvent.Advances (s : Program Conn Loop) : ProgramEvent Conn Loop → Prop
  | loop (.accept _) => False
  | loop (.poll _ _) => False
  | loop (.doPendingFunctors l) => s.net.pending l ≠ [] ∨ s.sends l ≠ []
  | _ => True

/-- What the consumer does with an item, without the deque. -/
def Event.Executes : Event Conn Loop → Prop
  | execCommand _ _ => True
  | send _ => True
  | queueInLoop _ => True
  | _ => False

section Progress
variable {fd : Conn → ℤ} {peer : Conn → Net.SocketAddr} {s s' : Program Conn Loop} {l : Loop}
  {e : ProgramEvent Conn Loop}

theorem sessions_established (s : Program Conn Loop) (net : Net.Server Conn Loop) (c : Conn) :
    s.m_listSessions ⊆ (s.established fd net c).m_listSessions := by
  unfold Program.established
  split_ifs
  · exact List.subset_append_left _ _
  · exact List.Subset.refl _

theorem sessions_accepted (s : Program Conn Loop) (net : Net.Server Conn Loop) (c : Conn) :
    s.m_listSessions ⊆ (s.accepted fd net c).m_listSessions := by
  unfold Program.accepted
  simp only
  split_ifs
  · exact sessions_established
      { s with m_MessageCallback := update s.m_MessageCallback c .defaultMessageCallback } net c
  · exact List.Subset.refl _

theorem sessions_ranFunctor (s : Program Conn Loop) (net : Net.Server Conn Loop)
    (cb : Net.Functor Conn) : s.m_listSessions ⊆ (s.ranFunctor fd net cb).m_listSessions := by
  cases cb with
  | connectEstablished c => exact sessions_established s net c
  | removeConnectionInLoop c => exact List.Subset.refl _
  | connectDestroyed c => exact List.Subset.refl _

/-- Sessions are made and never removed. -/
theorem Program.Step.keeps_sessions (h : s.Step fd peer e s') :
    s.m_listSessions ⊆ s'.m_listSessions := by
  cases h with
  | @accept c net hidle hnet => exact sessions_accepted (s.withNet net) _ c
  | @runFunctor l cb net rest hreading hrunning hnet =>
      exact sessions_ranFunctor { s.withNet net with running := update s.running l rest } _ cb
  | _ => exact List.Subset.refl _

/-- An item stays in `onRead` of the thread that reads its connection. -/
theorem ReadsOwn.keep (h : ReadsOwn s) (hw : Wired fd s) (hw' : Wired fd s')
    (hstep : s.Step fd peer e s') {item : connAndCmd Conn} (hreading : s.reading l = some item) :
    s'.net.getLoop item.conn = l ∧ Opened (s'.net.states item.conn) := by
  obtain ⟨hloop, hopened⟩ := h l item hreading
  refine ⟨?_, ?_⟩
  · rw [(hstep.keeps_loops item.conn (hw.accepted hopened)).2, hloop]
  · rw [← hw'.listed]
    exact hstep.keeps_sessions ((hw.listed item.conn).mpr hopened)

theorem Program.Step.readsOwn (hstep : s.Step fd peer e s') (hfd : Injective fd) (hw : Wired fd s)
    (h : ReadsOwn s) : ReadsOwn s' := by
  have hw' := hw.step hfd hstep
  have hkeep : ∀ l item, s.reading l = some item →
      s'.net.getLoop item.conn = l ∧ Opened (s'.net.states item.conn) :=
    fun _ _ hreading => h.keep hw hw' hstep hreading
  have hsame : s'.reading = s.reading → ReadsOwn s' := by
    intro hreading l item hitem
    rw [hreading] at hitem
    exact hkeep l item hitem
  have hstep' := hstep
  cases hstep with
  | accept c hidle hnet => exact hsame (accepted_same _ _ _ _).2.2
  | @onRead l c data net buffer session vecCmd rest hidle hanswer hnet hdelivers hcallback hparse =>
      intro l' item hitem
      by_cases hl : l' = l
      · cases hnet with
        | handleEvent _ _ _ rest' _ hactive =>
            obtain ⟨haccepted, hloop, hopened⟩ := hw.active hactive
            rw [hw.callback c hopened] at hcallback
            cases hcallback
            simp only [hl, update_self, Option.some.injEq] at hitem
            subst hitem
            refine ⟨?_, ?_⟩
            · rw [(hstep'.keeps_loops c haccepted).2, hloop, hl]
            · rw [← hw'.listed]
              exact hstep'.keeps_sessions ((hw.listed c).mpr hopened)
      · simp only [update_of_ne hl] at hitem
        exact hkeep l' item hitem
  | runFunctor l cb hreading hrunning hnet => exact hsame (ranFunctor_same _ _ _ _).2.2
  | push_back item hserver =>
      intro l' item' hitem
      by_cases hl : l' = s.net.getLoop item.conn
      · simp only [hl, update_self] at hitem
        cases hitem
      · simp only [update_of_ne hl] at hitem
        exact hkeep l' item' hitem
  | _ => exact hsame rfl

end Progress

/-! ### How much is left to do -/

def Consumer.work : Consumer Conn → ℕ
  | .waiting => 6
  | .taken _ => 5
  | .executed _ _ => 4
  | .sending _ _ => 3
  | .sent => 0

/-- The steps that the program may still take: an item of the deque costs the consumer what it does
with it, a read also what becomes of its item, and an active channel may be read and closed. -/
def Program.work [Fintype Loop] (s : Program Conn Loop) : ℕ :=
  12 * total s.net.active + 9 * total (fun l => (s.reading l).toList) +
    (s.item.elim 1 fun _ => 0) + 7 * s.m_deque.length + s.consumer.work +
    2 * (total s.net.pending + total s.sends) + (total s.net.functors + total s.sending)

/-- One functor is queued at most. -/
def Net.Server.Queues (s s' : Net.Server Conn Loop) : Prop :=
  s'.pending = s.pending ∨ ∃ l cb, s'.pending = update s.pending l (s.pending l ++ [cb])

section Work
variable {fd : Conn → ℤ} {peer : Conn → Net.SocketAddr} {s s' : Program Conn Loop} {l : Loop}
  {e : ProgramEvent Conn Loop} {net net' : Net.Server Conn Loop} {store : YStore} {c : Conn}

theorem queues_handleClose (thread : Loop) (c : Conn) : net.Queues (net.handleClose fd thread c) := by
  unfold Net.Server.handleClose Net.Server.removeConnection Net.Server.removeConnectionInLoop
  simp only
  split_ifs
  · exact Or.inl rfl
  · exact Or.inl rfl
  · exact Or.inr ⟨_, _, rfl⟩
  · exact Or.inr ⟨_, _, rfl⟩

theorem queues_handle (thread : Loop) (c : Conn) (answer : Net.ReadAnswer) (rest : List Conn) :
    net.Queues (net.handle fd Net.retrieveAll thread c answer rest) := by
  have hclosed : net.Queues (net.closed fd thread c) := by
    unfold Net.Server.closed
    split_ifs
    · exact queues_handleClose thread c
    · exact Or.inl rfl
  have hread : ∀ t : Net.Server Conn Loop,
      (t.handleRead Net.retrieveAll c answer).pending = t.pending := by
    intro t
    unfold Net.Server.handleRead
    simp only
    split_ifs
    · rfl
    · rfl
  have hpending : (net.handle fd Net.retrieveAll thread c answer rest).pending =
      (net.closed fd thread c).pending := by
    change (if (net.closed fd thread c).nEvents c &&& Net.Server.readEvents ≠ 0 then
      (net.closed fd thread c).handleRead Net.retrieveAll c answer
      else net.closed fd thread c).pending = _
    split_ifs
    · exact hread _
    · rfl
  unfold Net.Server.Queues
  rwa [hpending]

/-- The functors of the connections that are left queue nothing. -/
theorem pending_runFunctor (hfd : Injective fd) (h : net.Sound fd) (thread : Loop)
    {cb : Net.Functor Conn} (hcb : Net.Spares net.accepted cb) :
    (net.runFunctor fd thread cb).pending = net.pending := by
  obtain ⟨c, hc, rfl | rfl⟩ := hcb
  · change (net.connectEstablished fd thread c).pending = net.pending
    unfold Net.Server.connectEstablished
    split_ifs
    · rfl
    · have hset := h.setState c .kConnected
      have hchange := hset.sound.change hfd .enableReading (c := c) (by rwa [hset.accepted])
      have hpending : ((net.setState c .kConnected).change fd .enableReading c).2.pending =
          net.pending := rfl
      generalize (net.setState c .kConnected).change fd .enableReading c = changed at hchange hpending
      obtain ⟨done, net'⟩ := changed
      obtain rfl : done = true := hchange.1
      exact hpending
  · rw [Net.Server.runFunctor, h.removeConnectionInLoop]

omit [DecidableEq Conn] in
theorem total_queues [Fintype Loop] (h : net.Queues net') :
    total net'.pending ≤ total net.pending + 1 := by
  rcases h with hsame | ⟨l, cb, hqueued⟩
  · rw [hsame]
    exact Nat.le_succ _
  · have hupdate := total_update net.pending l (net.pending l ++ [cb])
    rw [List.length_append, List.length_singleton] at hupdate
    rw [hqueued]
    omega

omit [DecidableEq Conn] [DecidableEq Loop] in
theorem work_congr [Fintype Loop] (hnet : s'.net = s.net) (hserver : s'.server = s.server)
    (hreading : s'.reading = s.reading) : s'.work = s.work := by
  have hitem : s'.item = s.item := congrArg Server.item hserver
  have hdeque : s'.m_deque = s.m_deque := congrArg Server.m_deque hserver
  have hconsumer : s'.consumer = s.consumer := congrArg Server.consumer hserver
  have hsends : s'.sends = s.sends := congrArg Server.pending hserver
  have hsending : s'.sending = s.sending := congrArg Server.functors hserver
  rw [Program.work, hnet, hreading, hitem, hdeque, hconsumer, hsends, hsending, Program.work]

/-- An active channel is handled, and perhaps something is read. -/
theorem Wired.work_read [Fintype Loop] (hw : Wired fd s) (hfd : Injective fd) {rest : List Conn}
    {answer : Net.ReadAnswer} (hactive : s.net.active l = c :: rest) (hanswer : answer.InRange)
    (hidle : s.reading l = none) (item : Option (connAndCmd Conn)) :
    { s.withNet (s.net.handle fd Net.retrieveAll l c answer rest) with
      reading := update s.reading l item }.work < s.work := by
  have hfunctors := (hw.moves_handle hfd hactive hanswer).functors
  have hhandled : (s.net.handle fd Net.retrieveAll l c answer rest).active =
      update s.net.active l rest :=
    congrArg (fun active : Loop → List Conn => update active l rest)
      (hw.sound.handled hfd Net.retrieveAll hactive answer).active
  have hone := total_update s.net.active l rest
  have hqueues : s.net.Queues (s.net.handle fd Net.retrieveAll l c answer rest) :=
    queues_handle l c answer rest
  have htwo := total_queues hqueues
  have hthree := total_update (fun l => (s.reading l).toList) l item.toList
  have hreads : (fun l' => (update s.reading l item l').toList) =
      update (fun l => (s.reading l).toList) l item.toList := by
    funext l'
    by_cases hl : l' = l
    · rw [hl, update_self, update_self]
    · rw [update_of_ne hl, update_of_ne hl]
  have hitem : item.toList.length ≤ 1 := by
    cases item with
    | none => exact Nat.zero_le 1
    | some item => exact le_refl 1
  rw [hactive, List.length_cons] at hone
  simp only [hidle, Option.toList_none, List.length_nil] at hthree
  simp only [Program.work, Program.withNet, hhandled, hreads, hfunctors]
  omega

theorem Wired.work_handle [Fintype Loop] (hw : Wired fd s) (hfd : Injective fd) {rest : List Conn}
    {answer : Net.ReadAnswer} (hactive : s.net.active l = c :: rest) (hanswer : answer.InRange)
    (hidle : s.reading l = none) :
    (s.withNet (s.net.handle fd Net.retrieveAll l c answer rest)).work < s.work := by
  have hread := hw.work_read hfd hactive hanswer hidle none
  rwa [← hidle, update_eq_self] at hread

omit [DecidableEq Conn] [DecidableEq Loop] in
theorem work_consumer [Fintype Loop] {consumer : Consumer Conn}
    (h : consumer.work < s.consumer.work) :
    { s with store := store, consumer := consumer }.work < s.work := by
  simp only [Program.work]
  omega

/-- The consumer goes on with what it has taken. -/
theorem work_withServer [Fintype Loop] {loopOf : Conn → Loop} {fe : Event Conn Loop}
    {server : Server Conn Loop} (hstep : s.server.Step loopOf fe server) (hkind : fe.OfConsumer)
    (hcoherent : Coherent loopOf s.server) : (s.withServer server).work < s.work := by
  have hfront := hcoherent.front
  cases hstep with
  | front temp rest hlock hdeque =>
      have hwork : s.consumer.work = 6 := congrArg Consumer.work hlock
      exact work_consumer (hwork ▸ Nat.lt_succ_self 5)
  | execCommand temp srcbuf store htemp hexec =>
      have hwork : s.consumer.work = 5 := congrArg Consumer.work htemp
      exact work_consumer (hwork ▸ Nat.lt_succ_self 4)
  | send conn srcbuf hexec hstate =>
      have hwork : s.consumer.work = 4 := congrArg Consumer.work hexec
      exact work_consumer (hwork ▸ Nat.lt_succ_self 3)
  | sendClosed conn srcbuf hexec hstate =>
      have hwork : s.consumer.work = 4 := congrArg Consumer.work hexec
      exact work_consumer (hwork ▸ Nat.succ_pos 3)
  | pop_front hsent =>
      rw [hsent] at hfront
      have hlength : 0 < s.m_deque.length := List.length_pos_of_ne_nil hfront
      have hwork : (.waiting : Consumer Conn).work = 6 := rfl
      simp only [Program.work, Program.withServer, Program.server, List.length_tail, hwork]
      omega
  | _ => exact hkind.elim

/-- Every step that does not wait for a client leaves less to do. -/
theorem Program.Step.work_lt [Fintype Loop] (hstep : s.Step fd peer e s') (hfd : Injective fd)
    (hw : Wired fd s) (hcoherent : Coherent s.net.getLoop s.server)
    (hitem : ∀ item, s.item = some item → s.reading (s.net.getLoop item.conn) = some item)
    (hadvances : e.Advances s) : s'.work < s.work := by
  cases hstep with
  | accept c hidle hnet => exact hadvances.elim
  | poll l reports hidle hnet => exact hadvances.elim
  | handleEvent l c answer hidle hanswer hnet hsilent =>
      cases hnet with
      | handleEvent _ _ _ rest _ hactive =>
          exact hw.work_handle hfd hactive hanswer hidle.1
  | onRead l c data hidle hanswer hnet hdelivers hcallback hparse =>
      cases hnet with
      | handleEvent _ _ _ rest _ hactive =>
          exact hw.work_read hfd hactive hanswer hidle.1 _
  | defaultMessageCallback l c data hidle hanswer hnet hdelivers hcallback =>
      cases hnet with
      | handleEvent _ _ _ rest _ hactive =>
          exact hw.work_handle hfd hactive hanswer hidle.1
  | doPendingFunctors l hidle hnet =>
      cases hnet with
      | doPendingFunctors _ hfunctors hhandled =>
          have hone := total_update s.net.pending l []
          have htwo := total_update s.net.functors l (s.net.pending l)
          have hthree := total_update s.sends l []
          have hfour := total_update s.sending l (s.sends l)
          have hsome : 0 < (s.net.pending l).length + (s.sends l).length := by
            rcases hadvances with hne | hne
            · exact Nat.add_pos_left (List.length_pos_of_ne_nil hne) _
            · exact Nat.add_pos_right _ (List.length_pos_of_ne_nil hne)
          rw [hfunctors] at htwo
          rw [hidle.2] at hfour
          simp only [List.length_nil] at hone htwo hthree hfour
          simp only [Program.work]
          omega
  | runFunctor l cb hreading hrunning hnet =>
      cases hnet with
      | runFunctor _ _ rest hfunctors =>
          obtain ⟨htaken, hspares⟩ := hw.sound.taken hfunctors
          have hpending := pending_runFunctor hfd htaken l hspares
          have hmoves := hw.moves_runFunctor hfd hfunctors
          have hkept := hw.sound.run hfd hfunctors
          have hone := total_update s.net.functors l rest
          rw [hfunctors, List.length_cons] at hone
          obtain ⟨hnet, hserver, hread⟩ := ranFunctor_same fd
            { s.withNet ({ s.net with functors := update s.net.functors l rest }.runFunctor
              fd l cb) with running := update s.running l _ } s.net cb
          rw [work_congr hnet hserver hread]
          simp only [Program.work, Program.withNet, hpending, hmoves.functors, hkept.active]
          omega
  | sendInLoop l c payload hreading hrunning hsending =>
      rename_i behind rest
      have hone := total_update s.sending l behind
      rw [hsending, List.length_cons] at hone
      simp only [Program.work]
      omega
  | producerTask item hreading hserver =>
      cases hserver with
      | producerTask _ hlock hopen =>
          have hheld : s.item.elim 1 (fun _ => 0) = 1 := by
            rw [show s.item = none from hlock, Option.elim_none]
          simp only [Program.work, Program.withServer, Program.server, hheld, Option.elim_some]
          omega
  | push_back item hserver =>
      cases hserver with
      | push_back _ hpushed hlock hfull =>
          have hreads : (fun l => (update s.reading (s.net.getLoop item.conn) none l).toList) =
              update (fun l => (s.reading l).toList) (s.net.getLoop item.conn) [] := by
            funext l
            by_cases hl : l = s.net.getLoop item.conn
            · rw [hl, update_self, update_self, Option.toList_none]
            · rw [update_of_ne hl, update_of_ne hl]
          have hone := total_update (fun l => (s.reading l).toList) (s.net.getLoop item.conn) []
          simp only [hitem item hpushed, Option.toList_some, List.length_singleton,
            List.length_nil] at hone
          have hheld : s.item.elim 1 (fun _ => 0) = 0 := by
            rw [show s.item = some item from hpushed, Option.elim_some]
          simp only [Program.work, Program.withServer, Program.server, hreads, hheld,
            Option.elim_none, List.length_append, List.length_singleton]
          omega
  | consumer e he hserver => exact work_withServer hserver he hcoherent
  | queueInLoop c hserver =>
      cases hserver with
      | queueInLoop _ srcbuf hsend hthread =>
          have hwork : s.consumer.work = 3 := congrArg Consumer.work hsend
          have hdone : (.sent : Consumer Conn).work = 0 := rfl
          have hone := total_update s.sends (s.net.getLoop c)
            (s.sends (s.net.getLoop c) ++ [(c, srcbuf)])
          rw [List.length_append, List.length_singleton] at hone
          simp only [Program.work, Program.withServer, Program.server, hwork, hdone]
          omega

end Work

/-- What the steps of the program need and keep. -/
structure Steady (fd : Conn → ℤ) (store : YStore) (s : Program Conn Loop) : Prop where
  accounts : ∃ history, ProgramAccounts fd store history s
  order : InOrder s
  own : ReadsOwn s

section Rest
variable {fd : Conn → ℤ} {peer : Conn → Net.SocketAddr} {s s' : Program Conn Loop}
  {e : ProgramEvent Conn Loop} {store : YStore}

theorem Steady.start (fd : Conn → ℤ) (m_ptrLoop : Loop) (m_vecLoops : List Loop) (id : ℤ)
    (store : YStore) :
    Steady fd store (.start m_ptrLoop m_vecLoops id store : Program Conn Loop) where
  accounts := ⟨[], programAccounts_start fd m_ptrLoop m_vecLoops id store⟩
  order := ⟨fun _ => rfl, fun _ => rfl, fun _ => rfl, fun _ => rfl⟩
  own _ _ := nofun

theorem Steady.step (h : Steady fd store s) (hfd : Injective fd) (hstep : s.Step fd peer e s') :
    Steady fd store s' := by
  obtain ⟨⟨history, haccounts⟩, horder, hown⟩ := h
  exact ⟨⟨e :: history, haccounts.next hfd hstep⟩, hstep.inOrder hfd haccounts.wired horder,
    hstep.readsOwn hfd haccounts.wired hown⟩

theorem Steady.work_lt [Fintype Loop] (h : Steady fd store s) (hfd : Injective fd)
    (hadvances : e.Advances s) (hstep : s.Step fd peer e s') : s'.work < s.work := by
  obtain ⟨⟨history, haccounts⟩, -, -⟩ := h
  obtain ⟨seen, f, hmirrors⟩ := haccounts.seen s.net.getLoop fun _ _ => rfl
  obtain ⟨trace, run, -⟩ := hmirrors.run
  have hitem := (frontAccounts_of_run run).coherent.item
  rw [hmirrors.sees.server, hmirrors.sees.reading] at hitem
  exact hstep.work_lt hfd haccounts.wired hmirrors.coherent hitem hadvances

end Rest

end Yedis
