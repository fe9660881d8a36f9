import Mathlib.Algebra.Order.BigOperators.Group.Finset
import Yedis.Progress
import Yedis.TaskQueue

/-!
# The program with its mutexes

Here the threads of the program go through `TaskManager` one operation on a mutex or a
condition variable after the other. The loops do nothing else while they are in
`producerTask`, nor does the consumer execute a command without `m_mtx`. What the
threads do is what the program does, and they come to rest as it does.
-/

namespace Yedis
open Fifo Function Runs TaskManager
open TaskManager.Condition TaskManager.Phase TaskManager.Place

variable {Conn Loop : Type} [DecidableEq Conn] [DecidableEq Loop]

namespace TaskManager

variable {T Item : Type}

/-- The item of a producer that has not put it into the deque. -/
def Place.inHand : Place Item → Option Item
  | calling item => some item
  | entering item => some item
  | wait (m_repositoryNotFull item) _ => some item
  | ready (m_repositoryNotFull item) => some item
  | _ => none

/-- The item that the consumer executes. -/
def Place.taken : Place Item → Option Item
  | executing temp => some temp
  | _ => none

/-- The next operation of a thread there concerns only a mutex or a condition variable. -/
def Place.Silent : Place Item → Prop
  | calling _ => False
  | ready _ => False
  | executing _ => False
  | _ => True

/-- The item of the thread that holds `m_itemCounterMtx`. -/
def Tasks.item (s : Tasks T Item) : Option Item :=
  s.m_itemCounterMtx.bind fun t => (s.place t).inHand

end TaskManager

structure Threaded (Conn Loop : Type) where
  net : Net.Server Conn Loop
  m_MessageCallback : Conn → MessageCallback Conn := fun _ => .defaultMessageCallback
  m_listSessions : List Conn := []
  tasks : Tasks Loop (connAndCmd Conn) := .start
  /-- how far the consumer has come with the item that it executes -/
  consumer : Consumer Conn := .waiting
  store : YStore
  sends : Loop → List (Conn × Bytes) := fun _ => []
  sending : Loop → List (Conn × Bytes) := fun _ => []
  order : Loop → List FunctorKind := fun _ => []
  running : Loop → List FunctorKind := fun _ => []

namespace Threaded

/-- The program whose steps the threads take. -/
def program (s : Threaded Conn Loop) : Program Conn Loop where
  net := s.net
  m_MessageCallback := s.m_MessageCallback
  m_listSessions := s.m_listSessions
  reading l := (s.tasks.place (.loop l)).inHand
  m_deque := s.tasks.m_deque
  item := s.tasks.item
  consumer := s.consumer
  store := s.store
  sends := s.sends
  sending := s.sending
  order := s.order
  running := s.running

/-- All but the task queue goes on as in `p`. -/
def withProgram (s : Threaded Conn Loop) (p : Program Conn Loop) : Threaded Conn Loop where
  net := p.net
  m_MessageCallback := p.m_MessageCallback
  m_listSessions := p.m_listSessions
  tasks := s.tasks
  consumer := p.consumer
  store := p.store
  sends := p.sends
  sending := p.sending
  order := p.order
  running := p.running

def start (m_ptrLoop : Loop) (m_vecLoops : List Loop) (m_nNextConnId : ℤ) (store : YStore) :
    Threaded Conn Loop where
  net := .start m_ptrLoop m_vecLoops (ascii "YedisServer") m_nNextConnId
  store := store

end Threaded

/-- The loop whose thread takes a step that does not concern the task queue. -/
def ProgramEvent.thread (net : Net.Server Conn Loop) : ProgramEvent Conn Loop → Option Loop
  | loop (.accept _) => some net.m_ptrLoop
  | loop (.poll l _) => some l
  | loop (.handleEvent l _ _) => some l
  | loop (.doPendingFunctors l) => some l
  | loop (.runFunctor l _) => some l
  | message c _ .defaultMessageCallback => some (net.getLoop c)
  | task (.sendInLoop c _) => some (net.getLoop c)
  | _ => none

inductive ThreadedEvent (Conn Loop : Type)
  | program (e : ProgramEvent Conn Loop)
  | silent
  | wakesUp

/-- The steps of the program that a step is. -/
def ThreadedEvent.visible : ThreadedEvent Conn Loop → List (ProgramEvent Conn Loop)
  | program e => [e]
  | _ => []

inductive Threaded.Step (fd : Conn → ℤ) (peer : Conn → Net.SocketAddr) (s : Threaded Conn Loop) :
    ThreadedEvent Conn Loop → Threaded Conn Loop → Prop
  | loop (l : Loop) {e : ProgramEvent Conn Loop} {p : Program Conn Loop}
      (hthread : e.thread s.net = some l) (hidle : s.tasks.place (.loop l) = idle)
      (h : s.program.Step fd peer e p) : Step fd peer s (.program e) (s.withProgram p)
  | onRead (l : Loop) {c session : Conn} {data : Bytes} {item : connAndCmd Conn}
      {p : Program Conn Loop} {tasks : Tasks Loop (connAndCmd Conn)} (hthread : s.net.getLoop c = l)
      (h : s.program.Step fd peer (.message c data (.onRead session)) p)
      (hitem : p.reading l = some item)
      (htasks : TaskManager.Step s.tasks (.producerTask l item) tasks) :
      Step fd peer s (.program (.message c data (.onRead session)))
        { s.withProgram p with tasks := tasks }
  | producerTask (t : Thread Loop) {item : connAndCmd Conn}
      {tasks : Tasks Loop (connAndCmd Conn)} (hplace : s.tasks.place t = calling item)
      (htasks : TaskManager.Step s.tasks (.moves t) tasks) :
      Step fd peer s (.program (.task (.producerTask item))) { s with tasks := tasks }
  | push_back (t : Thread Loop) {item : connAndCmd Conn} {tasks : Tasks Loop (connAndCmd Conn)}
      (hplace : s.tasks.place t = ready (m_repositoryNotFull item))
      (htasks : TaskManager.Step s.tasks (.moves t) tasks) :
      Step fd peer s (.program (.task (.push_back item))) { s with tasks := tasks }
  | front (t : Thread Loop) {temp : connAndCmd Conn} {tasks : Tasks Loop (connAndCmd Conn)}
      (hplace : s.tasks.place t = ready m_repositoryNotEmpty)
      (hfront : s.tasks.m_deque.head? = some temp)
      (htasks : TaskManager.Step s.tasks (.moves t) tasks) :
      Step fd peer s (.program (.task (.front temp)))
        { s with tasks := tasks, consumer := .taken temp }
  | executes {e : Event Conn Loop} {p : Program Conn Loop} (he : e.Executes)
      (h : s.program.Step fd peer (.task e) p) :
      Step fd peer s (.program (.task e)) (s.withProgram p)
  | pop_front (t : Thread Loop) {temp : connAndCmd Conn} {tasks : Tasks Loop (connAndCmd Conn)}
      (hplace : s.tasks.place t = executing temp) (hsent : s.consumer = .sent)
      (htasks : TaskManager.Step s.tasks (.moves t) tasks) :
      Step fd peer s (.program (.task .pop_front)) { s with tasks := tasks, consumer := .waiting }
  | silent (t : Thread Loop) {tasks : Tasks Loop (connAndCmd Conn)}
      (hplace : (s.tasks.place t).Silent) (htasks : TaskManager.Step s.tasks (.moves t) tasks) :
      Step fd peer s .silent { s with tasks := tasks }
  | wakesUp (t : Thread Loop) {tasks : Tasks Loop (connAndCmd Conn)}
      (htasks : TaskManager.Step s.tasks (.wakesUp t) tasks) :
      Step fd peer s .wakesUp { s with tasks := tasks }

/-! ### What the operations do to the task queue -/

namespace TaskManager

section Operations
variable {T Item : Type} [DecidableEq T] {s s' : Tasks T Item} {t : Thread T} {item : Item}
  {p : Place Item}

theorem inHand_notifyNotFull (p : Place Item) : p.notifyNotFull.inHand = p.inHand := by
  unfold Place.notifyNotFull
  split <;> rfl

theorem inHand_notifyNotEmpty (p : Place Item) : p.notifyNotEmpty.inHand = p.inHand := by
  unfold Place.notifyNotEmpty
  split <;> rfl

/-- A thread is a producer or the consumer for good. -/
theorem Step.ofConsumer {e : TaskEvent T Item} (h : Step s e s') (u : Thread T) :
    (s'.place u).OfConsumer ↔ (s.place u).OfConsumer := by
  have hone : ∀ {t : Thread T} {p : Place Item}, (p.OfConsumer ↔ (s.place t).OfConsumer) →
      ((update s.place t p u).OfConsumer ↔ (s.place u).OfConsumer) := by
    intro t p hsame
    by_cases hu : u = t
    · rw [hu, update_self, hsame]
    · rw [update_of_ne hu]
  cases h with
  | producerTask hp => exact hone (by rw [hp]; exact Iff.rfl)
  | lockItemCounterMtx hp hfree => exact hone (by rw [hp]; exact Iff.rfl)
  | lockProducer hp hfree => exact hone (by rw [hp]; exact Iff.rfl)
  | lockConsumer hp hfree => exact hone (by rw [hp]; exact Iff.rfl)
  | @predicateTrue t c hp hready => exact hone (by rw [hp]; cases c <;> exact Iff.rfl)
  | @predicateFalse t c hp hready => exact hone (by rw [hp]; cases c <;> exact Iff.rfl)
  | @wait t c hp => exact hone (by rw [hp]; cases c <;> exact Iff.rfl)
  | @wakesUp t c hp => exact hone (by rw [hp]; cases c <;> exact Iff.rfl)
  | @lockAgain t c hp hfree => exact hone (by rw [hp]; cases c <;> exact Iff.rfl)
  | push_back hp =>
      rw [ofConsumer_notifyNotEmpty]
      exact hone (by rw [hp]; exact Iff.rfl)
  | front hp hfront => exact hone (by rw [hp]; exact Iff.rfl)
  | pop_front hp =>
      rw [ofConsumer_notifyNotFull]
      exact hone (by rw [hp]; exact Iff.rfl)
  | unlockProducer hp => exact hone (by rw [hp]; exact Iff.rfl)
  | unlockConsumer hp => exact hone (by rw [hp]; exact Iff.rfl)
  | unlockItemCounterMtx hp => exact hone (by rw [hp]; exact Iff.rfl)

omit [DecidableEq T] in
/-- Nothing is put into the deque or taken out, and every producer keeps its item. -/
structure SameItems (s s' : Tasks T Item) : Prop where
  deque : s'.m_deque = s.m_deque
  inHand : ∀ u, (s'.place u).inHand = (s.place u).inHand
  item : s'.item = s.item

theorem inHand_update {place : Thread T → Place Item} (h : p.inHand = (place t).inHand)
    (u : Thread T) : (update place t p u).inHand = (place u).inHand := by
  by_cases hu : u = t
  · rw [hu, update_self, h]
  · rw [update_of_ne hu]

/-- A thread goes on with the same item and the locks that it has. -/
theorem SameItems.move {mtx : Option (Thread T)} (h : p.inHand = (s.place t).inHand) :
    SameItems s { s with m_mtx := mtx, place := update s.place t p } where
  deque := rfl
  inHand := inHand_update h
  item := by
    unfold Tasks.item
    simp only [inHand_update h]

theorem Consistent.sameItems (hc : Consistent s) {e : TaskEvent T Item} (h : Step s e s')
    (he : e = .wakesUp t ∨ e = .moves t ∧ (s.place t).Silent) : SameItems s s' := by
  have hsilent : ∀ u, e = .moves u → (s.place u).Silent := by
    rintro u rfl
    rcases he with he | ⟨he, hplace⟩
    · cases he
    · cases he
      exact hplace
  cases h with
  | producerTask hp => rcases he with he | ⟨he, -⟩ <;> cases he
  | @lockItemCounterMtx u item hp hfree =>
      have hplace := hsilent u rfl
      rw [hp] at hplace
      exact hplace.elim
  | lockProducer hp hfree => exact .move (by rw [hp]; rfl)
  | lockConsumer hp hfree => exact .move (by rw [hp]; rfl)
  | @predicateTrue u c hp hready => exact .move (by rw [hp]; cases c <;> rfl)
  | @predicateFalse u c hp hready => exact .move (by rw [hp]; cases c <;> rfl)
  | @wait u c hp => exact .move (by rw [hp]; cases c <;> rfl)
  | @wakesUp u c hp => exact .move (by rw [hp]; cases c <;> rfl)
  | @lockAgain u c hp hfree => exact .move (by rw [hp]; cases c <;> rfl)
  | @push_back u item hp =>
      have hplace := hsilent u rfl
      rw [hp] at hplace
      exact hplace.elim
  | @front u temp hp hfront =>
      have hplace := hsilent u rfl
      rw [hp] at hplace
      exact hplace.elim
  | @pop_front u temp hp =>
      have hplace := hsilent u rfl
      rw [hp] at hplace
      exact hplace.elim
  | unlockProducer hp => exact .move (by rw [hp]; rfl)
  | unlockConsumer hp => exact .move (by rw [hp]; rfl)
  | @unlockItemCounterMtx u hp =>
      have howner : s.m_itemCounterMtx = some u := by
        rw [hc.itemCounterMtx u, hp]
        trivial
      refine ⟨rfl, inHand_update (by rw [hp]; rfl), ?_⟩
      rw [Tasks.item, Tasks.item, howner, Option.bind_some, hp]
      rfl

theorem taken_notifyNotFull (p : Place Item) : p.notifyNotFull.taken = p.taken := by
  unfold Place.notifyNotFull
  split <;> rfl

theorem taken_notifyNotEmpty (p : Place Item) : p.notifyNotEmpty.taken = p.taken := by
  unfold Place.notifyNotEmpty
  split <;> rfl

theorem taken_update {place : Thread T → Place Item} (h : p.taken = (place t).taken)
    (u : Thread T) : (update place t p u).taken = (place u).taken := by
  by_cases hu : u = t
  · rw [hu, update_self, h]
  · rw [update_of_ne hu]

/-- Only the consumer takes an item, and drops it when it has been executed. -/
theorem Step.sameTaken {e : TaskEvent T Item} (h : Step s e s')
    (he : ∀ t, e = .moves t →
      s.place t ≠ ready m_repositoryNotEmpty ∧ ∀ temp, s.place t ≠ executing temp) (u : Thread T) :
    (s'.place u).taken = (s.place u).taken := by
  cases h with
  | producerTask hp => exact taken_update (by rw [hp]; rfl) u
  | lockItemCounterMtx hp hfree => exact taken_update (by rw [hp]; rfl) u
  | lockProducer hp hfree => exact taken_update (by rw [hp]; rfl) u
  | lockConsumer hp hfree => exact taken_update (by rw [hp]; rfl) u
  | predicateTrue hp hready => exact taken_update (by rw [hp]; rfl) u
  | predicateFalse hp hready => exact taken_update (by rw [hp]; rfl) u
  | wait hp => exact taken_update (by rw [hp]; rfl) u
  | wakesUp hp => exact taken_update (by rw [hp]; rfl) u
  | lockAgain hp hfree => exact taken_update (by rw [hp]; rfl) u
  | push_back hp => rw [taken_notifyNotEmpty, taken_update (by rw [hp]; rfl) u]
  | front hp hfront => exact absurd hp (he _ rfl).1
  | pop_front hp => exact absurd hp ((he _ rfl).2 _)
  | unlockProducer hp => exact taken_update (by rw [hp]; rfl) u
  | unlockConsumer hp => exact taken_update (by rw [hp]; rfl) u
  | unlockItemCounterMtx hp => exact taken_update (by rw [hp]; rfl) u

theorem Step.of_calling (h : Step s (.moves t) s') (hp : s.place t = calling item) :
    s.m_itemCounterMtx = none ∧
      s' = { s with
        m_itemCounterMtx := some t
        place := update s.place t (entering item) } := by
  cases h with
  | lockItemCounterMtx hplace hfree =>
      rw [hp] at hplace
      cases hplace
      exact ⟨hfree, rfl⟩
  | _ => simp_all

theorem Step.of_ready_notFull (h : Step s (.moves t) s')
    (hp : s.place t = ready (m_repositoryNotFull item)) :
    s' = { s with
      m_deque := s.m_deque ++ [item]
      place := fun u => (update s.place t pushed u).notifyNotEmpty } := by
  cases h with
  | push_back hplace =>
      rw [hp] at hplace
      cases hplace
      rfl
  | _ => simp_all

theorem Step.of_ready_notEmpty (h : Step s (.moves t) s') (hp : s.place t = ready m_repositoryNotEmpty)
    {temp : Item} (hfront : s.m_deque.head? = some temp) :
    s' = { s with place := update s.place t (executing temp) } := by
  cases h with
  | front hplace hhead =>
      rw [hfront] at hhead
      cases hhead
      rfl
  | _ => simp_all

theorem Step.of_executing (h : Step s (.moves t) s') {temp : Item}
    (hp : s.place t = executing temp) :
    s' = { s with
      m_deque := s.m_deque.tail
      place := fun u => (update s.place t popped u).notifyNotFull } := by
  cases h with
  | pop_front hplace => rfl
  | _ => simp_all

end Operations

end TaskManager

/-! ### What the other steps leave alone -/

section Frame
variable {fd : Conn → ℤ} {peer : Conn → Net.SocketAddr} {s p : Program Conn Loop}
  {t : Threaded Conn Loop}

/-- The steps of a loop that are no part of `producerTask`. -/
theorem Program.Step.apart {e : ProgramEvent Conn Loop} {l : Loop} (h : s.Step fd peer e p)
    (hthread : e.thread s.net = some l) :
    p.reading = s.reading ∧ p.m_deque = s.m_deque ∧ p.item = s.item ∧ p.consumer = s.consumer := by
  cases h with
  | @accept c net hidle hnet =>
      obtain ⟨-, hserver, hreading⟩ :=
        accepted_same fd (s.withNet net) (s.net.enter c (peer c)) c
      exact ⟨hreading, congrArg Server.m_deque hserver, congrArg Server.item hserver,
        congrArg Server.consumer hserver⟩
  | @runFunctor l cb net rest hreading hrunning hnet =>
      obtain ⟨-, hserver, hreading⟩ :=
        ranFunctor_same fd { s.withNet net with running := update s.running l rest } s.net cb
      exact ⟨hreading, congrArg Server.m_deque hserver, congrArg Server.item hserver,
        congrArg Server.consumer hserver⟩
  | onRead l c data hidle hanswer hnet hdelivers hcallback hparse => cases hthread
  | producerTask item hreading hserver => cases hthread
  | push_back item hserver => cases hthread
  | consumer e he hserver =>
      cases e with
      | sendInLoop conn payload => exact he.elim
      | _ => cases hthread
  | queueInLoop c hserver => cases hthread
  | _ => exact ⟨rfl, rfl, rfl, rfl⟩

/-- What the consumer does with an item in hand. -/
theorem Program.Step.executing {e : Event Conn Loop} (h : s.Step fd peer (.task e) p)
    (he : e.Executes) : p.reading = s.reading ∧ p.m_deque = s.m_deque ∧ p.item = s.item ∧
      s.consumer ≠ .waiting ∧ p.consumer ≠ .waiting := by
  cases h with
  | sendInLoop l c payload hreading hrunning hsending => exact he.elim
  | producerTask item hreading hserver => exact he.elim
  | push_back item hserver => exact he.elim
  | consumer _ hconsumer hserver =>
      cases hserver with
      | execCommand temp srcbuf store htemp hexec =>
          have hbusy : s.consumer = .taken temp := htemp
          exact ⟨rfl, rfl, rfl, by rw [hbusy]; nofun, nofun⟩
      | send conn srcbuf hexec hstate =>
          have hbusy : s.consumer = .executed conn srcbuf := hexec
          exact ⟨rfl, rfl, rfl, by rw [hbusy]; nofun, nofun⟩
      | sendClosed conn srcbuf hexec hstate =>
          have hbusy : s.consumer = .executed conn srcbuf := hexec
          exact ⟨rfl, rfl, rfl, by rw [hbusy]; nofun, nofun⟩
      | queueInLoop conn srcbuf hsend hthread => exact hconsumer.elim
      | _ => exact he.elim
  | queueInLoop c hserver =>
      cases hserver with
      | queueInLoop _ srcbuf hsend hthread =>
          have hbusy : s.consumer = .sending c srcbuf := hsend
          exact ⟨rfl, rfl, rfl, by rw [hbusy]; nofun, nofun⟩

omit [DecidableEq Conn] [DecidableEq Loop] in
theorem program_withProgram (t : Threaded Conn Loop) (tasks : Tasks Loop (connAndCmd Conn))
    (hreading : p.reading = fun l => (tasks.place (.loop l)).inHand)
    (hdeque : p.m_deque = tasks.m_deque) (hitem : p.item = tasks.item) :
    { t.withProgram p with tasks := tasks }.program = p := by
  obtain ⟨net, callback, sessions, reading, deque, item, consumer, store, sends, sending, order,
    running⟩ := p
  obtain rfl : reading = fun l => (tasks.place (.loop l)).inHand := hreading
  obtain rfl : deque = tasks.m_deque := hdeque
  obtain rfl : item = tasks.item := hitem
  rfl

omit [DecidableEq Conn] [DecidableEq Loop] in
theorem program_sameItems {tasks : Tasks Loop (connAndCmd Conn)} (h : SameItems t.tasks tasks) :
    { t with tasks := tasks }.program = t.program := by
  have hreading : (fun l => (tasks.place (.loop l)).inHand) =
      fun l => (t.tasks.place (.loop l)).inHand := funext fun l => h.inHand (.loop l)
  simp only [Threaded.program, hreading, h.deque, h.item]

end Frame

/-! ### The threads do what the program does -/

/-- What holds of the threads after steps that were `history` for the program. -/
structure Threaded.Follows (fd : Conn → ℤ) (peer : Conn → Net.SocketAddr) (p₀ : Program Conn Loop)
    (history : List (ProgramEvent Conn Loop)) (s : Threaded Conn Loop) : Prop where
  run : ∃ trace, Run (Program.Step fd peer) p₀ trace s.program ∧ labels trace = history
  tasks : Consistent s.tasks
  producers : ∀ l, ¬ (s.tasks.place (.loop l)).OfConsumer
  stage : s.consumer = .waiting ↔ (s.tasks.place .consumer).taken = none

section Follow
variable {fd : Conn → ℤ} {peer : Conn → Net.SocketAddr} {p₀ : Program Conn Loop}
  {history : List (ProgramEvent Conn Loop)} {s s' : Threaded Conn Loop}
  {e : ThreadedEvent Conn Loop} {store : YStore}

/-- The program takes a step, and the threads may go on in the task queue. -/
theorem Threaded.Follows.visible (h : s.Follows fd peer p₀ history)
    {e : ProgramEvent Conn Loop} {p : Program Conn Loop} {tasks : Tasks Loop (connAndCmd Conn)}
    (hstep : s.program.Step fd peer e p)
    (hreading : p.reading = fun l => (tasks.place (.loop l)).inHand)
    (hdeque : p.m_deque = tasks.m_deque) (hitem : p.item = tasks.item) (htasks : Consistent tasks)
    (hproducers : ∀ l, ¬ (tasks.place (.loop l)).OfConsumer)
    (hstage : p.consumer = .waiting ↔ (tasks.place .consumer).taken = none) :
    { s.withProgram p with tasks := tasks }.Follows fd peer p₀ (e :: history) := by
  obtain ⟨trace, run, hlabels⟩ := h.run
  have hsame := program_withProgram s tasks hreading hdeque hitem
  refine ⟨⟨_, (?_ : Run _ p₀ (⟨s.program, e, p⟩ :: trace) _), by rw [labels_cons, hlabels]⟩,
    htasks, hproducers, hstage⟩
  rw [hsame]
  exact run.next hstep

theorem Threaded.Follows.producers_step (h : s.Follows fd peer p₀ history)
    {e : TaskEvent Loop (connAndCmd Conn)} {tasks : Tasks Loop (connAndCmd Conn)}
    (htasks : TaskManager.Step s.tasks e tasks) (l : Loop) :
    ¬ (tasks.place (.loop l)).OfConsumer := by
  rw [htasks.ofConsumer]
  exact h.producers l

/-- Where the loops go on or the consumer executes, the task queue stays as it is. -/
theorem Threaded.Follows.step_withProgram (h : s.Follows fd peer p₀ history)
    {e : ProgramEvent Conn Loop} {p : Program Conn Loop} (hstep : s.program.Step fd peer e p)
    (hreading : p.reading = s.program.reading) (hdeque : p.m_deque = s.program.m_deque)
    (hitem : p.item = s.program.item) (hstage : p.consumer = .waiting ↔ s.consumer = .waiting) :
    (s.withProgram p).Follows fd peer p₀ (e :: history) :=
  h.visible hstep hreading hdeque hitem h.tasks h.producers (hstage.trans h.stage)

/-- A session reads and goes into `producerTask`. -/
theorem Threaded.Follows.step_onRead (h : s.Follows fd peer p₀ history)
    (hsteady : Steady fd store s.program) {l : Loop} {c session : Conn} {data : Bytes}
    {item : connAndCmd Conn} {p : Program Conn Loop} {tasks : Tasks Loop (connAndCmd Conn)}
    (hthread : s.net.getLoop c = l) (hstep : s.program.Step fd peer (.message c data (.onRead session)) p)
    (hitem : p.reading l = some item)
    (htasks : TaskManager.Step s.tasks (.producerTask l item) tasks) :
    { s.withProgram p with tasks := tasks }.Follows fd peer p₀
      (.message c data (.onRead session) :: history) := by
  obtain ⟨hread, hdeque, hheld, hconsumer⟩ : p.reading = update s.program.reading l (some item) ∧
      p.m_deque = s.program.m_deque ∧ p.item = s.program.item ∧
        p.consumer = s.program.consumer := by
    cases hstep with
    | onRead l' _ _ hidle hanswer hnet hdelivers hcallback hparse =>
        cases hnet with
        | handleEvent _ _ _ rest _ hactive =>
            obtain ⟨⟨_, haccounts⟩, -, -⟩ := hsteady
            obtain rfl : l' = l := (haccounts.wired.active hactive).2.1.symm.trans hthread
            simp only [update_self, Option.some.injEq] at hitem
            subst hitem
            exact ⟨rfl, rfl, rfl, rfl⟩
  have hnext := h.tasks.step htasks
  have hproducers := h.producers_step htasks
  have htaken := htasks.sameTaken (fun _ he => by cases he) .consumer
  cases htasks with
  | producerTask hplace =>
      have hreads : p.reading = fun l' =>
          (update s.tasks.place (.loop l) (calling item) (.loop l')).inHand := by
        rw [hread]
        funext l'
        by_cases hl : l' = l
        · rw [hl, update_self, update_self, Place.inHand]
        · have hne : Thread.loop l' ≠ Thread.loop l := fun heq => hl (Thread.loop.inj heq)
          rw [update_of_ne hl, update_of_ne hne]
          rfl
      have hholder : p.item = Tasks.item
          { s.tasks with place := update s.tasks.place (.loop l) (calling item) } := by
        rw [hheld]
        change s.tasks.m_itemCounterMtx.bind _ = s.tasks.m_itemCounterMtx.bind _
        cases howner : s.tasks.m_itemCounterMtx with
        | none => rfl
        | some t =>
            have hholds := (h.tasks.itemCounterMtx t).mp howner
            have hne : t ≠ .loop l := by
              rintro rfl
              rw [hplace] at hholds
              exact hholds
            simp only [Option.bind_some, update_of_ne hne]
      refine h.visible hstep hreads hdeque hholder hnext hproducers ?_
      rw [hconsumer, htaken]
      exact h.stage

/-- A producer is a loop thread, and reads what it has in hand. -/
theorem Threaded.Follows.producer (h : s.Follows fd peer p₀ history) {t : Thread Loop}
    {item : connAndCmd Conn} (hinHand : (s.tasks.place t).inHand = some item) :
    ∃ l, t = .loop l ∧ s.program.reading l = some item := by
  cases t with
  | consumer =>
      have hconsumer := h.tasks.consumer
      cases hplace : s.tasks.place .consumer with
      | wait c phase =>
          rw [hplace] at hinHand hconsumer
          cases c with
          | m_repositoryNotFull item => exact hconsumer.elim
          | m_repositoryNotEmpty => cases hinHand
      | ready c =>
          rw [hplace] at hinHand hconsumer
          cases c with
          | m_repositoryNotFull item => exact hconsumer.elim
          | m_repositoryNotEmpty => cases hinHand
      | calling item =>
          rw [hplace] at hconsumer
          exact hconsumer.elim
      | entering item =>
          rw [hplace] at hconsumer
          exact hconsumer.elim
      | _ =>
          rw [hplace] at hinHand
          cases hinHand
  | loop l => exact ⟨l, rfl, hinHand⟩

/-- A producer locks `m_itemCounterMtx`. -/
theorem Threaded.Follows.step_producerTask (h : s.Follows fd peer p₀ history)
    (hsteady : Steady fd store s.program) {t : Thread Loop} {item : connAndCmd Conn}
    {tasks : Tasks Loop (connAndCmd Conn)} (hplace : s.tasks.place t = calling item)
    (htasks : TaskManager.Step s.tasks (.moves t) tasks) :
    { s with tasks := tasks }.Follows fd peer p₀ (.task (.producerTask item) :: history) := by
  have hinHand : (s.tasks.place t).inHand = some item := by
    rw [hplace]
    rfl
  obtain ⟨l, rfl, hreading⟩ := h.producer hinHand
  obtain ⟨hloop, hopened⟩ := hsteady.own l item hreading
  have hnext := h.tasks.step htasks
  have hproducers := h.producers_step htasks
  have htaken := htasks.sameTaken (fun u hu => by
    cases hu
    rw [hplace]
    exact ⟨nofun, nofun⟩) .consumer
  obtain ⟨hfree, rfl⟩ := htasks.of_calling hplace
  have hlock : s.program.item = none := by
    change s.tasks.m_itemCounterMtx.bind _ = none
    rw [hfree]
    rfl
  have hread : s.program.reading (s.net.getLoop item.conn) = some item :=
    (congrArg s.program.reading hloop).trans hreading
  have hkeep : (entering item).inHand = (s.tasks.place (.loop l)).inHand := hinHand.symm
  have hreads : s.program.reading = fun l' =>
      (update s.tasks.place (.loop l) (entering item) (.loop l')).inHand :=
    funext fun l' => (inHand_update hkeep (.loop l')).symm
  have hheld : some item = Tasks.item { s.tasks with
      m_itemCounterMtx := some (.loop l)
      place := update s.tasks.place (.loop l) (entering item) } := by
    change some item = (update s.tasks.place (.loop l) (entering item) (.loop l)).inHand
    rw [update_self]
    rfl
  refine h.visible (.producerTask item hread (.producerTask item hlock hopened)) hreads rfl hheld
    hnext hproducers ?_
  rw [htaken]
  exact h.stage

/-- A producer with `m_mtx` puts its item into the deque. -/
theorem Threaded.Follows.step_push_back (h : s.Follows fd peer p₀ history)
    (hsteady : Steady fd store s.program) {t : Thread Loop} {item : connAndCmd Conn}
    {tasks : Tasks Loop (connAndCmd Conn)}
    (hplace : s.tasks.place t = ready (m_repositoryNotFull item))
    (htasks : TaskManager.Step s.tasks (.moves t) tasks) :
    { s with tasks := tasks }.Follows fd peer p₀ (.task (.push_back item) :: history) := by
  have hinHand : (s.tasks.place t).inHand = some item := by
    rw [hplace]
    rfl
  obtain ⟨l, rfl, hreading⟩ := h.producer hinHand
  have hloop : s.net.getLoop item.conn = l := (hsteady.own l item hreading).1
  have hnext := h.tasks.step htasks
  have hproducers := h.producers_step htasks
  have htaken := htasks.sameTaken (fun u hu => by
    cases hu
    rw [hplace]
    exact ⟨nofun, nofun⟩) .consumer
  have howner : s.tasks.m_itemCounterMtx = some (.loop l) := by
    rw [h.tasks.itemCounterMtx, hplace]
    trivial
  have hitem : s.program.item = some item := by
    change s.tasks.m_itemCounterMtx.bind _ = some item
    rw [howner]
    exact hinHand
  -- whoever executes a command has `m_mtx`, so it is not this thread
  have hwaiting : s.consumer = .waiting := by
    rw [h.stage]
    have hunlocked : ¬ (s.tasks.place .consumer).HoldsMtx :=
      h.tasks.mtx.not_holds (t := .loop l) (by rw [hplace]; trivial) nofun
    cases hconsumer : s.tasks.place .consumer with
    | executing temp =>
        rw [hconsumer] at hunlocked
        exact absurd trivial hunlocked
    | _ => rfl
  have hroom : s.tasks.m_deque.length < m_nMAxSize := by
    have hsound := h.tasks.sound (.loop l)
    rw [hplace] at hsound
    exact Nat.lt_of_not_ge hsound
  obtain rfl := htasks.of_ready_notFull hplace
  have hreads : update s.program.reading (s.net.getLoop item.conn) none = fun l' =>
      (update s.tasks.place (.loop l) pushed (.loop l')).notifyNotEmpty.inHand := by
    funext l'
    rw [inHand_notifyNotEmpty, hloop]
    by_cases hl : l' = l
    · rw [hl, update_self, update_self]
      rfl
    · have hne : Thread.loop l' ≠ Thread.loop l := fun heq => hl (Thread.loop.inj heq)
      rw [update_of_ne hl, update_of_ne hne]
      rfl
  have hheld : none = Tasks.item { s.tasks with
      m_deque := s.tasks.m_deque ++ [item]
      place := fun u => (update s.tasks.place (.loop l) pushed u).notifyNotEmpty } := by
    change none = s.tasks.m_itemCounterMtx.bind _
    rw [howner, Option.bind_some, inHand_notifyNotEmpty, update_self]
    rfl
  refine h.visible (.push_back item (.push_back item hitem hwaiting hroom)) hreads rfl hheld
    hnext hproducers ?_
  rw [htaken]
  exact h.stage

/-- The consumer takes the front of the deque. -/
theorem Threaded.Follows.step_front (h : s.Follows fd peer p₀ history) {t : Thread Loop}
    {temp : connAndCmd Conn} {tasks : Tasks Loop (connAndCmd Conn)}
    (hplace : s.tasks.place t = ready m_repositoryNotEmpty)
    (hfront : s.tasks.m_deque.head? = some temp)
    (htasks : TaskManager.Step s.tasks (.moves t) tasks) :
    { s with tasks := tasks, consumer := .taken temp }.Follows fd peer p₀
      (.task (.front temp) :: history) := by
  have hnext := h.tasks.step htasks
  have hproducers := h.producers_step htasks
  obtain rfl : t = .consumer := by
    cases t with
    | consumer => rfl
    | loop l =>
        have hproducer := h.producers l
        rw [hplace] at hproducer
        exact absurd trivial hproducer
  have hwaiting : s.consumer = .waiting := by
    rw [h.stage, hplace]
    rfl
  obtain ⟨rest, hdeque⟩ := List.head?_eq_some_iff.mp hfront
  obtain rfl := htasks.of_ready_notEmpty hplace hfront
  have hsame : SameItems s.tasks { s.tasks with
      place := update s.tasks.place .consumer (executing temp) } :=
    .move (by rw [hplace]; rfl)
  have hreads : s.program.reading = fun l =>
      (update s.tasks.place .consumer (executing temp) (.loop l)).inHand :=
    funext fun l => (hsame.inHand (.loop l)).symm
  refine h.visible (.consumer (.front temp) trivial (.front temp rest hwaiting hdeque)) hreads rfl
    hsame.item.symm hnext hproducers ?_
  refine iff_of_false nofun ?_
  simp only [update_self]
  nofun

/-- The consumer drops what it has executed. -/
theorem Threaded.Follows.step_pop_front (h : s.Follows fd peer p₀ history) {t : Thread Loop}
    {temp : connAndCmd Conn} {tasks : Tasks Loop (connAndCmd Conn)}
    (hplace : s.tasks.place t = executing temp) (hsent : s.consumer = .sent)
    (htasks : TaskManager.Step s.tasks (.moves t) tasks) :
    { s with tasks := tasks, consumer := .waiting }.Follows fd peer p₀
      (.task .pop_front :: history) := by
  have hnext := h.tasks.step htasks
  have hproducers := h.producers_step htasks
  obtain rfl : t = .consumer := by
    cases t with
    | consumer => rfl
    | loop l =>
        have hproducer := h.producers l
        rw [hplace] at hproducer
        exact absurd trivial hproducer
  obtain rfl := htasks.of_executing hplace
  have hinHand : ∀ u, (update s.tasks.place .consumer popped u).notifyNotFull.inHand =
      (s.tasks.place u).inHand := by
    intro u
    rw [inHand_notifyNotFull]
    exact inHand_update (by rw [hplace]; rfl) u
  have hreads : s.program.reading = fun l =>
      (update s.tasks.place .consumer popped (.loop l)).notifyNotFull.inHand :=
    funext fun l => (hinHand (.loop l)).symm
  have hheld : s.program.item = Tasks.item { s.tasks with
      m_deque := s.tasks.m_deque.tail
      place := fun u => (update s.tasks.place .consumer popped u).notifyNotFull } := by
    change s.tasks.m_itemCounterMtx.bind _ = s.tasks.m_itemCounterMtx.bind _
    simp only [hinHand]
  refine h.visible (.consumer .pop_front trivial (.pop_front hsent)) hreads rfl hheld hnext
    hproducers ?_
  refine iff_of_true rfl ?_
  rw [taken_notifyNotFull, update_self]
  rfl

/-- Only a mutex or a condition variable is concerned. -/
theorem Threaded.Follows.step_silent (h : s.Follows fd peer p₀ history) {t : Thread Loop}
    {e : TaskEvent Loop (connAndCmd Conn)} {tasks : Tasks Loop (connAndCmd Conn)}
    (he : e = .wakesUp t ∨ e = .moves t ∧ (s.tasks.place t).Silent)
    (htasks : TaskManager.Step s.tasks e tasks) :
    { s with tasks := tasks }.Follows fd peer p₀ history := by
  have hsame := h.tasks.sameItems htasks he
  have htaken := htasks.sameTaken (fun u hu => by
    rcases he with rfl | ⟨rfl, hsilent⟩
    · cases hu
    · cases hu
      constructor
      · rintro hplace
        rw [hplace] at hsilent
        exact hsilent
      · rintro temp hplace
        rw [hplace] at hsilent
        exact hsilent) .consumer
  refine ⟨?_, h.tasks.step htasks, h.producers_step htasks, ?_⟩
  · rw [program_sameItems hsame]
    exact h.run
  · rw [htaken]
    exact h.stage

theorem Threaded.Follows.step (h : s.Follows fd peer p₀ history)
    (hsteady : Steady fd store s.program) (hstep : s.Step fd peer e s') :
    s'.Follows fd peer p₀ (e.visible ++ history) := by
  cases hstep with
  | loop l hthread hidle hp =>
      obtain ⟨hreading, hdeque, hitem, hconsumer⟩ := hp.apart hthread
      refine h.step_withProgram hp hreading hdeque hitem ?_
      rw [hconsumer]
      exact Iff.rfl
  | onRead l hthread hp hitem htasks => exact h.step_onRead hsteady hthread hp hitem htasks
  | producerTask t hplace htasks => exact h.step_producerTask hsteady hplace htasks
  | push_back t hplace htasks => exact h.step_push_back hsteady hplace htasks
  | front t hplace hfront htasks => exact h.step_front hplace hfront htasks
  | executes he hp =>
      obtain ⟨hreading, hdeque, hitem, hbusy, hbusy'⟩ := hp.executing he
      exact h.step_withProgram hp hreading hdeque hitem (iff_of_false hbusy' hbusy)
  | pop_front t hplace hsent htasks => exact h.step_pop_front hplace hsent htasks
  | silent t hplace htasks => exact h.step_silent (Or.inr ⟨rfl, hplace⟩) htasks
  | wakesUp t htasks => exact h.step_silent (Or.inl rfl) htasks

end Follow

/-! ### The threads come to rest -/

namespace TaskManager

/-- How many operations on a mutex or a condition variable are ahead of a thread at most, until it
is asleep or does something else. -/
def Place.rank {Item : Type} : Place Item → ℕ
  | idle => 0
  | calling _ => 0
  | entering _ => 7
  | wait _ testing => 5
  | wait _ blocking => 3
  | wait _ asleep => 0
  | wait _ woken => 6
  | ready _ => 4
  | pushed => 2
  | left => 1
  | coming => 7
  | executing _ => 0
  | popped => 8

section Rank
variable {T Item : Type} [DecidableEq T] {s s' : Tasks T Item} {t : Thread T} {p : Place Item}

theorem rank_le (p : Place Item) : p.rank ≤ 8 := by
  cases p with
  | wait c phase => cases phase <;> simp [Place.rank]
  | _ => simp [Place.rank]

def Tasks.rank [Fintype T] (s : Tasks T Item) : ℕ :=
  ∑ l, (s.place (.loop l)).rank + (s.place .consumer).rank

omit [DecidableEq T] in
theorem Tasks.rank_le [Fintype T] (s : Tasks T Item) : s.rank ≤ 8 * (Fintype.card T + 1) := by
  have hloops : ∑ l, (s.place (.loop l)).rank ≤ Fintype.card T * 8 :=
    Finset.sum_le_card_nsmul _ _ 8 fun l _ => TaskManager.rank_le _
  have hconsumer := TaskManager.rank_le (s.place .consumer)
  unfold Tasks.rank
  omega

theorem rank_update [Fintype T] (hplace : s'.place = update s.place t p) :
    s'.rank + (s.place t).rank = s.rank + p.rank := by
  unfold Tasks.rank
  rw [hplace]
  cases t with
  | consumer =>
      have hloops : ∀ l, update s.place .consumer p (.loop l) = s.place (.loop l) :=
        fun l => update_of_ne (by simp) _ _
      simp only [hloops, update_self]
      omega
  | loop l =>
      have hloops : ∀ l', (update s.place (.loop l) p (.loop l')).rank =
          update (fun l' => (s.place (.loop l')).rank) l p.rank l' := by
        intro l'
        by_cases hl : l' = l
        · rw [hl, update_self, update_self]
        · have hne : Thread.loop l' ≠ Thread.loop l := fun heq => hl (Thread.loop.inj heq)
          rw [update_of_ne hl, update_of_ne hne]
      have hsum : ∑ l', update (fun l' => (s.place (.loop l')).rank) l p.rank l' +
          (s.place (.loop l)).rank = ∑ l', (s.place (.loop l')).rank + p.rank := sum_update _ _ _
      have hconsumer : update s.place (.loop l) p .consumer = s.place .consumer :=
        update_of_ne (by simp) _ _
      simp only [hloops, hconsumer]
      omega

theorem Step.rank_lt [Fintype T] (h : Step s (.moves t) s') (hsilent : (s.place t).Silent) :
    s'.rank < s.rank := by
  obtain ⟨p, hplace, hlt⟩ : ∃ p, s'.place = update s.place t p ∧ p.rank < (s.place t).rank := by
    cases h with
    | lockItemCounterMtx hp hfree =>
        rw [hp] at hsilent
        exact hsilent.elim
    | lockProducer hp hfree => exact ⟨_, rfl, by rw [hp]; simp [Place.rank]⟩
    | lockConsumer hp hfree => exact ⟨_, rfl, by rw [hp]; simp [Place.rank]⟩
    | predicateTrue hp hready => exact ⟨_, rfl, by rw [hp]; simp [Place.rank]⟩
    | predicateFalse hp hready => exact ⟨_, rfl, by rw [hp]; simp [Place.rank]⟩
    | wait hp => exact ⟨_, rfl, by rw [hp]; simp [Place.rank]⟩
    | lockAgain hp hfree => exact ⟨_, rfl, by rw [hp]; simp [Place.rank]⟩
    | push_back hp =>
        rw [hp] at hsilent
        exact hsilent.elim
    | front hp hfront =>
        rw [hp] at hsilent
        exact hsilent.elim
    | pop_front hp =>
        rw [hp] at hsilent
        exact hsilent.elim
    | unlockProducer hp => exact ⟨_, rfl, by rw [hp]; simp [Place.rank]⟩
    | unlockConsumer hp => exact ⟨_, rfl, by rw [hp]; simp [Place.rank]⟩
    | unlockItemCounterMtx hp => exact ⟨_, rfl, by rw [hp]; simp [Place.rank]⟩
  have hrank := rank_update hplace
  omega

end Rank

end TaskManager

def ThreadedEvent.ReplacesNone (peer : Conn → Net.SocketAddr) (s : Threaded Conn Loop) :
    ThreadedEvent Conn Loop → Prop
  | program e => e.ReplacesNone peer s.program
  | _ => True

/-- Nobody waits for a client or wakes up by itself. -/
def ThreadedEvent.Advances (s : Threaded Conn Loop) : ThreadedEvent Conn Loop → Prop
  | program e => e.Advances s.program
  | silent => True
  | wakesUp => False

/-- The steps that the threads may still take. After each step of the program they may go through
all operations of the task queue again. -/
def Threaded.work [Fintype Loop] (s : Threaded Conn Loop) : ℕ :=
  (8 * (Fintype.card Loop + 1) + 1) * s.program.work + s.tasks.rank

section Rest
variable {fd : Conn → ℤ} {peer : Conn → Net.SocketAddr} {p₀ : Program Conn Loop}
  {history : List (ProgramEvent Conn Loop)} {s s' : Threaded Conn Loop}
  {e : ThreadedEvent Conn Loop} {store : YStore} {m_ptrLoop : Loop} {m_vecLoops : List Loop} {id : ℤ}

theorem Threaded.Follows.start (fd : Conn → ℤ) (peer : Conn → Net.SocketAddr) (m_ptrLoop : Loop)
    (m_vecLoops : List Loop) (id : ℤ) (store : YStore) :
    (Threaded.start m_ptrLoop m_vecLoops id store).Follows fd peer
      (.start m_ptrLoop m_vecLoops id store) [] where
  run := ⟨[], .start, rfl⟩
  tasks := consistent_start
  producers _ h := h
  stage := iff_of_true rfl rfl

theorem Threaded.Follows.steady (hfd : Injective fd)
    (h : s.Follows fd peer (.start m_ptrLoop m_vecLoops id store) history) :
    Steady fd store s.program := by
  obtain ⟨trace, run, -⟩ := h.run
  exact run.invariant (.start fd m_ptrLoop m_vecLoops id store)
    fun _ _ _ h hstep => h.step hfd hstep

theorem follows_of_threads (hfd : Injective fd)
    {trace : List (Transition (Threaded Conn Loop) (ThreadedEvent Conn Loop))}
    (run : Run (Threaded.Step fd peer) (.start m_ptrLoop m_vecLoops id store) trace s) :
    s.Follows fd peer (.start m_ptrLoop m_vecLoops id store)
      ((labels trace).flatMap ThreadedEvent.visible) := by
  refine run.invariant_labels (P := fun events s => Threaded.Follows fd peer
    (.start m_ptrLoop m_vecLoops id store) (events.flatMap ThreadedEvent.visible) s)
    (.start fd peer m_ptrLoop m_vecLoops id store) fun events s e s' h hstep => ?_
  exact h.step (h.steady hfd) hstep

/-- In every run of the threads, in whatever order they go through the mutexes and the condition
variables and whoever wakes up without being notified, what they do is a run of the program. -/
theorem threads_run_program (hfd : Injective fd)
    {trace : List (Transition (Threaded Conn Loop) (ThreadedEvent Conn Loop))}
    (run : Run (Threaded.Step fd peer) (.start m_ptrLoop m_vecLoops id store) trace s) :
    ∃ trace', Run (Program.Step fd peer) (.start m_ptrLoop m_vecLoops id store) trace' s.program ∧
      labels trace' = (labels trace).flatMap ThreadedEvent.visible :=
  (follows_of_threads hfd run).run

/-- A step that is one of the program is one from the state that the program is in. -/
theorem Threaded.Follows.program_step (h : s.Follows fd peer p₀ history)
    (hsteady : Steady fd store s.program) {e : ProgramEvent Conn Loop}
    (hstep : s.Step fd peer (.program e) s') : s.program.Step fd peer e s'.program := by
  have hhere : s.Follows fd peer s.program [] :=
    ⟨⟨[], .start, rfl⟩, h.tasks, h.producers, h.stage⟩
  obtain ⟨trace, run, hlabels⟩ := (hhere.step hsteady hstep).run
  exact run.single hlabels

theorem Threaded.Follows.holdsAll (hfd : Injective fd)
    (h : s.Follows fd peer (.start m_ptrLoop m_vecLoops id store) history)
    (hnone : e.ReplacesNone peer s) (hstep : s.Step fd peer e s') (hall : s.net.HoldsAll) :
    s'.net.HoldsAll := by
  have hsteady := h.steady hfd
  cases e with
  | program e =>
      obtain ⟨_, haccounts⟩ := hsteady.accounts
      exact (h.program_step hsteady hstep).holdsAll hfd haccounts.wired hnone hall
  | silent =>
      cases hstep with
      | silent => exact hall
  | wakesUp =>
      cases hstep with
      | wakesUp => exact hall

theorem Threaded.Follows.work_lt [Fintype Loop] (hfd : Injective fd)
    (h : s.Follows fd peer (.start m_ptrLoop m_vecLoops id store) history)
    (hadvances : e.Advances s) (hstep : s.Step fd peer e s') : s'.work < s.work := by
  have hsteady := h.steady hfd
  cases e with
  | program e =>
      have hlt := hsteady.work_lt hfd hadvances (h.program_step hsteady hstep)
      have hrank := s'.tasks.rank_le
      have hmul := Nat.mul_le_mul_left (8 * (Fintype.card Loop + 1) + 1) (Nat.succ_le_of_lt hlt)
      rw [Nat.mul_succ] at hmul
      unfold Threaded.work
      omega
  | silent =>
      cases hstep with
      | silent t hplace htasks =>
          have hrank := htasks.rank_lt hplace
          have hsame := h.tasks.sameItems htasks (Or.inr ⟨rfl, hplace⟩)
          unfold Threaded.work
          rw [program_sameItems hsame]
          exact Nat.add_lt_add_left hrank _
  | wakesUp => exact hadvances.elim

end Rest

/-- One client sends `COMMAND`, and its session puts the command into the deque. -/
theorem threads_run_program_command :
    ∃ (trace : List (Transition (Threaded Unit Bool) (ThreadedEvent Unit Bool)))
      (s : Threaded Unit Bool),
      Run (Threaded.Step (fun _ => 5) fun _ => Net.localhost 4000) (.start false [true] 0 .start)
        trace s ∧
      s.tasks.m_deque = [⟨(), [ascii "COMMAND"]⟩] ∧
      ∃ trace', Run (Program.Step (fun _ => 5) fun _ => Net.localhost 4000)
          (.start false [true] 0 .start) trace' s.program ∧
        labels trace' = (labels trace).flatMap ThreadedEvent.visible ∧
        moved ProgramEvent.arrived (labels trace') = [((), encodeCommand [ascii "COMMAND"])] := by
  have hfd : Injective fun _ : Unit => (5 : ℤ) := fun _ _ _ => rfl
  obtain ⟨-, rest, hparse⟩ := onRead_received (parseRequest_encodeCommand (r := [])
    (List.append_nil (encodeCommand [ascii "COMMAND"])).symm (by decide))
  have hroom : (m_repositoryNotFull (⟨(), [ascii "COMMAND"]⟩ : connAndCmd Unit)).Ready [] := by
    simp [Condition.Ready, m_nMAxSize]
  have r1 : Run (Threaded.Step (fun _ : Unit => 5) fun _ => Net.localhost 4000)
    (.start false [true] 0 .start) _ _ :=
      .next .start (.loop false rfl rfl (.accept () ⟨rfl, rfl⟩ (.accept () (by decide) rfl)))
  have r2 := r1.next (.loop true rfl rfl
    (.doPendingFunctors true ⟨rfl, rfl⟩ (.doPendingFunctors true rfl rfl)))
  have r3 := r2.next (.loop true rfl rfl (.runFunctor true (.connectEstablished ()) rfl rfl
    (.runFunctor true (.connectEstablished ()) [] rfl)))
  have r4 := r3.next (.loop true rfl rfl (.poll true [⟨XPOLLIN, ()⟩] ⟨rfl, rfl⟩ (.poll true _ rfl rfl (by
    simp only [List.forall_mem_singleton]
    exact ⟨⟨XPOLLIN ||| XPOLLPRI, ()⟩, rfl, rfl, by decide, by decide⟩))))
  have r5 := r4.next (.onRead true rfl (.onRead true () (encodeCommand [ascii "COMMAND"])
    ⟨rfl, rfl⟩ (show _ < _ by decide) (.handleEvent true () _ [] rfl rfl)
    (Net.Server.delivers_reads (by decide) (by decide) (by decide)) rfl hparse) rfl
    (.producerTask rfl))
  have r6 := r5.next (.producerTask (.loop true) rfl (.lockItemCounterMtx rfl rfl))
  have r7 := r6.next (.silent (.loop true) trivial (.lockProducer rfl rfl))
  have r8 := r7.next (.silent (.loop true) trivial (.predicateTrue rfl hroom))
  have r9 := r8.next (.push_back (.loop true) rfl (.push_back rfl))
  obtain ⟨trace', run, hlabels⟩ := threads_run_program hfd r9
  exact ⟨_, _, r9, rfl, trace', run, hlabels, by rw [hlabels]; rfl⟩

end Yedis
