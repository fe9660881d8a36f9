import Yedis.Locks
import Yedis.Runs
import Yedis.Server

/-!
# The task queue never gets stuck

`TaskManager` with its two mutexes and two condition variables. Any number of loop
threads call `producerTask`, and the consumer thread loops in `consumerTask`. A thread
is at a place between two operations on a mutex or a condition variable; what it does
to the deque with `m_mtx` held, up to the notification, is one step. A notification
wakes the threads that wait at that moment, and a thread may also wake by itself.
-/

namespace Yedis
open Locks Runs

namespace TaskManager

variable {T Item : Type}

/-- The condition variables, with the item that a producer has in hand. -/
inductive Condition (Item : Type)
  | m_repositoryNotFull (item : Item)
  | m_repositoryNotEmpty
  deriving DecidableEq

open Condition

/-- The predicates of the two waits. -/
def Condition.Ready (deque : List Item) : Condition Item → Prop
  | m_repositoryNotFull _ => ¬ deque.length ≥ m_nMAxSize
  | m_repositoryNotEmpty => deque ≠ []

/-- How far `wait(lock, predicate)` has come. It is `blocking` when the predicate was false, and
`asleep` once it has released the lock. -/
inductive Phase
  | testing
  | blocking
  | asleep
  | woken
  deriving DecidableEq

/-- A producer is `calling` before it has `m_itemCounterMtx` and `entering` before it has `m_mtx`;
the consumer is `coming` before it has `m_mtx`. -/
inductive Place (Item : Type)
  | idle
  | calling (item : Item)
  | entering (item : Item)
  | wait (c : Condition Item) (phase : Phase)
  | ready (c : Condition Item)
  | pushed
  | left
  | coming
  | executing (temp : Item)
  | popped
  deriving DecidableEq

open Place Phase

def Place.HoldsMtx : Place Item → Prop
  | wait _ testing | wait _ blocking | ready _ | pushed | executing _ | popped => True
  | _ => False

def Place.HoldsItemCounterMtx : Place Item → Prop
  | entering _ | wait (m_repositoryNotFull _) _ | ready (m_repositoryNotFull _) | pushed | left => True
  | _ => False

def Place.OfConsumer : Place Item → Prop
  | coming | wait m_repositoryNotEmpty _ | ready m_repositoryNotEmpty | executing _ | popped => True
  | _ => False

/-- `m_repositoryNotFull.notify_all()`. -/
def Place.notifyNotFull : Place Item → Place Item
  | wait (m_repositoryNotFull item) asleep => wait (m_repositoryNotFull item) woken
  | p => p

/-- `m_repositoryNotEmpty.notify_all()`. -/
def Place.notifyNotEmpty : Place Item → Place Item
  | wait m_repositoryNotEmpty asleep => wait m_repositoryNotEmpty woken
  | p => p

structure Tasks (T Item : Type) where
  m_deque : List Item := []
  m_mtx : Option (Thread T) := none
  m_itemCounterMtx : Option (Thread T) := none
  place : Thread T → Place Item

def Tasks.start : Tasks T Item where
  place
    | .consumer => coming
    | .loop _ => idle

inductive TaskEvent (T Item : Type)
  | producerTask (t : T) (item : Item)
  | moves (t : Thread T)
  | wakesUp (t : Thread T)

variable [DecidableEq T]

inductive Step (s : Tasks T Item) : TaskEvent T Item → Tasks T Item → Prop
  | producerTask {t : T} {item : Item} (h : s.place (.loop t) = idle) :
      Step s (.producerTask t item)
        { s with place := Function.update s.place (.loop t) (calling item) }
  | lockItemCounterMtx {t : Thread T} {item : Item} (h : s.place t = calling item)
      (hfree : s.m_itemCounterMtx = none) :
      Step s (.moves t)
        { s with
          m_itemCounterMtx := some t
          place := Function.update s.place t (entering item) }
  | lockProducer {t : Thread T} {item : Item} (h : s.place t = entering item)
      (hfree : s.m_mtx = none) :
      Step s (.moves t)
        { s with
          m_mtx := some t
          place := Function.update s.place t (wait (m_repositoryNotFull item) testing) }
  | lockConsumer {t : Thread T} (h : s.place t = coming) (hfree : s.m_mtx = none) :
      Step s (.moves t)
        { s with
          m_mtx := some t
          place := Function.update s.place t (wait m_repositoryNotEmpty testing) }
  | predicateTrue {t : Thread T} {c : Condition Item} (h : s.place t = wait c testing)
      (hready : c.Ready s.m_deque) :
      Step s (.moves t) { s with place := Function.update s.place t (ready c) }
  | predicateFalse {t : Thread T} {c : Condition Item} (h : s.place t = wait c testing)
      (hready : ¬ c.Ready s.m_deque) :
      Step s (.moves t) { s with place := Function.update s.place t (wait c blocking) }
  | wait {t : Thread T} {c : Condition Item} (h : s.place t = wait c blocking) :
      Step s (.moves t)
        { s with m_mtx := none, place := Function.update s.place t (wait c asleep) }
  | wakesUp {t : Thread T} {c : Condition Item} (h : s.place t = wait c asleep) :
      Step s (.wakesUp t) { s with place := Function.update s.place t (wait c woken) }
  | lockAgain {t : Thread T} {c : Condition Item} (h : s.place t = wait c woken)
      (hfree : s.m_mtx = none) :
      Step s (.moves t)
        { s with m_mtx := some t, place := Function.update s.place t (wait c testing) }
  | push_back {t : Thread T} {item : Item} (h : s.place t = ready (m_repositoryNotFull item)) :
      Step s (.moves t)
        { s with
          m_deque := s.m_deque ++ [item]
          place := fun u => (Function.update s.place t pushed u).notifyNotEmpty }
  | front {t : Thread T} {temp : Item} (h : s.place t = ready m_repositoryNotEmpty)
      (hfront : s.m_deque.head? = some temp) :
      Step s (.moves t) { s with place := Function.update s.place t (executing temp) }
  | pop_front {t : Thread T} {temp : Item} (h : s.place t = executing temp) :
      Step s (.moves t)
        { s with
          m_deque := s.m_deque.tail
          place := fun u => (Function.update s.place t popped u).notifyNotFull }
  | unlockProducer {t : Thread T} (h : s.place t = pushed) :
      Step s (.moves t) { s with m_mtx := none, place := Function.update s.place t left }
  | unlockConsumer {t : Thread T} (h : s.place t = popped) :
      Step s (.moves t) { s with m_mtx := none, place := Function.update s.place t coming }
  | unlockItemCounterMtx {t : Thread T} (h : s.place t = left) :
      Step s (.moves t) { s with m_itemCounterMtx := none, place := Function.update s.place t idle }

/-- What a place says about the deque. -/
def Place.Sound (deque : List Item) : Place Item → Prop
  | wait c blocking | wait c asleep => ¬ c.Ready deque
  | ready c => c.Ready deque
  | executing temp => deque.head? = some temp
  | _ => True

structure Consistent (s : Tasks T Item) : Prop where
  bounded : s.m_deque.length ≤ m_nMAxSize
  mtx : Held s.m_mtx s.place Place.HoldsMtx
  itemCounterMtx : Held s.m_itemCounterMtx s.place Place.HoldsItemCounterMtx
  sound : ∀ t, (s.place t).Sound s.m_deque
  consumer : (s.place .consumer).OfConsumer

omit [DecidableEq T] in
theorem consistent_start : Consistent (Tasks.start : Tasks T Item) where
  bounded := Nat.zero_le _
  mtx t := by cases t <;> simp [Tasks.start, Place.HoldsMtx]
  itemCounterMtx t := by cases t <;> simp [Tasks.start, Place.HoldsItemCounterMtx]
  sound t := by cases t <;> trivial
  consumer := trivial

theorem holdsMtx_notifyNotFull (p : Place Item) : p.notifyNotFull.HoldsMtx ↔ p.HoldsMtx := by
  unfold Place.notifyNotFull
  split <;> simp [Place.HoldsMtx]

theorem holdsMtx_notifyNotEmpty (p : Place Item) : p.notifyNotEmpty.HoldsMtx ↔ p.HoldsMtx := by
  unfold Place.notifyNotEmpty
  split <;> simp [Place.HoldsMtx]

theorem holdsItemCounterMtx_notifyNotFull (p : Place Item) :
    p.notifyNotFull.HoldsItemCounterMtx ↔ p.HoldsItemCounterMtx := by
  unfold Place.notifyNotFull
  split <;> simp [Place.HoldsItemCounterMtx]

theorem holdsItemCounterMtx_notifyNotEmpty (p : Place Item) :
    p.notifyNotEmpty.HoldsItemCounterMtx ↔ p.HoldsItemCounterMtx := by
  unfold Place.notifyNotEmpty
  split <;> simp [Place.HoldsItemCounterMtx]

theorem ofConsumer_notifyNotFull (p : Place Item) : p.notifyNotFull.OfConsumer ↔ p.OfConsumer := by
  unfold Place.notifyNotFull
  split <;> simp [Place.OfConsumer]

theorem ofConsumer_notifyNotEmpty (p : Place Item) :
    p.notifyNotEmpty.OfConsumer ↔ p.OfConsumer := by
  unfold Place.notifyNotEmpty
  split <;> simp [Place.OfConsumer]

/-- A thread without `m_mtx` finds the deque no less full, and does not wait for an item any
more. -/
theorem Place.Sound.push_back {deque : List Item} {p : Place Item} (h : p.Sound deque)
    (hlock : ¬ p.HoldsMtx) (item : Item) : p.notifyNotEmpty.Sound (deque ++ [item]) := by
  cases p with
  | wait c phase =>
      cases c with
      | m_repositoryNotFull _ =>
          cases phase with
          | asleep =>
              simp only [Sound, Condition.Ready, not_not, notifyNotEmpty, List.length_append] at h ⊢
              omega
          | blocking => exact absurd trivial hlock
          | _ => trivial
      | m_repositoryNotEmpty =>
          cases phase with
          | blocking => exact absurd trivial hlock
          | _ => trivial
  | ready c => exact absurd trivial hlock
  | executing temp => exact absurd trivial hlock
  | _ => trivial

theorem Place.Sound.pop_front {deque : List Item} {p : Place Item} (h : p.Sound deque)
    (hlock : ¬ p.HoldsMtx) : p.notifyNotFull.Sound deque.tail := by
  cases p with
  | wait c phase =>
      cases c with
      | m_repositoryNotFull _ =>
          cases phase with
          | blocking => exact absurd trivial hlock
          | _ => trivial
      | m_repositoryNotEmpty =>
          cases phase with
          | asleep =>
              simp only [Sound, Condition.Ready, not_not, notifyNotFull] at h ⊢
              rw [h, List.tail_nil]
          | blocking => exact absurd trivial hlock
          | _ => trivial
  | ready c => exact absurd trivial hlock
  | executing temp => exact absurd trivial hlock
  | _ => trivial

variable {s s' : Tasks T Item} {t : Thread T} {p : Place Item}

/-- A thread goes on, perhaps with a lock taken or released, and leaves the deque alone. -/
theorem Consistent.moves (h : Consistent s) {mtx itemCounterMtx : Option (Thread T)}
    (hmtx : Held mtx (Function.update s.place t p) Place.HoldsMtx)
    (hitem : Held itemCounterMtx (Function.update s.place t p) Place.HoldsItemCounterMtx)
    (hsound : p.Sound s.m_deque) (hconsumer : (s.place t).OfConsumer → p.OfConsumer) :
    Consistent
      { s with
        m_mtx := mtx
        m_itemCounterMtx := itemCounterMtx
        place := Function.update s.place t p } where
  bounded := h.bounded
  mtx := hmtx
  itemCounterMtx := hitem
  sound u := by
    by_cases hu : u = t
    · simp only [hu, Function.update_self]
      exact hsound
    · simp only [Function.update_of_ne hu]
      exact h.sound u
  consumer := by
    by_cases hu : .consumer = t
    · simp only [hu, Function.update_self]
      exact hconsumer (hu ▸ h.consumer)
    · simp only [Function.update_of_ne hu]
      exact h.consumer

/-- The thread with `m_mtx` changes the deque and notifies. -/
theorem Consistent.changes (h : Consistent s) {deque : List Item}
    {notify : Place Item → Place Item} (hbounded : deque.length ≤ m_nMAxSize)
    (hlock : (s.place t).HoldsMtx) (hlock' : p.HoldsMtx)
    (hitem : p.HoldsItemCounterMtx ↔ (s.place t).HoldsItemCounterMtx)
    (hconsumer : (s.place t).OfConsumer → p.OfConsumer)
    (hn : ∀ p, (notify p).HoldsMtx ↔ p.HoldsMtx)
    (hn' : ∀ p, (notify p).HoldsItemCounterMtx ↔ p.HoldsItemCounterMtx)
    (hn'' : ∀ p, (notify p).OfConsumer ↔ p.OfConsumer) (hsound : (notify p).Sound deque)
    (hothers : ∀ p : Place Item, p.Sound s.m_deque → ¬ p.HoldsMtx → (notify p).Sound deque) :
    Consistent
      { s with
        m_deque := deque
        place := fun u => notify (Function.update s.place t p u) } where
  bounded := hbounded
  mtx := (h.mtx.move (iff_of_true hlock' hlock)).congr fun _ => hn _
  itemCounterMtx := (h.itemCounterMtx.move hitem).congr fun _ => hn' _
  sound u := by
    by_cases hu : u = t
    · simp only [hu, Function.update_self]
      exact hsound
    · simp only [Function.update_of_ne hu]
      exact hothers _ (h.sound u) (h.mtx.not_holds hlock hu)
  consumer := by
    simp only [hn'']
    by_cases hu : .consumer = t
    · simp only [hu, Function.update_self]
      exact hconsumer (hu ▸ h.consumer)
    · simp only [Function.update_of_ne hu]
      exact h.consumer

theorem Consistent.step {e : TaskEvent T Item} (h : Consistent s) (hstep : Step s e s') :
    Consistent s' := by
  cases hstep with
  | producerTask hp =>
      refine h.moves (h.mtx.move ?_) (h.itemCounterMtx.move ?_) trivial ?_ <;> rw [hp]
      · exact Iff.rfl
      · exact Iff.rfl
      · exact id
  | lockItemCounterMtx hp hfree =>
      refine h.moves (h.mtx.move ?_) (h.itemCounterMtx.acquire hfree trivial) trivial ?_ <;> rw [hp]
      · exact Iff.rfl
      · exact id
  | lockProducer hp hfree =>
      refine h.moves (h.mtx.acquire hfree trivial) (h.itemCounterMtx.move ?_) trivial ?_ <;> rw [hp]
      · exact Iff.rfl
      · exact id
  | lockConsumer hp hfree =>
      refine h.moves (h.mtx.acquire hfree trivial) (h.itemCounterMtx.move ?_) trivial ?_ <;> rw [hp]
      · exact Iff.rfl
      · exact id
  | @predicateTrue t c hp hready =>
      refine h.moves (h.mtx.move ?_) (h.itemCounterMtx.move ?_) hready ?_ <;> rw [hp]
      · exact Iff.rfl
      · cases c <;> exact Iff.rfl
      · cases c <;> exact id
  | @predicateFalse t c hp hready =>
      refine h.moves (h.mtx.move ?_) (h.itemCounterMtx.move ?_) hready ?_ <;> rw [hp]
      · exact Iff.rfl
      · cases c <;> exact Iff.rfl
      · cases c <;> exact id
  | @wait t c hp =>
      have hsound := h.sound t
      rw [hp] at hsound
      have hlock : (s.place t).HoldsMtx := by
        rw [hp]
        trivial
      refine h.moves (h.mtx.release hlock id) (h.itemCounterMtx.move ?_) hsound ?_ <;> rw [hp]
      · cases c <;> exact Iff.rfl
      · cases c <;> exact id
  | @wakesUp t c hp =>
      refine h.moves (h.mtx.move ?_) (h.itemCounterMtx.move ?_) trivial ?_ <;> rw [hp]
      · exact Iff.rfl
      · cases c <;> exact Iff.rfl
      · cases c <;> exact id
  | @lockAgain t c hp hfree =>
      refine h.moves (h.mtx.acquire hfree trivial) (h.itemCounterMtx.move ?_) trivial ?_ <;> rw [hp]
      · cases c <;> exact Iff.rfl
      · cases c <;> exact id
  | @push_back t item hp =>
      have hroom := h.sound t
      rw [hp] at hroom
      simp only [Place.Sound, Condition.Ready] at hroom
      refine h.changes ?_ ?_ trivial ?_ ?_ holdsMtx_notifyNotEmpty
        holdsItemCounterMtx_notifyNotEmpty ofConsumer_notifyNotEmpty trivial
        fun _ hp hlock => hp.push_back hlock item
      · rw [List.length_append, List.length_singleton]
        omega
      all_goals rw [hp]
      · trivial
      · exact Iff.rfl
      · exact id
  | front hp hfront =>
      refine h.moves (h.mtx.move ?_) (h.itemCounterMtx.move ?_) hfront ?_ <;> rw [hp]
      · exact Iff.rfl
      · exact Iff.rfl
      · exact id
  | pop_front hp =>
      refine h.changes ?_ ?_ trivial ?_ ?_ holdsMtx_notifyNotFull
        holdsItemCounterMtx_notifyNotFull ofConsumer_notifyNotFull trivial
        fun _ hp hlock => hp.pop_front hlock
      · rw [List.length_tail]
        exact (Nat.sub_le _ _).trans h.bounded
      all_goals rw [hp]
      · trivial
      · exact Iff.rfl
      · exact id
  | @unlockProducer t hp =>
      have hlock : (s.place t).HoldsMtx := by
        rw [hp]
        trivial
      refine h.moves (h.mtx.release hlock id) (h.itemCounterMtx.move ?_) trivial ?_ <;> rw [hp]
      · exact Iff.rfl
      · exact id
  | @unlockConsumer t hp =>
      have hlock : (s.place t).HoldsMtx := by
        rw [hp]
        trivial
      refine h.moves (h.mtx.release hlock id) (h.itemCounterMtx.move ?_) trivial ?_ <;> rw [hp]
      · exact Iff.rfl
      · exact id
  | @unlockItemCounterMtx t hp =>
      have hlock : (s.place t).HoldsItemCounterMtx := by
        rw [hp]
        trivial
      refine h.moves (h.mtx.move ?_) (h.itemCounterMtx.release hlock id) trivial ?_ <;> rw [hp]
      · exact Iff.rfl
      · exact id

/-- A thread has nothing to do outside of `producerTask`, and as the consumer that waits while the
deque is empty. -/
def Tasks.HasWork (s : Tasks T Item) (t : Thread T) : Prop :=
  s.place t ≠ idle ∧ ¬ (s.place t = wait m_repositoryNotEmpty asleep ∧ s.m_deque = [])

/-- A thread waits for a mutex that is taken, or for a notification. -/
def Tasks.Blocked (s : Tasks T Item) (t : Thread T) : Prop :=
  match s.place t with
  | calling _ => s.m_itemCounterMtx ≠ none
  | entering _ | coming | wait _ woken => s.m_mtx ≠ none
  | wait _ asleep => True
  | _ => False

/-- A thread with work that is not blocked can go on. -/
theorem Consistent.enabled (h : Consistent s) (hwork : s.HasWork t) (hfree : ¬ s.Blocked t) :
    ∃ s', Step s (.moves t) s' := by
  have hsound := h.sound t
  rw [Tasks.Blocked] at hfree
  cases hp : s.place t with
  | idle => exact absurd hp hwork.1
  | calling item =>
      rw [hp] at hfree
      exact ⟨_, .lockItemCounterMtx hp (not_not.mp hfree)⟩
  | entering item =>
      rw [hp] at hfree
      exact ⟨_, .lockProducer hp (not_not.mp hfree)⟩
  | coming =>
      rw [hp] at hfree
      exact ⟨_, .lockConsumer hp (not_not.mp hfree)⟩
  | wait c phase =>
      cases phase with
      | testing =>
          by_cases hready : c.Ready s.m_deque
          · exact ⟨_, .predicateTrue hp hready⟩
          · exact ⟨_, .predicateFalse hp hready⟩
      | blocking => exact ⟨_, .wait hp⟩
      | asleep =>
          rw [hp] at hfree
          exact absurd trivial hfree
      | woken =>
          rw [hp] at hfree
          exact ⟨_, .lockAgain hp (not_not.mp hfree)⟩
  | ready c =>
      cases c with
      | m_repositoryNotFull item => exact ⟨_, .push_back hp⟩
      | m_repositoryNotEmpty =>
          rw [hp] at hsound
          obtain ⟨temp, rest, hdeque⟩ := List.exists_cons_of_ne_nil hsound
          have hfront : s.m_deque.head? = some temp := by
            rw [hdeque]
            rfl
          exact ⟨_, .front hp hfront⟩
  | pushed => exact ⟨_, .unlockProducer hp⟩
  | left => exact ⟨_, .unlockItemCounterMtx hp⟩
  | executing temp => exact ⟨_, .pop_front hp⟩
  | popped => exact ⟨_, .unlockConsumer hp⟩

omit [DecidableEq T] in
theorem Tasks.runs_of_holdsMtx (hlock : (s.place t).HoldsMtx) : s.HasWork t ∧ ¬ s.Blocked t := by
  unfold Tasks.HasWork Tasks.Blocked
  cases hp : s.place t with
  | wait c phase =>
      cases phase with
      | testing => simp
      | blocking => simp
      | _ =>
          rw [hp] at hlock
          exact hlock.elim
  | ready c => simp
  | pushed => simp
  | executing temp => simp
  | popped => simp
  | _ =>
      rw [hp] at hlock
      exact hlock.elim

omit [DecidableEq T] in
/-- With `m_mtx` free and nothing in the deque only `m_itemCounterMtx` can block a thread. -/
theorem Consistent.not_blocked (h : Consistent s) (hfree : s.m_mtx = none) (hempty : s.m_deque = [])
    (hwork : s.HasWork t) (hcalling : ∀ item, s.place t ≠ calling item) : ¬ s.Blocked t := by
  have hsound := h.sound t
  unfold Tasks.Blocked
  cases hp : s.place t with
  | calling item => exact absurd hp (hcalling item)
  | entering item => simp [hfree]
  | coming => simp [hfree]
  | wait c phase =>
      cases phase with
      | woken => simp [hfree]
      | asleep =>
          rw [hp] at hsound
          cases c with
          | m_repositoryNotFull item =>
              have hroom : ¬ ([] : List Item).length ≥ m_nMAxSize := by simp [m_nMAxSize]
              rw [hempty] at hsound
              exact absurd hroom hsound
          | m_repositoryNotEmpty => exact absurd ⟨hp, hempty⟩ hwork.2
      | _ => exact id
  | _ => exact id

omit [DecidableEq T] in
/-- Some thread with work can go on. -/
theorem Consistent.not_stuck (h : Consistent s) (hwork : s.HasWork t) :
    ∃ u, s.HasWork u ∧ ¬ s.Blocked u := by
  cases hmtx : s.m_mtx with
  | some u => exact ⟨u, Tasks.runs_of_holdsMtx ((h.mtx u).mp hmtx)⟩
  | none =>
      have hsound := h.sound .consumer
      have hconsumer := h.consumer
      have hunlocked := h.mtx.free hmtx .consumer
      by_cases hempty : s.m_deque = []
      · by_cases hcalling : ∃ item, s.place t = calling item
        · obtain ⟨item, hp⟩ := hcalling
          cases hitem : s.m_itemCounterMtx with
          | none =>
              refine ⟨t, hwork, ?_⟩
              simp [Tasks.Blocked, hp, hitem]
          | some u =>
              have hholds := (h.itemCounterMtx u).mp hitem
              have hcalling' : ∀ item, s.place u ≠ calling item := by
                intro item hu
                rw [hu] at hholds
                exact hholds
              have hwork' : s.HasWork u := by
                constructor
                · intro hu
                  rw [hu] at hholds
                  exact hholds
                · rintro ⟨hu, -⟩
                  rw [hu] at hholds
                  exact hholds
              exact ⟨u, hwork', h.not_blocked hmtx hempty hwork' hcalling'⟩
        · exact ⟨t, hwork, h.not_blocked hmtx hempty hwork fun item hp => hcalling ⟨item, hp⟩⟩
      · refine ⟨.consumer, ?_⟩
        unfold Tasks.HasWork Tasks.Blocked
        cases hp : s.place .consumer with
        | coming => simp [hmtx]
        | wait c phase =>
            rw [hp] at hsound hconsumer hunlocked
            cases c with
            | m_repositoryNotFull item => exact hconsumer.elim
            | m_repositoryNotEmpty =>
                cases phase with
                | asleep => exact absurd hempty hsound
                | woken => simp [hmtx]
                | _ => exact absurd trivial hunlocked
        | ready c =>
            rw [hp] at hunlocked
            exact absurd trivial hunlocked
        | executing temp =>
            rw [hp] at hunlocked
            exact absurd trivial hunlocked
        | popped =>
            rw [hp] at hunlocked
            exact absurd trivial hunlocked
        | _ =>
            rw [hp] at hconsumer
            exact hconsumer.elim

/-- In every state of every run the deque is within its size, the consumer waits for an item only
while there is none, a producer waits for room only while there is none, and if any thread has work
then one of them can go on. -/
theorem task_queue_never_stuck
    {trace : List (Transition (Tasks T Item) (TaskEvent T Item))}
    (run : Run Step (Tasks.start : Tasks T Item) trace s) :
    s.m_deque.length ≤ m_nMAxSize ∧
      (s.place .consumer = wait m_repositoryNotEmpty asleep → s.m_deque = []) ∧
      (∀ t item, s.place (.loop t) = wait (m_repositoryNotFull item) asleep →
        s.m_deque.length = m_nMAxSize) ∧
      ((∃ t, s.HasWork t) → ∃ t, s.HasWork t ∧ ¬ s.Blocked t ∧ ∃ s', Step s (.moves t) s') := by
  have h : Consistent s := run.invariant consistent_start fun _ _ _ h hstep => h.step hstep
  refine ⟨h.bounded, fun hp => ?_, fun t item hp => ?_, fun hwork => ?_⟩
  · have hsound := h.sound .consumer
    rw [hp] at hsound
    exact not_not.mp hsound
  · have hsound := h.sound (.loop t)
    rw [hp] at hsound
    exact le_antisymm h.bounded (not_not.mp hsound)
  · obtain ⟨t, hwork⟩ := hwork
    obtain ⟨u, hwork', hfree⟩ := h.not_stuck hwork
    exact ⟨u, hwork', hfree, h.enabled hwork' hfree⟩

/-- A producer has put its item into the deque before the consumer has come. -/
theorem task_queue_never_stuck_pushed : ∃ (s : Tasks Unit ℕ) (trace : List (Transition _ _)),
    Run Step (Tasks.start : Tasks Unit ℕ) trace s ∧ s.m_deque = [7] ∧
      ∃ t, s.HasWork t ∧ ¬ s.Blocked t ∧ ∃ s', Step s (.moves t) s' := by
  have called := Run.start.next (@Step.producerTask Unit ℕ _ Tasks.start () 7 rfl)
  have entered := called.next (.lockItemCounterMtx (t := .loop ()) rfl rfl)
  have locked := entered.next (.lockProducer (t := .loop ()) rfl rfl)
  have hroom : (m_repositoryNotFull 7).Ready ([] : List ℕ) := by simp [Condition.Ready, m_nMAxSize]
  have tested := locked.next (.predicateTrue (t := .loop ()) rfl hroom)
  have pushed := tested.next (.push_back (t := .loop ()) rfl)
  exact ⟨_, _, pushed, rfl, (task_queue_never_stuck pushed).2.2.2 ⟨.consumer, by decide, by decide⟩⟩

end TaskManager

end Yedis
