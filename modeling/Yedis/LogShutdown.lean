import Yedis.Decimal
import Yedis.Fifo
import Yedis.Locks
import Yedis.Runs

/-!
# Shutting down the log

Any number of threads queue lines with `output`, the writer thread of `CAsyncLog` takes
them, and one thread calls `uninit`, which sets `m_bExit` and notifies without the lock
of the queue. A thread is at a place between two operations on the lock, the condition
variable or `m_bExit`. Lines are taken once and in order, and the writer ends unless the
notification falls between its test of `m_bExit` and its wait.
-/

namespace Yedis
open Fifo Locks Runs

namespace CAsyncLog

variable {T : Type}

inductive LogThread (T : Type)
  | writer
  | logger (t : T)
  deriving DecidableEq

/-- The places of the writer in `writeThreadProc`, then those of a thread in `output`. The writer is
`testingExit` when it has found the queue empty and `blocking` when it has found `m_bExit` false. -/
inductive LogPlace
  | opening
  | testing
  | testingExit
  | blocking
  | asleep
  | woken
  | writing (strLine : Bytes)
  | exited
  | failed
  | idle
  | calling (strLine : Bytes)
  | pushing (strLine : Bytes)
  | pushed
  deriving DecidableEq

open LogPlace LogThread

def LogPlace.HoldsMutexWrite : LogPlace → Prop
  | testing | testingExit | blocking | pushing _ | pushed => True
  | _ => False

/-- The writer has found the queue empty and not looked again. -/
def LogPlace.FoundEmpty : LogPlace → Prop
  | testingExit | blocking | asleep => True
  | _ => False

/-- `m_cvWrite.notify_one()`, which only the writer waits for. -/
def LogPlace.notifyOne : LogPlace → LogPlace
  | asleep => woken
  | p => p

inductive UninitPlace
  | before
  | stored
  | joining
  | joined
  deriving DecidableEq

structure Log (T : Type) where
  m_listLinesToWrite : List Bytes := []
  m_mutexWrite : Option (LogThread T) := none
  m_bExit : Bool := false
  uninit : UninitPlace := .before
  place : LogThread T → LogPlace :=
    fun
    | writer => opening
    | logger _ => idle

inductive LogEvent
  | queued (strLine : Bytes)
  | taken (strLine : Bytes)
  | exits
  | notifies
  | other

namespace LogEvent

def queuedLines : LogEvent → List Bytes
  | queued strLine => [strLine]
  | _ => []

def takenLines : LogEvent → List Bytes
  | taken strLine => [strLine]
  | _ => []

end LogEvent

open LogEvent

variable [DecidableEq T]

inductive LogStep (s : Log T) : LogEvent → Log T → Prop
  | output {t : T} (strLine : Bytes) (h : s.place (logger t) = idle) :
      LogStep s .other { s with place := Function.update s.place (logger t) (calling strLine) }
  | lockLogger {t : T} {strLine : Bytes} (h : s.place (logger t) = calling strLine)
      (hfree : s.m_mutexWrite = none) :
      LogStep s .other
        { s with
          m_mutexWrite := some (logger t)
          place := Function.update s.place (logger t) (pushing strLine) }
  | push_back {t : T} {strLine : Bytes} (h : s.place (logger t) = pushing strLine) :
      LogStep s (.queued strLine)
        { s with
          m_listLinesToWrite := s.m_listLinesToWrite ++ [strLine]
          place := fun u => (Function.update s.place (logger t) pushed u).notifyOne }
  | unlockLogger {t : T} (h : s.place (logger t) = pushed) :
      LogStep s .other
        { s with m_mutexWrite := none, place := Function.update s.place (logger t) idle }
  | fopenFails (h : s.place writer = opening) :
      LogStep s .other { s with place := Function.update s.place writer failed }
  | lockWriter (h : s.place writer = opening) (hfree : s.m_mutexWrite = none) :
      LogStep s .other
        { s with m_mutexWrite := some writer, place := Function.update s.place writer testing }
  | empty (h : s.place writer = testing) (hempty : s.m_listLinesToWrite = []) :
      LogStep s .other { s with place := Function.update s.place writer testingExit }
  | pop_front {strLine : Bytes} {rest : List Bytes} (h : s.place writer = testing)
      (hline : s.m_listLinesToWrite = strLine :: rest) :
      LogStep s (.taken strLine)
        { s with
          m_listLinesToWrite := rest
          m_mutexWrite := none
          place := Function.update s.place writer (writing strLine) }
  | exits (h : s.place writer = testingExit) (hexit : s.m_bExit = true) :
      LogStep s .exits
        { s with m_mutexWrite := none, place := Function.update s.place writer exited }
  | stays (h : s.place writer = testingExit) (hexit : s.m_bExit = false) :
      LogStep s .other { s with place := Function.update s.place writer blocking }
  | wait (h : s.place writer = blocking) :
      LogStep s .other
        { s with m_mutexWrite := none, place := Function.update s.place writer asleep }
  | lockAgain (h : s.place writer = woken) (hfree : s.m_mutexWrite = none) :
      LogStep s .other
        { s with m_mutexWrite := some writer, place := Function.update s.place writer testing }
  | written {strLine : Bytes} (h : s.place writer = writing strLine) :
      LogStep s .other { s with place := Function.update s.place writer opening }
  | fwriteFails {strLine : Bytes} (h : s.place writer = writing strLine) :
      LogStep s .other { s with place := Function.update s.place writer failed }
  | setExit (h : s.uninit = .before) :
      LogStep s .other { s with m_bExit := true, uninit := .stored }
  | notify_one (h : s.uninit = .stored) :
      LogStep s .notifies { s with uninit := .joining, place := fun u => (s.place u).notifyOne }
  | join (h : s.uninit = .joining) (hwriter : s.place writer = exited ∨ s.place writer = failed) :
      LogStep s .other { s with uninit := .joined }

/-- `uninit` waits for the writer, which waits for a notification. -/
def Log.Hangs (s : Log T) : Prop :=
  s.uninit = .joining ∧ s.place writer = asleep ∧ s.m_listLinesToWrite = [] ∧ s.m_bExit = true

/-- The notification of `uninit` does not fall between the test of `m_bExit` and the wait. -/
def NotifyInTime (s : Log T) : LogEvent → Prop
  | .notifies => s.place writer ≠ blocking
  | _ => True

structure Queued (history : List LogEvent) (s : Log T) : Prop where
  lock : Held s.m_mutexWrite s.place LogPlace.HoldsMutexWrite
  empty : (s.place writer).FoundEmpty → s.m_listLinesToWrite = []
  moved : moved queuedLines history = moved takenLines history ++ s.m_listLinesToWrite

omit [DecidableEq T] in
theorem queued_start : Queued [] ({} : Log T) where
  lock t := by cases t <;> simp [LogPlace.HoldsMutexWrite]
  empty := False.elim
  moved := rfl

theorem holdsMutexWrite_notifyOne (p : LogPlace) :
    p.notifyOne.HoldsMutexWrite ↔ p.HoldsMutexWrite := by
  unfold LogPlace.notifyOne
  split <;> simp [LogPlace.HoldsMutexWrite]

theorem foundEmpty_of_notifyOne {p : LogPlace} (h : p.notifyOne.FoundEmpty) : p.FoundEmpty := by
  cases p with
  | asleep => trivial
  | _ => exact h

theorem holds_of_foundEmpty_notifyOne {p : LogPlace} (h : p.notifyOne.FoundEmpty) :
    p.HoldsMutexWrite := by
  cases p with
  | testingExit => trivial
  | blocking => trivial
  | _ => exact h.elim

theorem notifyOne_ne {p : LogPlace} (h : p ≠ blocking) :
    p.notifyOne ≠ blocking ∧ p.notifyOne ≠ asleep := by
  cases p with
  | blocking => exact absurd rfl h
  | _ => simp [LogPlace.notifyOne]

variable {s s' : Log T} {e : LogEvent} {history : List LogEvent} {t : LogThread T} {p : LogPlace}

theorem update_logger_writer (place : LogThread T → LogPlace) (t : T) (p : LogPlace) :
    Function.update place (logger t) p writer = place writer :=
  Function.update_of_ne (by simp) _ _

omit [DecidableEq T] in
/-- No line is queued or taken. -/
theorem Queued.other (h : Queued history s) (hqueued : e.queuedLines = [])
    (htaken : e.takenLines = []) (hlist : s'.m_listLinesToWrite = s.m_listLinesToWrite)
    (hlock : Held s'.m_mutexWrite s'.place LogPlace.HoldsMutexWrite)
    (hempty : (s'.place writer).FoundEmpty → s.m_listLinesToWrite = []) :
    Queued (e :: history) s' where
  lock := hlock
  empty := hlist ▸ hempty
  moved := by
    rw [moved_cons, moved_cons, hqueued, htaken, hlist, List.append_nil, List.append_nil]
    exact h.moved

theorem Queued.logger_moves {u : T} (h : Queued history s) (hqueued : e.queuedLines = [])
    (htaken : e.takenLines = []) (hlist : s'.m_listLinesToWrite = s.m_listLinesToWrite)
    (hplace : s'.place = Function.update s.place (logger u) p)
    (hlock : Held s'.m_mutexWrite s'.place LogPlace.HoldsMutexWrite) :
    Queued (e :: history) s' := by
  refine h.other hqueued htaken hlist hlock ?_
  rw [hplace, update_logger_writer]
  exact h.empty

/-- The writer moves on to a place where it has not found the list empty. -/
theorem Queued.writer_moves (h : Queued history s) (hqueued : e.queuedLines = [])
    (htaken : e.takenLines = []) (hlist : s'.m_listLinesToWrite = s.m_listLinesToWrite)
    (hplace : s'.place = Function.update s.place writer p)
    (hlock : Held s'.m_mutexWrite s'.place LogPlace.HoldsMutexWrite) (hfound : ¬ p.FoundEmpty) :
    Queued (e :: history) s' := by
  refine h.other hqueued htaken hlist hlock ?_
  rw [hplace, Function.update_self]
  exact fun hp => absurd hp hfound

theorem Queued.step (h : Queued history s) (hstep : LogStep s e s') : Queued (e :: history) s' := by
  have hempty := h.empty
  cases hstep with
  | output strLine hp =>
      refine h.logger_moves rfl rfl rfl rfl (h.lock.move ?_)
      rw [hp]
      exact Iff.rfl
  | lockLogger hp hfree => exact h.logger_moves rfl rfl rfl rfl (h.lock.acquire hfree trivial)
  | @push_back t strLine hp =>
      have hholds : (s.place (logger t)).HoldsMutexWrite := by
        rw [hp]
        trivial
      have hlock := h.lock.move (p := pushed) (iff_of_true trivial hholds)
      refine ⟨hlock.congr fun _ => holdsMutexWrite_notifyOne _, fun hfound => ?_, ?_⟩
      · simp only [update_logger_writer] at hfound
        exact absurd (holds_of_foundEmpty_notifyOne hfound) (h.lock.not_holds hholds (by simp))
      · rw [moved_cons, moved_cons, h.moved]
        simp only [queuedLines, takenLines, List.append_nil, List.append_assoc]
  | @unlockLogger t hp =>
      refine h.logger_moves rfl rfl rfl rfl (h.lock.release ?_ id)
      rw [hp]
      trivial
  | fopenFails hp =>
      refine h.writer_moves rfl rfl rfl rfl (h.lock.move ?_) id
      rw [hp]
      exact Iff.rfl
  | lockWriter hp hfree => exact h.writer_moves rfl rfl rfl rfl (h.lock.acquire hfree trivial) id
  | empty hp hlist =>
      refine h.other rfl rfl rfl (h.lock.move ?_) fun _ => hlist
      rw [hp]
      exact Iff.rfl
  | @pop_front strLine rest hp hline =>
      have hholds : (s.place writer).HoldsMutexWrite := by
        rw [hp]
        trivial
      refine ⟨h.lock.release hholds id, ?_, ?_⟩
      · simp only [Function.update_self]
        exact False.elim
      · rw [moved_cons, moved_cons, h.moved, hline]
        simp [queuedLines, takenLines]
  | exits hp hexit =>
      refine h.writer_moves rfl rfl rfl rfl (h.lock.release ?_ id) id
      rw [hp]
      trivial
  | stays hp hexit =>
      refine h.other rfl rfl rfl (h.lock.move ?_) fun _ => hempty ?_
      · rw [hp]
        exact Iff.rfl
      · rw [hp]
        trivial
  | wait hp =>
      refine h.other rfl rfl rfl (h.lock.release ?_ id) fun _ => hempty ?_
      · rw [hp]
        trivial
      · rw [hp]
        trivial
  | lockAgain hp hfree => exact h.writer_moves rfl rfl rfl rfl (h.lock.acquire hfree trivial) id
  | written hp =>
      refine h.writer_moves rfl rfl rfl rfl (h.lock.move ?_) id
      rw [hp]
      exact Iff.rfl
  | fwriteFails hp =>
      refine h.writer_moves rfl rfl rfl rfl (h.lock.move ?_) id
      rw [hp]
      exact Iff.rfl
  | setExit hp => exact h.other rfl rfl rfl h.lock hempty
  | notify_one hp =>
      exact h.other rfl rfl rfl (h.lock.congr fun _ => holdsMutexWrite_notifyOne _)
        fun hfound => hempty (foundEmpty_of_notifyOne hfound)
  | join hp hwriter => exact h.other rfl rfl rfl h.lock hempty

/-- Once `uninit` has notified, the writer neither waits nor is about to. -/
structure Released (s : Log T) : Prop where
  exit_set : s.uninit ≠ .before → s.m_bExit = true
  awake : s.uninit = .joining ∨ s.uninit = .joined →
    s.place writer ≠ blocking ∧ s.place writer ≠ asleep

omit [DecidableEq T] in
theorem released_start : Released ({} : Log T) where
  exit_set h := absurd rfl h
  awake h := by rcases h with h | h <;> cases h

theorem Released.step (h : Released s) (htime : NotifyInTime s e) (hstep : LogStep s e s') :
    Released s' := by
  have hexit := h.exit_set
  have hawake := h.awake
  cases hstep with
  | output strLine hp => exact ⟨hexit, by simpa only [update_logger_writer] using hawake⟩
  | lockLogger hp hfree => exact ⟨hexit, by simpa only [update_logger_writer] using hawake⟩
  | push_back hp =>
      refine ⟨hexit, fun hjoin => ?_⟩
      simp only [update_logger_writer]
      exact notifyOne_ne (hawake hjoin).1
  | unlockLogger hp => exact ⟨hexit, by simpa only [update_logger_writer] using hawake⟩
  | fopenFails hp => exact ⟨hexit, fun _ => by simp⟩
  | lockWriter hp hfree => exact ⟨hexit, fun _ => by simp⟩
  | empty hp hlist => exact ⟨hexit, fun _ => by simp⟩
  | pop_front hp hline => exact ⟨hexit, fun _ => by simp⟩
  | exits hp hset => exact ⟨hexit, fun _ => by simp⟩
  | stays hp hset =>
      refine ⟨hexit, fun hjoin => ?_⟩
      have hbefore : s.uninit ≠ .before := by
        rcases hjoin with hj | hj <;> rw [show s.uninit = _ from hj] <;> simp
      rw [hexit hbefore] at hset
      cases hset
  | wait hp => exact ⟨hexit, fun hjoin => absurd hp (hawake hjoin).1⟩
  | lockAgain hp hfree => exact ⟨hexit, fun _ => by simp⟩
  | written hp => exact ⟨hexit, fun _ => by simp⟩
  | fwriteFails hp => exact ⟨hexit, fun _ => by simp⟩
  | setExit hp => exact ⟨fun _ => rfl, by simp⟩
  | notify_one hp =>
      refine ⟨fun _ => hexit (by rw [hp]; simp), fun _ => notifyOne_ne htime⟩
  | join hp hwriter => exact ⟨fun _ => hexit (by rw [hp]; simp), fun _ => hawake (Or.inl hp)⟩

/-- A notification that does fall there is lost, and the next step of the writer is to wait. -/
theorem late_notify_hangs (h : Queued history s) (hstored : s.uninit = .stored)
    (hset : s.m_bExit = true) (hblocking : s.place writer = blocking) :
    ∃ s₁ s₂, LogStep s .notifies s₁ ∧ LogStep s₁ .other s₂ ∧ s₂.Hangs := by
  have hempty : s.m_listLinesToWrite = [] := h.empty (by rw [hblocking]; trivial)
  refine ⟨_, _, .notify_one hstored, .wait ?_, rfl, ?_, hempty, hset⟩
  · simp only [hblocking, LogPlace.notifyOne]
  · simp only [Function.update_self]

/-- In every run in which the notification of `uninit` does not fall between the writer's test of
`m_bExit` and its wait, `uninit` does not wait for a writer that waits for a notification. In every
run, when the writer ends because of `m_bExit`, it has taken the lines queued, once each and in
order. -/
theorem log_shutdown {trace : List (Transition (Log T) LogEvent)}
    (run : Run LogStep ({} : Log T) trace s) :
    ((∀ t ∈ trace, NotifyInTime t.src t.label) → ¬ s.Hangs) ∧ ∀ s', LogStep s .exits s' →
      moved queuedLines (labels trace) = moved takenLines (labels trace) := by
  have h : Queued (labels trace) s :=
    run.invariant_labels queued_start fun _ _ _ _ h hstep => h.step hstep
  refine ⟨fun htime => ?_, fun s' hexits => ?_⟩
  · have hreleased : Released s := run.invariant_of_all released_start htime
      fun _ _ _ h htime hstep => h.step htime hstep
    rintro ⟨hjoining, hasleep, -, -⟩
    exact (hreleased.awake (Or.inl hjoining)).2 hasleep
  · cases hexits with
    | exits hp hexit =>
        rw [h.moved, h.empty (by rw [hp]; trivial), List.append_nil]

/-- The writer waits before `uninit` is called, is woken and ends. -/
theorem log_shutdown_idle : ∃ (s : Log Unit) (trace : List (Transition _ _)),
    Run LogStep ({} : Log Unit) trace s ∧ s.uninit = .joining ∧ ¬ s.Hangs ∧
      ∀ s', LogStep s .exits s' →
        moved queuedLines (labels trace) = moved takenLines (labels trace) := by
  have tested := (Run.start.next (LogStep.lockWriter (s := ({} : Log Unit)) rfl rfl)).next
    (.empty rfl rfl)
  have asleep := (tested.next (.stays rfl rfl)).next (.wait rfl)
  have notified := (asleep.next (.setExit rfl)).next (.notify_one rfl)
  have done := (notified.next (.lockAgain rfl rfl)).next (.empty rfl rfl)
  obtain ⟨hawake, htaken⟩ := log_shutdown done
  exact ⟨_, _, done, rfl, hawake (by simp [NotifyInTime, LogPlace.notifyOne]), htaken⟩

/-- `uninit` sets `m_bExit` and notifies after the writer has found `m_bExit` false and before it
waits. -/
theorem log_shutdown_hangs : ∃ (s : Log Unit) (trace : List (Transition _ _)),
    Run LogStep ({} : Log Unit) trace s ∧ s.Hangs := by
  have tested := (Run.start.next (LogStep.lockWriter (s := ({} : Log Unit)) rfl rfl)).next
    (.empty rfl rfl)
  have blocking := tested.next (.stays rfl rfl)
  have notified := (blocking.next (.setExit rfl)).next (.notify_one rfl)
  exact ⟨_, _, notified.next (.wait rfl), rfl, rfl, rfl, rfl⟩

end CAsyncLog

end Yedis
