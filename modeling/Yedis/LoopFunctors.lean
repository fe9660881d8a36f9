import Yedis.Fifo
import Yedis.Runs
import Mathlib.Logic.Function.Basic

/-!
# The pending functors of an event loop

Other threads and the loop thread itself queue functors with `queueInLoop`, while the
loop thread goes round `poll`, `HandleEvent` and `doPendingFunctors`. The wake-up
descriptor is a counter that `handleRead` resets. What is done to the functors with
`m_mutex` held is one step.
-/

namespace Yedis
open Fifo Runs

namespace EventLoop

variable {T F : Type}

inductive ActiveChannel
  | m_wakeupChannel
  | other
  deriving DecidableEq

open ActiveChannel

/-- The loop thread runs a callback of a channel, with the active channels left, or a functor, with
the functors left. -/
inductive Context (F : Type)
  | callback (active : List ActiveChannel)
  | functor (vecFunctors : List F)

/-- The code it runs there is `waking` when `queueInLoop` has pushed and is to call `wakeUp`. -/
inductive Code
  | running
  | waking

inductive Place (F : Type)
  | polling
  | events (active : List ActiveChannel)
  | swapping
  | functors (vecFunctors : List F)
  | inside (context : Context F) (code : Code)

open Context Code Place

/-- Where the loop goes on after the callback or the functor. -/
def Context.back : Context F → Place F
  | callback active => events active
  | functor vecFunctors => functors vecFunctors

/-- The functors that `doPendingFunctors` has swapped out and not called yet. -/
def Place.vecFunctors : Place F → List F
  | functors fs | inside (functor fs) _ => fs
  | _ => []

/-- From the swap to the next return of `poll`. -/
def Place.SinceSwap : Place F → Prop
  | polling | functors _ | inside (functor _) _ => True
  | _ => False

def Place.InPendingFunctors : Place F → Prop
  | swapping | functors _ | inside (functor _) _ => True
  | _ => False

structure Loop (T F : Type) where
  m_vecPendingFunctor : List F := []
  m_bCallingPendingFunctor : Bool
  m_wakeupFd : ℕ := 0
  place : Place F := polling
  /-- the other threads that have pushed in `queueInLoop` and not called `wakeUp` yet -/
  pushed : T → Bool := fun _ => false

/-- `m_bCallingPendingFunctor` is not set before the first call of `doPendingFunctors`. -/
def Loop.start (flag : Bool) : Loop T F where
  m_bCallingPendingFunctor := flag

inductive LoopEvent (F : Type)
  | queueInLoop (cb : F)
  | runInLoop (cb : F)
  | runs (cb : F)
  | swap
  | other

namespace LoopEvent

def queued : LoopEvent F → List F
  | queueInLoop cb => [cb]
  | _ => []

def executed : LoopEvent F → List F
  | runs cb => [cb]
  | _ => []

def isSwap : LoopEvent F → Bool
  | swap => true
  | _ => false

/-- The functors queued before the last swap, in a history with the newest event first. -/
def queuedBeforeSwap (history : List (LoopEvent F)) : List F :=
  moved queued (history.dropWhile fun e => !e.isSwap)

end LoopEvent

open LoopEvent

variable [DecidableEq T]

inductive Step (s : Loop T F) : LoopEvent F → Loop T F → Prop
  | poll {active : List ActiveChannel} (h : s.place = polling)
      (hready : m_wakeupChannel ∈ active → 0 < s.m_wakeupFd) :
      Step s .other { s with place := events active }
  | handleRead {active : List ActiveChannel} (h : s.place = events (m_wakeupChannel :: active)) :
      Step s .other { s with m_wakeupFd := 0, place := events active }
  | handleEvent {active : List ActiveChannel} (h : s.place = events (other :: active)) :
      Step s .other { s with place := inside (callback active) running }
  | returns {context : Context F} (h : s.place = inside context running) :
      Step s .other { s with place := context.back }
  | runInLoop {context : Context F} (cb : F) (h : s.place = inside context running) :
      Step s (.runInLoop cb) s
  | queueInLoop {context : Context F} (cb : F) (h : s.place = inside context running) :
      Step s (.queueInLoop cb)
        { s with
          m_vecPendingFunctor := s.m_vecPendingFunctor ++ [cb]
          place := inside context (if s.m_bCallingPendingFunctor then waking else running) }
  | wakeUp {context : Context F} (h : s.place = inside context waking) :
      Step s .other
        { s with m_wakeupFd := s.m_wakeupFd + 1, place := inside context running }
  | doPendingFunctors (h : s.place = events []) :
      Step s .other { s with m_bCallingPendingFunctor := true, place := swapping }
  | swap (h : s.place = swapping) :
      Step s .swap
        { s with m_vecPendingFunctor := [], place := functors s.m_vecPendingFunctor }
  | runs {cb : F} {vecFunctors : List F} (h : s.place = functors (cb :: vecFunctors)) :
      Step s (.runs cb) { s with place := inside (functor vecFunctors) running }
  | done (h : s.place = functors []) :
      Step s .other { s with m_bCallingPendingFunctor := false, place := polling }
  | otherQueues {t : T} (cb : F) (h : s.pushed t = false) :
      Step s (.queueInLoop cb)
        { s with
          m_vecPendingFunctor := s.m_vecPendingFunctor ++ [cb]
          pushed := Function.update s.pushed t true }
  | otherWakesUp {t : T} (h : s.pushed t = true) :
      Step s .other
        { s with
          m_wakeupFd := s.m_wakeupFd + 1
          pushed := Function.update s.pushed t false }

/-- The wake-up descriptor is readable, or some other thread is to make it so. -/
def Loop.Signalled (s : Loop T F) : Prop := 0 < s.m_wakeupFd ∨ ∃ t, s.pushed t = true

structure Orderly (history : List (LoopEvent F)) (s : Loop T F) : Prop where
  queued : moved queued history =
    moved executed history ++ s.place.vecFunctors ++ s.m_vecPendingFunctor
  beforeSwap : queuedBeforeSwap history = moved executed history ++ s.place.vecFunctors
  calling : s.place.InPendingFunctors → s.m_bCallingPendingFunctor = true
  signalled : s.place.SinceSwap → s.m_vecPendingFunctor ≠ [] →
    s.Signalled ∨ ∃ context, s.place = inside context waking

omit [DecidableEq T] in
theorem orderly_start (flag : Bool) : Orderly [] (Loop.start flag : Loop T F) where
  queued := rfl
  beforeSwap := rfl
  calling := False.elim
  signalled _ h := absurd rfl h

variable {history : List (LoopEvent F)} {s s' : Loop T F}

omit [DecidableEq T] in
theorem queuedBeforeSwap_cons {e : LoopEvent F} (h : e.isSwap = false) :
    queuedBeforeSwap (e :: history) = queuedBeforeSwap history := by
  rw [queuedBeforeSwap, List.dropWhile_cons, h]
  rfl

omit [DecidableEq T] in
/-- Only a thread about to wake the loop up may leave functors pending without a signal. -/
theorem Orderly.signalled_of_ne (h : Orderly history s) {p : Place F} (hp : s.place = p)
    (hwaking : ∀ context, p ≠ inside context waking) (hsince : p.SinceSwap)
    (hne : s.m_vecPendingFunctor ≠ []) : s.Signalled := by
  rcases h.signalled (hp ▸ hsince) hne with hs | ⟨context, hc⟩
  · exact hs
  · exact absurd (hp.symm.trans hc) (hwaking context)

omit [DecidableEq T] in
/-- Nothing is queued and no functor is called or swapped out. -/
theorem Orderly.other (h : Orderly history s) {e : LoopEvent F} (hqueued : e.queued = [])
    (hexecuted : e.executed = []) (hswap : e.isSwap = false)
    (hpending : s'.m_vecPendingFunctor = s.m_vecPendingFunctor)
    (hfunctors : s'.place.vecFunctors = s.place.vecFunctors)
    (hcalling : s'.place.InPendingFunctors → s'.m_bCallingPendingFunctor = true)
    (hsignalled : s'.place.SinceSwap → s.m_vecPendingFunctor ≠ [] →
      s'.Signalled ∨ ∃ context, s'.place = inside context waking) : Orderly (e :: history) s' where
  queued := by
    rw [moved_cons, moved_cons, hpending, hfunctors, hqueued, hexecuted, List.append_nil,
      List.append_nil]
    exact h.queued
  beforeSwap := by
    rw [queuedBeforeSwap_cons hswap, moved_cons, hfunctors, hexecuted, List.append_nil]
    exact h.beforeSwap
  calling := hcalling
  signalled := hpending ▸ hsignalled

omit [DecidableEq T] in
/-- A functor is queued. -/
theorem Orderly.queue (h : Orderly history s) {cb : F}
    (hpending : s'.m_vecPendingFunctor = s.m_vecPendingFunctor ++ [cb])
    (hfunctors : s'.place.vecFunctors = s.place.vecFunctors)
    (hcalling : s'.place.InPendingFunctors → s'.m_bCallingPendingFunctor = true)
    (hsignalled : s'.place.SinceSwap → s'.Signalled ∨ ∃ context, s'.place = inside context waking) :
    Orderly (.queueInLoop cb :: history) s' where
  queued := by
    rw [moved_cons, moved_cons, hpending, hfunctors, h.queued]
    simp only [LoopEvent.queued, executed, List.append_nil, List.append_assoc]
  beforeSwap := by
    rw [queuedBeforeSwap_cons rfl, moved_cons, hfunctors]
    simpa only [executed, List.append_nil] using h.beforeSwap
  calling := hcalling
  signalled hsince _ := hsignalled hsince

theorem Orderly.step {e : LoopEvent F} (h : Orderly history s) (hstep : Step s e s') :
    Orderly (e :: history) s' := by
  cases hstep with
  | poll hp hready =>
      refine h.other rfl rfl rfl rfl ?_ False.elim False.elim
      rw [hp]
      rfl
  | handleRead hp =>
      refine h.other rfl rfl rfl rfl ?_ False.elim False.elim
      rw [hp]
      rfl
  | handleEvent hp =>
      refine h.other rfl rfl rfl rfl ?_ False.elim False.elim
      rw [hp]
      rfl
  | @returns context hp =>
      have hcalling := h.calling
      rw [hp] at hcalling
      cases context with
      | callback active =>
          refine h.other rfl rfl rfl rfl ?_ False.elim False.elim
          rw [hp]
          rfl
      | functor vecFunctors =>
          refine h.other rfl rfl rfl rfl ?_ hcalling fun hsince hne => ?_
          · rw [hp]
            rfl
          · exact Or.inl (h.signalled_of_ne hp nofun hsince hne)
  | runInLoop cb hp => exact h.other rfl rfl rfl rfl rfl h.calling h.signalled
  | @queueInLoop context cb hp =>
      have hcalling := h.calling
      rw [hp] at hcalling
      cases context with
      | callback active =>
          refine h.queue rfl ?_ False.elim False.elim
          rw [hp]
          rfl
      | functor vecFunctors =>
          refine h.queue rfl ?_ hcalling fun _ => Or.inr ⟨functor vecFunctors, ?_⟩
          · rw [hp]
            rfl
          · rw [hcalling trivial]
            rfl
  | @wakeUp context hp =>
      have hcalling := h.calling
      rw [hp] at hcalling
      cases context with
      | callback active =>
          refine h.other rfl rfl rfl rfl ?_ False.elim False.elim
          rw [hp]
          rfl
      | functor vecFunctors =>
          refine h.other rfl rfl rfl rfl ?_ hcalling fun _ _ => Or.inl (Or.inl (Nat.succ_pos _))
          rw [hp]
          rfl
  | doPendingFunctors hp =>
      refine h.other rfl rfl rfl rfl ?_ (fun _ => rfl) False.elim
      rw [hp]
      rfl
  | swap hp =>
      have hqueued := h.queued
      have hcalling := h.calling
      rw [hp] at hqueued hcalling
      refine ⟨?_, ?_, hcalling, fun _ hne => absurd rfl hne⟩
      · rw [moved_cons, moved_cons, hqueued]
        simp only [LoopEvent.queued, executed, vecFunctors, List.append_nil]
      · rw [queuedBeforeSwap, List.dropWhile_cons, isSwap, if_neg (by decide), moved_cons,
          moved_cons, hqueued]
        simp only [LoopEvent.queued, executed, vecFunctors, List.append_nil]
  | @runs cb vecFunctors hp =>
      have hqueued := h.queued
      have hbefore := h.beforeSwap
      have hcalling := h.calling
      rw [hp] at hqueued hbefore hcalling
      refine ⟨?_, ?_, hcalling, fun hsince hne => ?_⟩
      · rw [moved_cons, moved_cons, hqueued]
        simp [LoopEvent.queued, executed, Place.vecFunctors]
      · rw [queuedBeforeSwap_cons rfl, moved_cons, hbefore]
        simp [executed, Place.vecFunctors]
      · exact Or.inl (h.signalled_of_ne hp nofun hsince hne)
  | done hp =>
      refine h.other rfl rfl rfl rfl ?_ False.elim fun _ hne => ?_
      · rw [hp]
        rfl
      · exact Or.inl (h.signalled_of_ne hp nofun trivial hne)
  | @otherQueues t cb hp =>
      exact h.queue rfl rfl h.calling fun _ =>
        Or.inl (Or.inr ⟨t, Function.update_self _ _ _⟩)
  | otherWakesUp hp =>
      exact h.other rfl rfl rfl rfl rfl h.calling fun _ _ => Or.inl (Or.inl (Nat.succ_pos _))

/-- In every run the functors queued are those executed, those swapped out and those pending, in
this order. When the loop thread is about to poll, it has executed exactly the functors queued
before it last swapped them out, and if others are pending then the wake-up descriptor is readable
or another thread is to call `wakeUp`. -/
theorem no_functor_stranded {flag : Bool} {trace : List (Transition (Loop T F) (LoopEvent F))}
    (run : Run Step (Loop.start flag : Loop T F) trace s) :
    moved queued (labels trace) =
        moved executed (labels trace) ++ s.place.vecFunctors ++ s.m_vecPendingFunctor ∧
      (s.place = polling →
        moved executed (labels trace) = queuedBeforeSwap (labels trace) ∧
          (s.m_vecPendingFunctor ≠ [] → 0 < s.m_wakeupFd ∨ ∃ t, s.pushed t = true)) := by
  have h : Orderly (labels trace) s :=
    run.invariant_labels (orderly_start flag) fun _ _ _ _ h hstep => h.step hstep
  refine ⟨h.queued, fun hp => ⟨?_, fun hne => ?_⟩⟩
  · have hbefore := h.beforeSwap
    rw [hp] at hbefore
    exact (hbefore.trans (List.append_nil _)).symm
  · have hsignalled := h.signalled
    rw [hp] at hsignalled
    rcases hsignalled trivial hne with hs | ⟨context, hc⟩
    · exact hs
    · cases hc

/-- Another thread queues a functor and wakes the loop, which executes it and polls again. -/
theorem no_functor_stranded_round : ∃ (s : Loop Unit ℕ) (trace : List (Transition _ _)),
    Run Step (Loop.start false : Loop Unit ℕ) trace s ∧ s.place = polling ∧
      moved queued (labels trace) = [7] ∧
      moved executed (labels trace) = queuedBeforeSwap (labels trace) := by
  have queued := Run.start.next (Step.otherQueues (s := (Loop.start false : Loop Unit ℕ))
    (t := ()) 7 rfl)
  have woken := queued.next (.otherWakesUp (t := ()) rfl)
  have polled := woken.next (@Step.poll Unit ℕ _ _ [m_wakeupChannel] rfl fun _ => Nat.succ_pos _)
  have swapped := ((polled.next (.handleRead rfl)).next (.doPendingFunctors rfl)).next (.swap rfl)
  have done := ((swapped.next (.runs rfl)).next (.returns rfl)).next (.done rfl)
  exact ⟨_, _, done, rfl, rfl, ((no_functor_stranded done).2 rfl).1⟩

end EventLoop

end Yedis
