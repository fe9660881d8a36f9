import Mathlib.Logic.Function.Basic
import Mathlib.Tactic.Common
import Yedis.Runs

/-!
# Starting the loop threads

`EventLoopThreadPool::Start` with `EventLoopThread::StartLoop` and `ThreadFunc`. The
starting thread makes one `EventLoopThread` after the other and waits for each until
the new thread has stored the address of its loop. A thread is at a place between two
operations on the mutex, the condition variable or `m_loop`; the starting thread may
also wake by itself. The loop of the thread `j` is called `j`.
-/

namespace Yedis
open Function Runs

namespace EventLoopThreadPool

inductive Party
  | starter
  | thread
  deriving DecidableEq

/-- The places of the new thread in `ThreadFunc`, before it runs `loop.loop()`. -/
inductive ThreadPlace
  | absent
  | constructing
  | locking
  | storing
  | notifying
  | unlocking
  | looping
  deriving DecidableEq

/-- The places of `Start`: at the head of its loop, then those in `StartLoop`. It is `blocking` when
it has found `m_loop` null, and `leaving` when it has not. -/
inductive StartPlace
  | making
  | locking
  | testing
  | blocking
  | asleep
  | woken
  | leaving
  | returning
  | started
  deriving DecidableEq

@[ext] structure EventLoopThread where
  m_loop : Option ℕ := none
  m_Mutex_ : Option Party := none
  place : ThreadPlace := .absent

structure Starting where
  m_nThreadNumbers : ℤ
  /-- what `StartLoop` has returned, which may be null -/
  m_vecLoops : List (Option ℕ) := []
  threads : ℕ → EventLoopThread := fun _ => {}
  place : StartPlace := .making

namespace Starting

/-- The counter of the loop in `Start`. -/
def i (s : Starting) : ℕ := s.m_vecLoops.length

def current (s : Starting) : EventLoopThread := s.threads s.i

def setThread (s : Starting) (j : ℕ) (t : EventLoopThread) : Starting :=
  { s with threads := update s.threads j t }

/-- `m_Cond.notify_all()` of the thread `j`, for which only `StartLoop` waits. -/
def notifyAll (s : Starting) (j : ℕ) : Starting :=
  { s with place := if j = s.i ∧ s.place = .asleep then .woken else s.place }

end Starting

inductive StartEvent
  | moves
  | wakesUp
  deriving DecidableEq

/-- The steps of the new thread that are not its notification. -/
inductive ThreadStep (j : ℕ) (t : EventLoopThread) : EventLoopThread → Prop
  | constructed (h : t.place = .constructing) : ThreadStep j t { t with place := .locking }
  | locks (h : t.place = .locking) (hfree : t.m_Mutex_ = none) :
      ThreadStep j t { t with m_Mutex_ := some .thread, place := .storing }
  | stores (h : t.place = .storing) :
      ThreadStep j t { t with m_loop := some j, place := .notifying }
  | unlocks (h : t.place = .unlocking) :
      ThreadStep j t { t with m_Mutex_ := none, place := .looping }

/-- The steps of `StartLoop` on the object it is called for. -/
inductive StartLoopStep (t : EventLoopThread) : StartPlace → EventLoopThread → StartPlace → Prop
  | locks (hfree : t.m_Mutex_ = none) :
      StartLoopStep t .locking { t with m_Mutex_ := some .starter } .testing
  | null (hnull : t.m_loop = none) : StartLoopStep t .testing t .blocking
  | notNull (hloop : t.m_loop ≠ none) : StartLoopStep t .testing t .leaving
  | waits : StartLoopStep t .blocking { t with m_Mutex_ := none } .asleep
  | locksAgain (hfree : t.m_Mutex_ = none) :
      StartLoopStep t .woken { t with m_Mutex_ := some .starter } .testing
  | unlocks : StartLoopStep t .leaving { t with m_Mutex_ := none } .returning

inductive StartStep (s : Starting) : StartEvent → Starting → Prop
  | makes (h : s.place = .making) (hi : (s.i : ℤ) < s.m_nThreadNumbers) :
      StartStep s .moves
        { s.setThread s.i { place := .constructing } with place := .locking }
  | ends (h : s.place = .making) (hi : ¬ (s.i : ℤ) < s.m_nThreadNumbers) :
      StartStep s .moves { s with place := .started }
  | startLoop {t : EventLoopThread} {p : StartPlace} (h : StartLoopStep s.current s.place t p) :
      StartStep s .moves { s.setThread s.i t with place := p }
  | wakesUp (h : s.place = .asleep) : StartStep s .wakesUp { s with place := .woken }
  | pushes (h : s.place = .returning) :
      StartStep s .moves
        { s with m_vecLoops := s.m_vecLoops ++ [s.current.m_loop], place := .making }
  | thread (j : ℕ) {t : EventLoopThread} (h : ThreadStep j (s.threads j) t) :
      StartStep s .moves (s.setThread j t)
  | notifies (j : ℕ) (h : (s.threads j).place = .notifying) :
      StartStep s .moves
        ((s.notifyAll j).setThread j { s.threads j with place := .unlocking })

def ThreadPlace.Holds : ThreadPlace → Prop
  | storing | notifying | unlocking => True
  | _ => False

/-- What `m_loop` is while the thread `j` is there. -/
def ThreadPlace.loop (j : ℕ) : ThreadPlace → Option ℕ
  | notifying | unlocking | looping => some j
  | _ => none

def StartPlace.Holds : StartPlace → Prop
  | testing | blocking | leaving => True
  | _ => False

/-- The starting thread is in `StartLoop`. -/
def StartPlace.InCall : StartPlace → Prop
  | making | started => False
  | _ => True

instance : DecidablePred StartPlace.InCall
  | .making | .started => isFalse id
  | .locking | .testing | .blocking | .asleep | .woken | .leaving | .returning => isTrue trivial

/-- The starting thread at `p` in `StartLoop` and the thread `j` it waits for. -/
structure Handshake (j : ℕ) (p : StartPlace) (t : EventLoopThread) : Prop where
  present : t.place ≠ .absent
  starter : t.m_Mutex_ = some .starter ↔ p.Holds
  thread : t.m_Mutex_ = some .thread ↔ t.place.Holds
  loop : t.m_loop = t.place.loop j
  blocking : p = .blocking → t.m_loop = none
  asleep : p = .asleep → t.m_loop = none ∨ t.place = .notifying
  returns : p = .leaving ∨ p = .returning → t.place = .looping

section Handshake
variable {j : ℕ} {p p' : StartPlace} {t t' : EventLoopThread}

/-- Only one of the two is in its part of the code that the mutex protects. -/
theorem Handshake.not_both (h : Handshake j p t) (hp : p.Holds) : ¬ t.place.Holds := by
  intro ht
  have hstarter := h.starter.mpr hp
  rw [h.thread.mpr ht] at hstarter
  cases hstarter

theorem Handshake.free (h : Handshake j p t) (hp : ¬ p.Holds) (ht : ¬ t.place.Holds) :
    t.m_Mutex_ = none := by
  cases hm : t.m_Mutex_ with
  | none => rfl
  | some party =>
      cases party with
      | starter => exact absurd (h.starter.mp hm) hp
      | thread => exact absurd (h.thread.mp hm) ht

theorem Handshake.start : Handshake j .locking { place := .constructing } where
  present := by simp
  starter := by simp [StartPlace.Holds]
  thread := by simp [ThreadPlace.Holds]
  loop := rfl
  blocking := nofun
  asleep := nofun
  returns := by simp

theorem ThreadStep.handshake (hs : ThreadStep j t t') (h : Handshake j p t) :
    Handshake j p t' := by
  obtain ⟨hpresent, hstarter, hthread, hloop, hblocking, hasleep, hreturns⟩ := h
  cases hs with
  | constructed hp =>
      rw [hp] at hthread hloop hasleep hreturns
      exact ⟨by simp, hstarter, hthread, hloop, hblocking,
        fun ha => (hasleep ha).imp id nofun, fun hr => absurd (hreturns hr) nofun⟩
  | locks hp hfree =>
      rw [hp] at hthread hloop hasleep hreturns
      rw [hfree] at hstarter
      refine ⟨by simp, ?_, by simp [ThreadPlace.Holds], hloop, hblocking,
        fun ha => (hasleep ha).imp id nofun, fun hr => absurd (hreturns hr) nofun⟩
      exact iff_of_false nofun fun hholds => absurd (hstarter.mpr hholds) nofun
  | stores hp =>
      rw [hp] at hthread hreturns
      have hmutex := hthread.mpr trivial
      refine ⟨by simp, hstarter, by simp [hmutex, ThreadPlace.Holds], rfl, ?_,
        fun _ => Or.inr rfl, fun hr => absurd (hreturns hr) nofun⟩
      intro hb
      have hholds := hstarter.mpr (by rw [hb]; trivial)
      rw [hmutex] at hholds
      cases hholds
  | unlocks hp =>
      rw [hp] at hthread hloop hasleep hreturns
      have hmutex := hthread.mpr trivial
      rw [hmutex] at hstarter
      refine ⟨by simp, ?_, by simp [ThreadPlace.Holds], hloop, hblocking,
        fun ha => (hasleep ha).imp id nofun, fun _ => rfl⟩
      exact iff_of_false nofun fun hholds => absurd (hstarter.mpr hholds) nofun

/-- The notification wakes the starting thread if it is asleep. -/
theorem Handshake.notified (h : Handshake j p t) (hp : t.place = .notifying) :
    Handshake j (if p = .asleep then .woken else p) { t with place := .unlocking } := by
  obtain ⟨hpresent, hstarter, hthread, hloop, hblocking, hasleep, hreturns⟩ := h
  rw [hp] at hthread hloop hreturns
  split_ifs with hp'
  · subst hp'
    exact ⟨by simp, hstarter, hthread, hloop, nofun, nofun, by simp⟩
  · exact ⟨by simp, hstarter, hthread, hloop, hblocking, fun ha => absurd ha hp',
      fun hr => absurd (hreturns hr) nofun⟩

theorem Handshake.wakesUp (h : Handshake j .asleep t) : Handshake j .woken t where
  present := h.present
  starter := h.starter
  thread := h.thread
  loop := h.loop
  blocking := nofun
  asleep := nofun
  returns := by simp

theorem StartLoopStep.handshake (hs : StartLoopStep t p t' p') (h : Handshake j p t) :
    Handshake j p' t' := by
  have hboth := h.not_both
  obtain ⟨hpresent, hstarter, hthread, hloop, hblocking, hasleep, hreturns⟩ := h
  cases hs with
  | locks hfree =>
      rw [hfree] at hthread
      exact ⟨hpresent, by simp [StartPlace.Holds], by simpa using hthread, hloop, nofun, nofun,
        by simp⟩
  | null hnull => exact ⟨hpresent, hstarter, hthread, hloop, fun _ => hnull, nofun, by simp⟩
  | notNull hne =>
      refine ⟨hpresent, hstarter, hthread, hloop, nofun, nofun, fun _ => ?_⟩
      have hout := hboth trivial
      rw [hloop] at hne
      cases hplace : t.place with
      | looping => rfl
      | notifying | unlocking =>
          rw [hplace] at hout
          exact absurd trivial hout
      | _ =>
          rw [hplace] at hne
          exact absurd rfl hne
  | waits =>
      have hmutex := hstarter.mpr trivial
      rw [hmutex] at hthread
      exact ⟨hpresent, by simp [StartPlace.Holds], by simpa using hthread, hloop, nofun,
        fun _ => Or.inl (hblocking rfl), by simp⟩
  | locksAgain hfree =>
      rw [hfree] at hthread
      exact ⟨hpresent, by simp [StartPlace.Holds], by simpa using hthread, hloop, nofun, nofun,
        by simp⟩
  | unlocks =>
      have hmutex := hstarter.mpr trivial
      rw [hmutex] at hthread
      exact ⟨hpresent, by simp [StartPlace.Holds], by simpa using hthread, hloop, nofun, nofun,
        fun _ => hreturns (Or.inl rfl)⟩

theorem StartLoopStep.inCall (hs : StartLoopStep t p t' p') : p.InCall ∧ p'.InCall := by
  cases hs <;> exact ⟨trivial, trivial⟩

end Handshake

/-- The threads started before run their loops, and those to come are not there yet. -/
structure Orderly (s : Starting) : Prop where
  loops : s.m_vecLoops = (List.range s.i).map some
  before : ∀ j < s.i, s.threads j = ⟨some j, none, .looping⟩
  after : ∀ j, s.i < j → s.threads j = {}
  outside : ¬ s.place.InCall → s.current = {}
  inside : s.place.InCall → Handshake s.i s.place s.current
  counted : s.place.InCall → (s.i : ℤ) < s.m_nThreadNumbers
  bounded : s.i ≤ s.m_nThreadNumbers.toNat
  ended : s.place = .started → s.i = s.m_nThreadNumbers.toNat

section Steps
variable {s s' : Starting} {e : StartEvent} {j : ℕ} {t t' : EventLoopThread} {p : StartPlace}

theorem setThread_of_ne {k : ℕ} (h : k ≠ j) : (s.setThread j t).threads k = s.threads k :=
  update_of_ne h _ _

theorem orderly_start (m_nThreadNumbers : ℤ) :
    Orderly { m_nThreadNumbers := m_nThreadNumbers } where
  loops := rfl
  before _ hj := absurd hj (Nat.not_lt_zero _)
  after _ _ := rfl
  outside _ := rfl
  inside h := h.elim
  counted h := h.elim
  bounded := Nat.zero_le _
  ended := nofun

/-- Both sides of the handshake go on, the others stay as they are. -/
theorem Orderly.handshake (h : Orderly s) (hin : s.place.InCall) (hp : p.InCall)
    (hs : Handshake s.i p t) : Orderly { s.setThread s.i t with place := p } where
  loops := h.loops
  before j hj := (setThread_of_ne (Nat.ne_of_lt hj)).trans (h.before j hj)
  after j hj := (setThread_of_ne (Nat.ne_of_gt hj)).trans (h.after j hj)
  outside hout := absurd hp hout
  inside _ := by
    change Handshake s.i p (update s.threads s.i t s.i)
    rw [update_self]
    exact hs
  counted _ := h.counted hin
  bounded := h.bounded
  ended hended := by
    change p = .started at hended
    rw [hended] at hp
    exact hp.elim

theorem Orderly.looping (h : Orderly s) (hj : (s.threads j).place ≠ .absent)
    (hl : (s.threads j).place ≠ .looping) : j = s.i ∧ s.place.InCall := by
  rcases Nat.lt_trichotomy j s.i with hlt | rfl | hgt
  · rw [h.before j hlt] at hl
    exact absurd rfl hl
  · refine ⟨rfl, ?_⟩
    by_contra hout
    exact hj (congrArg EventLoopThread.place (h.outside hout))
  · rw [h.after j hgt] at hj
    exact absurd rfl hj

theorem ThreadStep.place (h : ThreadStep j t t') : t.place ≠ .absent ∧ t.place ≠ .looping := by
  cases h with
  | constructed hp | locks hp _ | stores hp | unlocks hp => simp [hp]

theorem StartStep.orderly (hs : StartStep s e s') (h : Orderly s) : Orderly s' := by
  cases hs with
  | makes hp hi =>
      have hout : ¬ s.place.InCall := by
        rw [hp]
        exact id
      refine ⟨h.loops, ?_, ?_, fun hout => absurd trivial hout, fun _ => ?_, fun _ => hi,
        h.bounded, nofun⟩
      · exact fun j hj => (setThread_of_ne (Nat.ne_of_lt hj)).trans (h.before j hj)
      · exact fun j hj => (setThread_of_ne (Nat.ne_of_gt hj)).trans (h.after j hj)
      · change Handshake s.i .locking (update s.threads s.i _ s.i)
        rw [update_self]
        exact .start
  | ends hp hi =>
      have hout : ¬ s.place.InCall := by
        rw [hp]
        exact id
      refine ⟨h.loops, h.before, h.after, fun _ => h.outside hout, fun hin => hin.elim,
        fun hin => hin.elim, h.bounded, fun _ => ?_⟩
      have hbound := h.bounded
      change s.i = s.m_nThreadNumbers.toNat
      omega
  | startLoop hs =>
      obtain ⟨hin, hp⟩ := hs.inCall
      exact h.handshake hin hp (hs.handshake (h.inside hin))
  | wakesUp hp =>
      have hin : s.place.InCall := by
        rw [hp]
        trivial
      have hwakes := h.inside hin
      rw [hp] at hwakes
      exact ⟨h.loops, h.before, h.after, fun hout => absurd trivial hout, fun _ => hwakes.wakesUp,
        fun _ => h.counted hin, h.bounded, nofun⟩
  | pushes hp =>
      have hin : s.place.InCall := by
        rw [hp]
        trivial
      have hdone := h.inside hin
      rw [hp] at hdone
      have hcurrent : s.threads s.i = ⟨some s.i, none, .looping⟩ := by
        have hplace := hdone.returns (Or.inr rfl)
        have hloop := hdone.loop
        have hfree := hdone.free id (by simp [hplace, ThreadPlace.Holds])
        rw [hplace] at hloop
        exact EventLoopThread.ext hloop hfree hplace
      have hi : ({ s with
          m_vecLoops := s.m_vecLoops ++ [s.current.m_loop], place := .making } : Starting).i =
          s.i + 1 := List.length_append
      have hcounted := h.counted hin
      refine ⟨?_, ?_, ?_, fun _ => ?_, fun hin => hin.elim, fun hin => hin.elim, ?_, nofun⟩
      · rw [hi, List.range_succ, List.map_append, ← h.loops]
        change s.m_vecLoops ++ [(s.threads s.i).m_loop] = _
        rw [hcurrent]
        rfl
      · intro j hj
        rw [hi] at hj
        rcases Nat.lt_succ_iff_lt_or_eq.mp hj with hj | rfl
        · exact h.before j hj
        · exact hcurrent
      · intro j hj
        rw [hi] at hj
        exact h.after j (Nat.lt_of_succ_lt hj)
      · rw [Starting.current, hi]
        exact h.after _ (Nat.lt_succ_self _)
      · rw [hi]
        change s.i + 1 ≤ s.m_nThreadNumbers.toNat
        omega
  | thread j hs =>
      obtain ⟨rfl, hin⟩ := h.looping hs.place.1 hs.place.2
      exact h.handshake hin hin (hs.handshake (h.inside hin))
  | notifies j hp =>
      obtain ⟨rfl, hin⟩ := h.looping (j := j) (by simp [hp]) (by simp [hp])
      have hnotified := (h.inside hin).notified hp
      have hwoken : (if s.place = .asleep then StartPlace.woken else s.place).InCall := by
        split_ifs
        · trivial
        · exact hin
      have hresult := h.handshake hin hwoken hnotified
      simp only [Starting.notifyAll, true_and]
      exact hresult

/-- The thread that the starting thread waits for can go on unless it runs its loop or waits for the
mutex. -/
theorem Handshake.thread_moves (h : Handshake j p t) (hl : t.place ≠ .looping)
    (hfree : t.place = .locking → t.m_Mutex_ = none) :
    (∃ t', ThreadStep j t t') ∨ t.place = .notifying := by
  cases hplace : t.place with
  | absent => exact absurd hplace h.present
  | constructing => exact Or.inl ⟨_, .constructed hplace⟩
  | locking => exact Or.inl ⟨_, .locks hplace (hfree hplace)⟩
  | storing => exact Or.inl ⟨_, .stores hplace⟩
  | notifying => exact Or.inr rfl
  | unlocking => exact Or.inl ⟨_, .unlocks hplace⟩
  | looping => exact absurd hplace hl

theorem moves_of_thread (h : (∃ t, ThreadStep j (s.threads j) t) ∨ (s.threads j).place = .notifying) :
    ∃ s', StartStep s .moves s' := by
  rcases h with ⟨t, ht⟩ | hnotifying
  · exact ⟨_, .thread j ht⟩
  · exact ⟨_, .notifies j hnotifying⟩

/-- Who waits for the mutex waits for the other thread, which can go on. -/
theorem Handshake.takes_turn (h : Handshake s.i s.place s.current) (hp : ¬ s.place.Holds)
    (hlock : s.current.m_Mutex_ = none → ∃ s', StartStep s .moves s') :
    ∃ s', StartStep s .moves s' := by
  by_cases ht : s.current.place.Holds
  · apply moves_of_thread (j := s.i)
    refine h.thread_moves (fun hl => ?_) (fun hl => ?_)
    · rw [hl] at ht
      exact ht
    · rw [hl] at ht
      exact ht.elim
  · exact hlock (h.free hp ht)

/-- Until all loops are started, someone can go on. -/
theorem Orderly.progress (h : Orderly s) (hp : s.place ≠ .started) :
    ∃ s', StartStep s .moves s' := by
  by_cases hin : s.place.InCall
  · have hs := h.inside hin
    cases hplace : s.place with
    | making | started =>
        rw [hplace] at hin
        exact hin.elim
    | locking =>
        refine hs.takes_turn (by simp [hplace, StartPlace.Holds]) fun hfree => ?_
        exact ⟨_, .startLoop (hplace ▸ StartLoopStep.locks hfree)⟩
    | woken =>
        refine hs.takes_turn (by simp [hplace, StartPlace.Holds]) fun hfree => ?_
        exact ⟨_, .startLoop (hplace ▸ StartLoopStep.locksAgain hfree)⟩
    | testing =>
        by_cases hnull : s.current.m_loop = none
        · exact ⟨_, .startLoop (hplace ▸ StartLoopStep.null hnull)⟩
        · exact ⟨_, .startLoop (hplace ▸ StartLoopStep.notNull hnull)⟩
    | blocking => exact ⟨_, .startLoop (hplace ▸ StartLoopStep.waits)⟩
    | leaving => exact ⟨_, .startLoop (hplace ▸ StartLoopStep.unlocks)⟩
    | returning => exact ⟨_, .pushes hplace⟩
    | asleep =>
        apply moves_of_thread (j := s.i)
        refine hs.thread_moves (fun hl => ?_) fun hl => ?_
        · rcases hs.asleep hplace with hnone | hnotifying
          · rw [hs.loop, hl] at hnone
            cases hnone
          · rw [hl] at hnotifying
            cases hnotifying
        · refine hs.free (by simp [hplace, StartPlace.Holds]) ?_
          rw [hl]
          exact id
  · cases hplace : s.place with
    | making =>
        by_cases hi : (s.i : ℤ) < s.m_nThreadNumbers
        · exact ⟨_, .makes hplace hi⟩
        · exact ⟨_, .ends hplace hi⟩
    | started => exact absurd hplace hp
    | _ =>
        rw [hplace] at hin
        exact absurd trivial hin

end Steps

/-- How many steps the new thread has before it runs its loop. -/
def ThreadPlace.left : ThreadPlace → ℕ
  | absent => 0
  | constructing => 5
  | locking => 4
  | storing => 3
  | notifying => 2
  | unlocking => 1
  | looping => 0

/-- How many steps the starting thread has until the next thread, at most; fewer if `m_loop` is
stored. -/
def StartPlace.left (m_loop : Option ℕ) : StartPlace → ℕ
  | making => 1
  | returning => 2
  | leaving => 3
  | testing => if m_loop = none then 7 else 4
  | blocking => 6
  | asleep => 5
  | locking | woken => if m_loop = none then 8 else 5
  | started => 0

/-- A bound on the steps to come. -/
def Starting.left (s : Starting) : ℕ :=
  if s.place.InCall then
    14 * (s.m_nThreadNumbers.toNat - s.i - 1) + s.place.left s.current.m_loop + s.current.place.left
  else 14 * (s.m_nThreadNumbers.toNat - s.i) + s.place.left none

section Bounds
variable {s s' : Starting} {e : StartEvent} {j : ℕ} {t t' : EventLoopThread} {p p' : StartPlace}

theorem left_of_inCall (h : s.place.InCall) : s.left =
    14 * (s.m_nThreadNumbers.toNat - s.i - 1) + s.place.left s.current.m_loop +
      s.current.place.left := if_pos h

theorem left_setThread (h : p.InCall) : Starting.left { s.setThread s.i t with place := p } =
    14 * (s.m_nThreadNumbers.toNat - s.i - 1) + p.left t.m_loop + t.place.left := by
  rw [left_of_inCall h]
  have hcurrent : ({ s.setThread s.i t with place := p } : Starting).current = t :=
    update_self _ _ _
  rw [hcurrent]
  rfl

/-- What is stored leaves the starting thread no more steps. -/
theorem left_some_le (l : ℕ) (m_loop : Option ℕ) (p : StartPlace) :
    p.left (some l) ≤ p.left m_loop := by
  cases p with
  | testing | locking | woken =>
      simp only [StartPlace.left, reduceCtorEq, if_false]
      split_ifs <;> omega
  | _ => exact le_rfl

theorem ThreadStep.left (h : ThreadStep j t t') (p : StartPlace) :
    p.left t'.m_loop + t'.place.left + 1 ≤ p.left t.m_loop + t.place.left := by
  cases h with
  | constructed hp => simp [hp, ThreadPlace.left]
  | locks hp hfree => simp [hp, ThreadPlace.left]
  | stores hp =>
      have hle := left_some_le j t.m_loop p
      simp only [hp, ThreadPlace.left]
      omega
  | unlocks hp => simp [hp, ThreadPlace.left]

theorem StartLoopStep.left (h : StartLoopStep t p t' p') :
    p'.left t'.m_loop + t'.place.left + 1 ≤ p.left t.m_loop + t.place.left := by
  cases h with
  | locks hfree =>
      simp only [StartPlace.left]
      split_ifs <;> omega
  | null hnull => simp only [StartPlace.left, if_pos hnull]; omega
  | notNull hloop => simp only [StartPlace.left, if_neg hloop]; omega
  | waits => simp only [StartPlace.left]; omega
  | locksAgain hfree =>
      simp only [StartPlace.left]
      split_ifs <;> omega
  | unlocks => simp only [StartPlace.left]; omega

theorem notified_left (h : Handshake j p t) (hp : t.place = .notifying) :
    (if p = .asleep then StartPlace.woken else p).left t.m_loop ≤ p.left t.m_loop := by
  split_ifs with hp'
  · rw [hp', h.loop, hp]
    rfl
  · exact le_rfl

/-- Every step but waking by itself brings the end nearer. -/
theorem StartStep.left (hs : StartStep s e s') (h : Orderly s) :
    s'.left + (if e = .moves then 1 else 0) ≤ s.left + (if e = .wakesUp then 3 else 0) := by
  cases hs with
  | makes hp hi =>
      have hin : ¬ s.place.InCall := by
        rw [hp]
        exact id
      rw [left_setThread (p := .locking) trivial, Starting.left, if_neg hin, hp]
      simp only [StartPlace.left, ThreadPlace.left, if_true]
      omega
  | ends hp hi =>
      have hin : ¬ s.place.InCall := by
        rw [hp]
        exact id
      rw [Starting.left, Starting.left, if_neg hin, if_neg (by exact id), hp]
      simp only [StartPlace.left]
      change 14 * (s.m_nThreadNumbers.toNat - s.i) + 0 + 1 ≤ _
      simp
  | startLoop hs =>
      obtain ⟨hin, hp⟩ := hs.inCall
      have hstep := hs.left
      rw [left_setThread hp, left_of_inCall hin]
      simp only [if_true, reduceCtorEq, if_false]
      omega
  | wakesUp hp =>
      have hin : s.place.InCall := by
        rw [hp]
        trivial
      rw [left_of_inCall hin, left_of_inCall (by trivial), hp]
      simp only [StartPlace.left, reduceCtorEq, if_false, if_true]
      change 14 * (s.m_nThreadNumbers.toNat - s.i - 1) + (if s.current.m_loop = none then 8 else 5) +
        s.current.place.left + 0 ≤ _
      split_ifs <;> omega
  | pushes hp =>
      have hin : s.place.InCall := by
        rw [hp]
        trivial
      have hcounted := h.counted hin
      have hplace := (h.inside hin).returns (Or.inr hp)
      rw [left_of_inCall hin, Starting.left, if_neg (by exact id), hp, hplace]
      have hi : ({ s with
          m_vecLoops := s.m_vecLoops ++ [s.current.m_loop], place := .making } : Starting).i =
          s.i + 1 := List.length_append
      rw [hi]
      simp only [StartPlace.left, ThreadPlace.left, if_true]
      omega
  | @thread j t hs =>
      obtain ⟨rfl, hin⟩ := h.looping hs.place.1 hs.place.2
      have hstep := hs.left s.place
      have hleft : (s.setThread s.i t).left = _ := left_setThread (p := s.place) hin
      rw [hleft, left_of_inCall hin]
      simp only [if_true, reduceCtorEq, if_false]
      change _ ≤ 14 * (s.m_nThreadNumbers.toNat - s.i - 1) +
        s.place.left (s.threads s.i).m_loop + (s.threads s.i).place.left + 0
      omega
  | notifies j hp =>
      obtain ⟨rfl, hin⟩ := h.looping (j := j) (by simp [hp]) (by simp [hp])
      have hwoken : (if s.place = .asleep then StartPlace.woken else s.place).InCall := by
        split_ifs
        · trivial
        · exact hin
      have hle := notified_left (h.inside hin) hp
      have hleft := left_setThread (s := s)
        (t := { s.threads s.i with place := .unlocking }) hwoken
      simp only [Starting.notifyAll, true_and]
      change Starting.left { s.setThread s.i { s.threads s.i with place := .unlocking } with
        place := if s.place = .asleep then .woken else s.place } + _ ≤ _
      rw [hleft, left_of_inCall hin]
      change _ ≤ 14 * (s.m_nThreadNumbers.toNat - s.i - 1) +
        s.place.left s.current.m_loop + (s.threads s.i).place.left + _
      rw [hp]
      change _ + (if s.place = .asleep then StartPlace.woken else s.place).left s.current.m_loop +
        1 + 1 ≤ _ + 2 + 0
      omega

end Bounds

/-- How many steps of a run are of one kind. -/
def count (e : StartEvent) (trace : List (Transition Starting StartEvent)) : ℕ :=
  (labels trace).count e

/-- In every run of `Start`, however the threads take turns: the loops collected so far are those of
the threads started, in order and none of them null, and their threads run them; unless all are
started someone can go on; and the steps are bounded but for the starting thread waking by itself.
When it is done, there are as many loops as threads were asked for. -/
theorem start_collects_all_loops {m_nThreadNumbers : ℤ} {s : Starting}
    {trace : List (Transition Starting StartEvent)}
    (run : Run StartStep { m_nThreadNumbers := m_nThreadNumbers } trace s) :
    s.m_vecLoops = (List.range s.m_vecLoops.length).map some ∧
    (∀ j < s.m_vecLoops.length, s.threads j = ⟨some j, none, .looping⟩) ∧
    (s.place = .started → s.m_vecLoops.length = m_nThreadNumbers.toNat) ∧
    (s.place ≠ .started → ∃ s', StartStep s .moves s') ∧
    count .moves trace ≤ 14 * m_nThreadNumbers.toNat + 1 + 3 * count .wakesUp trace := by
  have hall : (Orderly s ∧ s.m_nThreadNumbers = m_nThreadNumbers) ∧
      s.left + (labels trace).count .moves ≤
        14 * m_nThreadNumbers.toNat + 1 + 3 * (labels trace).count .wakesUp := by
    apply run.invariant_labels (P := fun ls s => (Orderly s ∧ s.m_nThreadNumbers = m_nThreadNumbers) ∧
      s.left + ls.count .moves ≤ 14 * m_nThreadNumbers.toNat + 1 + 3 * ls.count .wakesUp)
    · refine ⟨⟨orderly_start _, rfl⟩, ?_⟩
      rw [Starting.left, if_neg (by exact id)]
      exact le_rfl
    · rintro ls s e s' ⟨⟨hs, hn⟩, hle⟩ h
      have hstep := h.left hs
      refine ⟨⟨h.orderly hs, ?_⟩, ?_⟩
      · rw [← hn]
        cases h <;> rfl
      · cases e with
        | moves =>
            rw [List.count_cons_self, List.count_cons_of_ne (by decide)]
            simp only [if_true, reduceCtorEq, if_false] at hstep
            omega
        | wakesUp =>
            rw [List.count_cons_self, List.count_cons_of_ne (by decide)]
            simp only [if_true, reduceCtorEq, if_false] at hstep
            omega
  obtain ⟨⟨hs, hn⟩, hle⟩ := hall
  refine ⟨hs.loops, hs.before, fun hstarted => ?_, hs.progress, ?_⟩
  · rw [← hn]
    exact hs.ended hstarted
  · exact le_trans (Nat.le_add_left _ _) hle

/-- The starting thread falls asleep before the new thread has the mutex, which can go on. -/
theorem start_collects_all_loops_asleep :
    ∃ (trace : List (Transition Starting StartEvent)) (s : Starting),
      Run StartStep { m_nThreadNumbers := 1 } trace s ∧ s.place = .asleep ∧
        ∃ s', StartStep s .moves s' := by
  have r1 : Run StartStep { m_nThreadNumbers := 1 } _ _ := .next .start (.makes rfl Int.one_pos)
  have r2 := r1.next (.startLoop (.locks rfl))
  have r3 := r2.next (.startLoop (.null rfl))
  have r4 := r3.next (.startLoop .waits)
  exact ⟨_, _, r4, rfl, (start_collects_all_loops r4).2.2.2.1 nofun⟩

end EventLoopThreadPool

end Yedis
