import Mathlib.Data.List.Perm.Subperm
import Yedis.Bookkeeping

/-!
# Room for events

`EPollPoller::poll` has room for as many events as `m_vecEvents` holds, and doubles it
after a poll that has filled it. What is ready and finds no room is left for a later poll.
That happens only until the room has grown to what is ready at a time.
-/

namespace Yedis
open Function Runs EPollPoller

variable {Chan : Type} [DecidableEq Chan] {fd : Chan → ℤ}

structure EventPoll (Chan : Type) where
  poller : EPollPoller Chan := {}
  /-- `m_vecEvents.size()` -/
  vecEvents : ℕ := 16

/-- The answer of `epoll_wait` when it could report `ready`: as much of it as there is room for. -/
structure EpollWait (fd : Chan → ℤ) (poller : EPollPoller Chan) (maxevents : ℕ)
    (ready events : List (EpollEvent Chan)) : Prop where
  reportable : ∀ report ∈ ready, Reportable fd poller report
  distinct : (ready.map EpollEvent.ptr).Nodup
  taken : events.Subperm ready
  length : events.length = min maxevents ready.length

/-- `EPollPoller::poll` with what `epoll_wait` has put into `m_vecEvents`. -/
def EventPoll.poll (fd : Chan → ℤ) (events : List (EpollEvent Chan)) (s : EventPoll Chan) :
    List Chan × EventPoll Chan :=
  let numEvents := events.length
  if 0 < numEvents then
    let (activeChannels, poller) := fillActiveChannels fd events s.poller
    let vecEvents := if numEvents = s.vecEvents then s.vecEvents * 2 else s.vecEvents
    (activeChannels, ⟨poller, vecEvents⟩)
  else ([], s)

/-- The label of a poll has what was ready, what was reported and what has become active. -/
inductive PollEvent (Chan : Type)
  | call (c : Chan) (call : ChannelCall)
  | poll (ready events : List (EpollEvent Chan)) (activeChannels : List Chan)
  | interrupted

inductive PollStep (fd : Chan → ℤ) (s : EventPoll Chan) : PollEvent Chan → EventPoll Chan → Prop
  | call (c : Chan) (call : ChannelCall) :
      PollStep fd s (.call c call) { s with poller := call.run fd c s.poller }
  | poll (ready events : List (EpollEvent Chan))
      (h : EpollWait fd s.poller s.vecEvents ready events) :
      PollStep fd s (.poll ready events (s.poll fd events).1) (s.poll fd events).2
  | interrupted : PollStep fd s .interrupted s

/-- Something that is ready has not become active. -/
def PollEvent.leavesOut : PollEvent Chan → Bool
  | poll ready _ activeChannels => ready.any fun report => report.ptr ∉ activeChannels
  | _ => false

/-- No more than `N` descriptors are ready at a time, and no registered channel is forgotten. -/
def PollEvent.Within (N : ℕ) (s : EventPoll Chan) : PollEvent Chan → Prop
  | .call c request => ¬ Forgets s.poller (c, request)
  | .poll ready _ _ => ready.length ≤ N
  | .interrupted => True

/-- What is reported becomes active, and is among what is ready, each channel once. -/
def PollEvent.TakesReported : PollEvent Chan → Prop
  | .poll ready events activeChannels => activeChannels = events.map EpollEvent.ptr ∧
      activeChannels.Subperm (ready.map EpollEvent.ptr) ∧ activeChannels.Nodup
  | _ => True

structure Books (fd : Chan → ℤ) (s : EPollPoller Chan) : Prop where
  placed : ∀ c, s.Placed fd c
  registered : ∀ c, s.Registered fd c

theorem Books.call {s : EPollPoller Chan} (h : Books fd s) (hfd : Injective fd) {c : Chan}
    {call : ChannelCall} (hkept : ¬ Forgets s (c, call)) : Books fd (call.run fd c s) := by
  have hstep : PollerStep fd s (c, call) (call.run fd c s) := rfl
  refine ⟨hstep.placed hfd h.placed, ?_⟩
  cases call with
  | interest call => exact call.registered hfd h.placed h.registered c
  | remove =>
      exact (registered_remove_iff h.placed h.registered c).mpr fun hadded => hkept ⟨rfl, hadded⟩

/-- Every report makes its channel active. -/
theorem Books.fill {s : EPollPoller Chan} (h : Books fd s) {events : List (EpollEvent Chan)}
    (hevents : ∀ event ∈ events, Reportable fd s event) :
    (fillActiveChannels fd events s).1 = events.map EpollEvent.ptr ∧
      Books fd (fillActiveChannels fd events s).2 := by
  induction events generalizing s with
  | nil => exact ⟨rfl, h⟩
  | cons event events ih =>
      rw [List.forall_mem_cons] at hevents
      obtain ⟨⟨registered, htable, -⟩, hrest⟩ := hevents
      have hadded : (s.channels event.ptr).nIndex = .kAdded :=
        (h.registered event.ptr).mpr (by rw [htable]; rfl)
      have hmapped : s.mapChannels (fd event.ptr) = some event.ptr := by
        have hplaced := h.placed event.ptr
        rwa [Placed, hadded, if_neg (by decide)] at hplaced
      have hnext : Books fd (s.setEvents event.ptr event.events) :=
        ⟨placed_setEvents h.placed _ _, registered_setEvents h.registered _ _⟩
      obtain ⟨hactive, hbooks⟩ := ih hnext hrest
      rw [fillActiveChannels, if_neg (not_not.mpr hmapped)]
      exact ⟨by rw [List.map_cons, ← hactive], hbooks⟩

/-- What is so after the polls and calls of `history`. -/
structure Grown (fd : Chan → ℤ) (N : ℕ) (history : List (PollEvent Chan)) (s : EventPoll Chan) :
    Prop where
  books : Books fd s.poller
  room : 16 * 2 ^ history.countP PollEvent.leavesOut ≤ s.vecEvents
  bounded : s.vecEvents ≤ max 16 (2 * N)
  rare : history.countP PollEvent.leavesOut = 0 ∨
    8 * 2 ^ history.countP PollEvent.leavesOut < N
  active : ∀ e ∈ history, e.TakesReported

section Steps
variable {N : ℕ} {history : List (PollEvent Chan)} {s s' : EventPoll Chan} {e : PollEvent Chan}
  {ready events : List (EpollEvent Chan)}

/-- A step that is no poll, or a poll that takes all. -/
theorem Grown.next (h : Grown fd N history s) (hbooks : Books fd s'.poller)
    (hroom : s.vecEvents ≤ s'.vecEvents) (hbounded : s'.vecEvents ≤ max 16 (2 * N))
    (hfew : e.leavesOut = true → 2 * s.vecEvents ≤ s'.vecEvents ∧ s.vecEvents < N)
    (hactive : e.TakesReported) : Grown fd N (e :: history) s' := by
  have hold := h.room
  refine ⟨hbooks, ?_, hbounded, ?_, List.forall_mem_cons.mpr ⟨hactive, h.active⟩⟩
  · rw [List.countP_cons]
    split_ifs with he
    · have hmore := (hfew he).1
      rw [pow_succ]
      omega
    · rw [Nat.add_zero]
      exact hold.trans hroom
  · rw [List.countP_cons]
    split_ifs with he
    · have hlt := (hfew he).2
      rw [pow_succ]
      omega
    · exact h.rare

theorem poll_active (h : Books fd s.poller)
    (hwait : EpollWait fd s.poller s.vecEvents ready events) :
    (s.poll fd events).1 = events.map EpollEvent.ptr ∧ Books fd (s.poll fd events).2.poller := by
  have hfill := h.fill fun event hevent => hwait.reportable event (hwait.taken.subset hevent)
  unfold EventPoll.poll
  by_cases hsome : 0 < events.length
  · simpa only [if_pos hsome] using hfill
  · have hnone : events = [] := List.eq_nil_of_length_eq_zero (by omega)
    simp only [if_neg hsome]
    exact ⟨by rw [hnone, List.map_nil], h⟩

theorem poll_vecEvents (fd : Chan → ℤ) (events : List (EpollEvent Chan)) (hsize : 0 < s.vecEvents) :
    (s.poll fd events).2.vecEvents =
      if events.length = s.vecEvents then s.vecEvents * 2 else s.vecEvents := by
  unfold EventPoll.poll
  by_cases hsome : 0 < events.length
  · simp only [if_pos hsome]
  · simp only [if_neg hsome]
    rw [if_neg (by omega)]

theorem Grown.poll (h : Grown fd N history s)
    (hwait : EpollWait fd s.poller s.vecEvents ready events) (hN : ready.length ≤ N) :
    Grown fd N (.poll ready events (s.poll fd events).1 :: history) (s.poll fd events).2 := by
  obtain ⟨hactive, hbooks⟩ := poll_active h.books hwait
  have hroom := h.room
  have hbounded := h.bounded
  have hlength := hwait.length
  have hpos : 0 < s.vecEvents := by
    have hone := Nat.one_le_two_pow (n := history.countP PollEvent.leavesOut)
    omega
  have hsize := poll_vecEvents fd events hpos
  refine h.next hbooks ?_ ?_ ?_ ?_
  · rw [hsize]
    split_ifs <;> omega
  · rw [hsize]
    split_ifs <;> omega
  · intro hleft
    have hshort : events.length < ready.length := by
      by_contra hall
      have hperm := hwait.taken.perm_of_length_le (not_lt.mp hall)
      obtain ⟨report, hreport, hout⟩ := List.any_eq_true.mp hleft
      rw [hactive] at hout
      have hmem : report.ptr ∈ events.map EpollEvent.ptr :=
        List.mem_map_of_mem (hperm.mem_iff.mpr hreport)
      simp [hmem] at hout
    rw [hsize]
    split_ifs <;> omega
  · refine ⟨hactive, ?_⟩
    rw [hactive]
    obtain ⟨taken, hperm, hsub⟩ := hwait.taken
    have hdistinct := hwait.distinct.sublist (hsub.map EpollEvent.ptr)
    exact ⟨⟨taken.map EpollEvent.ptr, hperm.map _, hsub.map _⟩,
      (hperm.map EpollEvent.ptr).nodup hdistinct⟩

theorem Grown.step (h : Grown fd N history s) (hfd : Injective fd) (hwithin : e.Within N s)
    (hstep : PollStep fd s e s') : Grown fd N (e :: history) s' := by
  cases hstep with
  | call c request =>
      exact h.next (h.books.call hfd hwithin) le_rfl h.bounded (by simp [PollEvent.leavesOut])
        trivial
  | poll ready events hwait => exact h.poll hwait hwithin
  | interrupted =>
      exact h.next h.books le_rfl h.bounded (by simp [PollEvent.leavesOut]) trivial

end Steps

/-- Polls make all that is reported active, and so only what is ready, each channel once. The room
stays within twice what is ready at a time, and the polls that leave something out are few: eight
times two to their number is less than what is ready at a time. -/
theorem epoll_takes_all_ready (hfd : Injective fd) {N : ℕ} {s : EventPoll Chan}
    {trace : List (Transition (EventPoll Chan) (PollEvent Chan))}
    (run : Run (PollStep fd) {} trace s) (hall : ∀ t ∈ trace, t.label.Within N t.src) :
    (∀ e ∈ labels trace, e.TakesReported) ∧
      s.vecEvents ≤ max 16 (2 * N) ∧
        ((labels trace).countP PollEvent.leavesOut = 0 ∨
          8 * 2 ^ (labels trace).countP PollEvent.leavesOut < N) := by
  have hstart : Grown fd N [] ({} : EventPoll Chan) :=
    ⟨⟨fun c => rfl, fun c => by simp [Registered]⟩, le_rfl, le_max_left _ _, Or.inl rfl, by simp⟩
  have hend := run.invariant_labels_of_all hstart hall fun _ _ _ _ h hwithin hstep =>
    h.step hfd hwithin hstep
  exact ⟨hend.active, hend.bounded, hend.rare⟩

/-- A channel that wants reading, and a poll that reports it. -/
theorem epoll_takes_all_ready_one :
    ∃ (trace : List (Transition (EventPoll Unit) (PollEvent Unit))) (s : EventPoll Unit),
      Run (PollStep fun _ => 7) {} trace s ∧
        .poll [⟨XPOLLIN, ()⟩] [⟨XPOLLIN, ()⟩] [()] ∈ labels trace ∧
        s.vecEvents ≤ 16 ∧ (labels trace).countP PollEvent.leavesOut = 0 := by
  have added : Run (PollStep fun _ : Unit => 7) {} _ _ :=
    .next .start (.call () (.interest .enableReading))
  have run := added.next (.poll [⟨XPOLLIN, ()⟩] [⟨XPOLLIN, ()⟩]
    { reportable := by
        intro report hreport
        rw [List.mem_singleton.mp hreport]
        exact ⟨⟨Channel.kReadEvent, ()⟩, rfl, rfl, by decide, by decide⟩
      distinct := List.nodup_singleton _
      taken := List.Subperm.refl _
      length := rfl })
  have h := epoll_takes_all_ready (N := 1) (fun _ _ _ => rfl) run (by
    rw [List.forall_mem_cons, List.forall_mem_cons]
    refine ⟨le_rfl, ?_, by simp⟩
    rintro ⟨hremove, -⟩
    cases hremove)
  have hsmall : ∀ k, ¬ 8 * 2 ^ k < 1 := fun k => by
    have hone := Nat.one_le_two_pow (n := k)
    omega
  exact ⟨_, _, run, List.mem_cons_self, h.2.1, h.2.2.resolve_right (hsmall _)⟩

end Yedis
