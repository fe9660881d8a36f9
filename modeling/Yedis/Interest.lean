import Yedis.EpollPoller
import Yedis.Runs

/-!
# What a channel is interested in

Reported events are put where the interest of a channel is kept, and the next call
computes the new registration from them. The registration follows what was enabled
exactly as long as no report has disturbed the part of it that a call leaves alone.
-/

namespace Yedis
open Function Runs EPollPoller

variable {Chan : Type} [DecidableEq Chan] {fd : Chan → ℤ}

/-- The kinds of events enabled and not since disabled. -/
structure Wanted where
  reading : Bool := false
  writing : Bool := false
  deriving DecidableEq

def Wanted.mask (w : Wanted) : BitVec 32 :=
  (if w.reading then Channel.kReadEvent else 0) ||| (if w.writing then Channel.kWriteEvent else 0)

def InterestCall.wants (w : Wanted) : InterestCall → Wanted
  | enableReading => { w with reading := true }
  | disableReading => { w with reading := false }
  | enableWriting => { w with writing := true }
  | disableWriting => { w with writing := false }
  | disableAll => {}

/-- The bits that a call leaves alone. -/
def InterestCall.keeps : InterestCall → BitVec 32
  | enableReading => ~~~Channel.kReadEvent
  | disableReading => ~~~Channel.kReadEvent
  | enableWriting => ~~~Channel.kWriteEvent
  | disableWriting => ~~~Channel.kWriteEvent
  | disableAll => 0

theorem InterestCall.mask_wants (call : InterestCall) (w : Wanted) :
    (call.wants w).mask = call.events w.mask := by
  rcases w with ⟨reading, writing⟩
  cases reading <;> cases writing <;> cases call <;> rfl

theorem or_eq_or_iff (a b k : BitVec 32) : a ||| k = b ||| k ↔ a &&& ~~~k = b &&& ~~~k := by
  simp only [BitVec.eq_of_getLsbD_eq_iff, BitVec.getLsbD_or, BitVec.getLsbD_and, BitVec.getLsbD_not]
  refine forall_congr' fun i => forall_congr' fun hi => ?_
  cases a.getLsbD i <;> cases b.getLsbD i <;> cases k.getLsbD i <;> simp [hi]

/-- A call makes the same of two masks when they have the bits in common that it leaves alone. -/
theorem InterestCall.events_eq_iff (call : InterestCall) (a b : BitVec 32) :
    call.events a = call.events b ↔ a &&& call.keeps = b &&& call.keeps := by
  cases call with
  | enableReading => exact or_eq_or_iff a b _
  | disableReading => exact Iff.rfl
  | enableWriting => exact or_eq_or_iff a b _
  | disableWriting => exact Iff.rfl
  | disableAll => exact iff_of_true rfl (by simp [keeps])

/-- A poller, what its channels want, and what was reported last for each since its last call. -/
structure Watch (Chan : Type) where
  poller : EPollPoller Chan := {}
  wanted : Chan → Wanted := fun _ => {}
  lastReport : Chan → Option (BitVec 32) := fun _ => none

inductive WatchEvent (Chan : Type)
  | call (c : Chan) (call : InterestCall)
  | poll (reports : List (EpollEvent Chan))

def noteReports : List (EpollEvent Chan) → (Chan → Option (BitVec 32)) →
    Chan → Option (BitVec 32)
  | [], lastReport => lastReport
  | report :: reports, lastReport =>
    noteReports reports (update lastReport report.ptr (some report.events))

inductive WatchStep (fd : Chan → ℤ) (s : Watch Chan) : WatchEvent Chan → Watch Chan → Prop
  | call (c : Chan) (call : InterestCall) :
      WatchStep fd s (.call c call)
        { poller := (call.run fd c s.poller).2
          wanted := update s.wanted c (call.wants (s.wanted c))
          lastReport := update s.lastReport c none }
  | poll (reports : List (EpollEvent Chan))
      (h : ∀ report ∈ reports, Reportable fd s.poller report) :
      WatchStep fd s (.poll reports)
        { s with
          poller := (fillActiveChannels fd reports s.poller).2
          lastReport := noteReports reports s.lastReport }

/-- The channel is registered for what it wants, and not registered only if it wants nothing. -/
structure FollowsInterest (fd : Chan → ℤ) (s : Watch Chan) (c : Chan) : Prop where
  registered : ∀ event, s.poller.table (fd c) = some event → event.events = (s.wanted c).mask
  deregistered : s.poller.table (fd c) = none → (s.wanted c).mask = Channel.kNoneEvent

/-- What was last reported since the channel's last call shows what is wanted, on the bits that
this call leaves alone. -/
def Undisturbed (s : Watch Chan) : WatchEvent Chan → Prop
  | .call c call => ∀ r, s.lastReport c = some r →
      r &&& call.keeps = (s.wanted c).mask &&& call.keeps
  | .poll _ => True

omit [DecidableEq Chan] in
theorem followsInterest_iff {s : Watch Chan} {c : Chan} :
    FollowsInterest fd s c ↔ registeredEvents fd s.poller c = (s.wanted c).mask := by
  unfold registeredEvents
  constructor
  · intro h
    cases htable : s.poller.table (fd c) with
    | none => exact (h.deregistered htable).symm
    | some event => exact h.registered event htable
  · intro h
    refine ⟨fun event htable => ?_, fun htable => ?_⟩
    · rwa [htable] at h
    · rw [htable] at h
      exact h.symm

/-- What holds in every run: the books are right, and the events of a channel are what was last
reported for it, or what it is registered with. -/
structure Noted (fd : Chan → ℤ) (poller : EPollPoller Chan)
    (lastReport : Chan → Option (BitVec 32)) : Prop where
  placed : ∀ c, poller.Placed fd c
  registered : ∀ c, poller.Registered fd c
  reported : ∀ c r, lastReport c = some r → (poller.channels c).nEvents = r
  unreported : ∀ c, lastReport c = none →
    (poller.channels c).nEvents = registeredEvents fd poller c

namespace Noted
variable {poller : EPollPoller Chan} {lastReport : Chan → Option (BitVec 32)}

omit [DecidableEq Chan] in
theorem init : Noted fd ({} : EPollPoller Chan) fun _ => none where
  placed _ := rfl
  registered _ := by simp [Registered]
  reported _ _ h := by cases h
  unreported _ _ := rfl

theorem call (hfd : Injective fd) (h : Noted fd poller lastReport) (call : InterestCall)
    (c : Chan) : Noted fd (call.run fd c poller).2 (update lastReport c none) := by
  have hrun := call.run_eq h.placed h.registered c
  have hne : ∀ c', c' ≠ c → ((call.run fd c poller).2.channels c').nEvents =
      (poller.channels c').nEvents := by
    intro c' hc
    rw [hrun, updated_channels_of_ne hc, setEvents_of_ne _ _ hc]
  refine ⟨call.placed hfd h.placed c, call.registered hfd h.placed h.registered c, ?_, ?_⟩
  · intro c' r hlast
    by_cases hc : c' = c
    · rw [hc, update_self] at hlast
      cases hlast
    · rw [update_of_ne hc] at hlast
      rw [hne c' hc]
      exact h.reported c' r hlast
  · intro c' hlast
    by_cases hc : c' = c
    · rw [hc, hrun, updated_events, updated_nEvents]
    · rw [update_of_ne hc] at hlast
      rw [hne c' hc, h.unreported c' hlast, hrun, registeredEvents, registeredEvents,
        updated_table_of_ne hfd hc, setEvents_table]

omit [DecidableEq Chan] in
/-- A reported channel is in `mapChannels`, so that all the reports are filled in. -/
theorem mapped (h : Noted fd poller lastReport) {report : EpollEvent Chan}
    (hreport : Reportable fd poller report) :
    poller.mapChannels (fd report.ptr) = some report.ptr := by
  obtain ⟨event, htable, -⟩ := hreport
  have hadded : (poller.channels report.ptr).nIndex = .kAdded :=
    (h.registered report.ptr).mpr (by rw [htable]; rfl)
  have hplaced := h.placed report.ptr
  rwa [Placed, hadded, if_neg (by decide)] at hplaced

theorem setEvents (h : Noted fd poller lastReport) (c : Chan) (r : BitVec 32) :
    Noted fd (poller.setEvents c r) (update lastReport c (some r)) := by
  refine ⟨placed_setEvents h.placed c r, registered_setEvents h.registered c r, ?_, ?_⟩
  · intro c' r' hlast
    by_cases hc : c' = c
    · rw [hc, update_self, Option.some_inj] at hlast
      rw [hc, setEvents_self, hlast]
    · rw [update_of_ne hc] at hlast
      rw [setEvents_of_ne _ _ hc]
      exact h.reported c' r' hlast
  · intro c' hlast
    by_cases hc : c' = c
    · rw [hc, update_self] at hlast
      cases hlast
    · rw [update_of_ne hc] at hlast
      rw [setEvents_of_ne _ _ hc]
      exact h.unreported c' hlast

theorem fillActiveChannels_cons (h : Noted fd poller lastReport) {report : EpollEvent Chan}
    (hreport : Reportable fd poller report) (reports : List (EpollEvent Chan)) :
    (fillActiveChannels fd (report :: reports) poller).2 =
      (fillActiveChannels fd reports (poller.setEvents report.ptr report.events)).2 := by
  simp [fillActiveChannels, h.mapped hreport]

theorem poll (h : Noted fd poller lastReport) {reports : List (EpollEvent Chan)}
    (hreports : ∀ report ∈ reports, Reportable fd poller report) :
    Noted fd (fillActiveChannels fd reports poller).2 (noteReports reports lastReport) := by
  induction reports generalizing poller lastReport with
  | nil => exact h
  | cons report reports ih =>
      rw [List.forall_mem_cons] at hreports
      rw [h.fillActiveChannels_cons hreports.1]
      exact ih (h.setEvents report.ptr report.events) hreports.2

end Noted

/-- A call registers its channel with what it makes of the events noted for the channel. -/
theorem Noted.call_events {s : Watch Chan} (h : Noted fd s.poller s.lastReport) (c : Chan)
    (call : InterestCall) : registeredEvents fd (call.run fd c s.poller).2 c =
      call.events (s.poller.channels c).nEvents := by
  rw [call.run_eq h.placed h.registered, updated_events, setEvents_self]

/-- After the call the channel follows its interest exactly when the last report did not disturb
it. -/
theorem Noted.call_iff {s : Watch Chan} (h : Noted fd s.poller s.lastReport) (c : Chan)
    (call : InterestCall) (hfollows : registeredEvents fd s.poller c = (s.wanted c).mask) :
    registeredEvents fd (call.run fd c s.poller).2 c = (call.wants (s.wanted c)).mask ↔
      Undisturbed s (.call c call) := by
  rw [h.call_events, call.mask_wants, call.events_eq_iff, Undisturbed]
  cases hlast : s.lastReport c with
  | none =>
      rw [h.unreported c hlast, hfollows]
      simp
  | some r =>
      rw [h.reported c r hlast]
      simp

theorem WatchStep.noted {s s' : Watch Chan} {l : WatchEvent Chan} (hfd : Injective fd)
    (hstep : WatchStep fd s l s') (h : Noted fd s.poller s.lastReport) :
    Noted fd s'.poller s'.lastReport := by
  cases hstep with
  | call c call => exact h.call hfd call c
  | poll reports hreports => exact h.poll hreports

theorem WatchStep.follows_iff {s s' : Watch Chan} {l : WatchEvent Chan} (hfd : Injective fd)
    (hstep : WatchStep fd s l s') (h : Noted fd s.poller s.lastReport)
    (hall : ∀ c, FollowsInterest fd s c) :
    (∀ c, FollowsInterest fd s' c) ↔ Undisturbed s l := by
  simp only [followsInterest_iff] at hall ⊢
  cases hstep with
  | call c call =>
      rw [← h.call_iff c call (hall c)]
      constructor
      · intro hall'
        simpa using hall' c
      · intro hself c'
        by_cases hc : c' = c
        · rw [hc]
          simpa using hself
        · have hsame : registeredEvents fd (call.run fd c s.poller).2 c' =
              registeredEvents fd s.poller c' := by
            rw [call.run_eq h.placed h.registered, registeredEvents, registeredEvents,
              updated_table_of_ne hfd hc, setEvents_table]
          simp only [update_of_ne hc]
          rw [hsame]
          exact hall c'
  | poll reports hreports =>
      refine iff_of_true (fun c => ?_) trivial
      rw [registeredEvents, fillActiveChannels_table]
      exact hall c

/-- After every call of a run all channels are registered for what they want, if and only if no call
follows a report that disturbed what it leaves alone. Every call succeeds. -/
theorem interest_followed (hfd : Injective fd) {s : Watch Chan}
    {trace : List (Transition (Watch Chan) (WatchEvent Chan))}
    (run : Run (WatchStep fd) {} trace s) :
    ((∀ t ∈ trace, ∀ c, FollowsInterest fd t.dst c) ↔ ∀ t ∈ trace, Undisturbed t.src t.label) ∧
      ∀ t ∈ trace, ∀ c call, t.label = .call c call → (call.run fd c t.src.poller).1 = true := by
  have hnoted : ∀ (s : Watch Chan) l s', Noted fd s.poller s.lastReport → WatchStep fd s l s' →
      Noted fd s'.poller s'.lastReport := fun s l s' h hstep => hstep.noted hfd h
  constructor
  · refine run.always_iff (I := fun s => Noted fd s.poller s.lastReport)
      (P := fun s => ∀ c, FollowsInterest fd s c) .init hnoted ?_
      (fun s l s' h hall hstep => hstep.follows_iff hfd h hall)
    intro c
    have hmask : ({} : Wanted).mask = Channel.kNoneEvent := by decide
    rw [followsInterest_iff, hmask]
    rfl
  · refine run.each_step (I := fun s => Noted fd s.poller s.lastReport)
      (Q := fun s l _ => ∀ c call, l = .call c call → (call.run fd c s.poller).1 = true)
      .init hnoted ?_
    intro s l s' h _ c call _
    rw [call.run_eq h.placed h.registered]

/-- Reading and writing enabled, both reported, then writing disabled. -/
theorem interest_followed_writable :
    let s₁ := (InterestCall.enableReading.run (fun _ : Unit => 7) () {}).2
    let s₂ := (InterestCall.enableWriting.run (fun _ => 7) () s₁).2
    let s₃ := (fillActiveChannels (fun _ => 7) [⟨XPOLLIN ||| XPOLLPRI ||| XPOLLOUT, ()⟩] s₂).2
    registeredEvents (fun _ => 7) (InterestCall.disableWriting.run (fun _ => 7) () s₃).2 () =
      Channel.kReadEvent := by
  intro s₁ s₂ s₃
  have hfd : Injective fun _ : Unit => (7 : ℤ) := fun a b _ => rfl
  have run₀ : Run (WatchStep fun _ : Unit => 7) {} [] _ := .start
  have run₁ := run₀.next (.call () .enableReading)
  have run₂ := run₁.next (.call () .enableWriting)
  have run₃ := run₂.next (.poll [⟨XPOLLIN ||| XPOLLPRI ||| XPOLLOUT, ()⟩] (by
    simp only [List.forall_mem_singleton]
    exact ⟨⟨XPOLLIN ||| XPOLLPRI ||| XPOLLOUT, ()⟩, rfl, rfl, by decide, by decide⟩))
  have run₄ := run₃.next (.call () .disableWriting)
  have hfollows := (interest_followed hfd run₄).1.mpr ?_ _ List.mem_cons_self ()
  · have := followsInterest_iff.mp hfollows
    exact this
  · simp only [List.forall_mem_cons]
    refine ⟨?_, ?_, ?_, ?_, by simp⟩
    · intro r hr
      cases hr
      decide
    · trivial
    · intro r hr
      cases hr
    · intro r hr
      cases hr

/-- Writable alone is reported for a channel that reads and writes, and it is then disabled for
writing: the channel is deregistered while it wants to be read. -/
theorem interest_followed_fails :
    ∃ trace s, Run (WatchStep fun _ : Unit => 7) {} trace s ∧
      labels trace = [.call () .disableWriting, .poll [⟨XPOLLOUT, ()⟩], .call () .enableWriting,
        .call () .enableReading] ∧
      (s.wanted ()).mask = Channel.kReadEvent ∧ s.poller.table 7 = none ∧
      ¬ FollowsInterest (fun _ => 7) s () := by
  have run₀ : Run (WatchStep fun _ : Unit => 7) {} [] _ := .start
  have run₁ := run₀.next (.call () .enableReading)
  have run₂ := run₁.next (.call () .enableWriting)
  have run₃ := run₂.next (.poll [⟨XPOLLOUT, ()⟩] (by
    simp only [List.forall_mem_singleton]
    exact ⟨⟨XPOLLIN ||| XPOLLPRI ||| XPOLLOUT, ()⟩, rfl, rfl, by decide, by decide⟩))
  refine ⟨_, _, run₃.next (.call () .disableWriting), rfl, by decide, rfl, fun h => ?_⟩
  exact absurd (h.deregistered rfl) (by decide)

end Yedis
