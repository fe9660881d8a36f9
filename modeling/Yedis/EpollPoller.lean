import Mathlib.Data.BitVec
import Mathlib.Logic.Function.Basic
import Mathlib.Tactic.Common

/-!
# Channels and their poller

`Channel` and `EPollPoller` on the interest table of epoll, in which an `ADD` fails
where the descriptor is present and a `MOD` or `DEL` where it is not. The channels
`Chan` of one poller are given with the descriptors `fd` they were made for.
-/

namespace Yedis
open Function

def XPOLLIN : BitVec 32 := 1
def XPOLLPRI : BitVec 32 := 2
def XPOLLOUT : BitVec 32 := 4
def XPOLLERR : BitVec 32 := 8
def XPOLLHUP : BitVec 32 := 16
def XPOLLNVAL : BitVec 32 := 32
def XPOLLRDHUP : BitVec 32 := 8192

/-- What a poller has noted on a channel. -/
inductive ChannelIndex
  | kNew
  | kAdded
  | kDeleted
  deriving DecidableEq

structure Channel where
  nEvents : BitVec 32 := 0
  nIndex : ChannelIndex := .kNew
  deriving DecidableEq

namespace Channel

def kNoneEvent : BitVec 32 := 0
def kReadEvent : BitVec 32 := XPOLLIN ||| XPOLLPRI
def kWriteEvent : BitVec 32 := XPOLLOUT

def isNoneEvent (c : Channel) : Prop := c.nEvents = kNoneEvent

instance (c : Channel) : Decidable c.isNoneEvent := inferInstanceAs (Decidable (_ = _))

end Channel

structure EpollEvent (Chan : Type) where
  events : BitVec 32
  ptr : Chan

inductive EpollOp
  | XEPOLL_CTL_ADD
  | XEPOLL_CTL_DEL
  | XEPOLL_CTL_MOD
  deriving DecidableEq

variable {Chan : Type} [DecidableEq Chan]

/-- `epoll_ctl` on the interest table, and whether it succeeds. -/
def epollCtl (op : EpollOp) (fd : ℤ) (event : EpollEvent Chan)
    (table : ℤ → Option (EpollEvent Chan)) : Bool × (ℤ → Option (EpollEvent Chan)) :=
  match op with
  | .XEPOLL_CTL_ADD =>
    if (table fd).isSome then (false, table) else (true, update table fd (some event))
  | .XEPOLL_CTL_DEL => if (table fd).isSome then (true, update table fd none) else (false, table)
  | .XEPOLL_CTL_MOD =>
    if (table fd).isSome then (true, update table fd (some event)) else (false, table)

/-- A poller with the channels that call it and the interest table of its epoll descriptor. -/
structure EPollPoller (Chan : Type) where
  channels : Chan → Channel := fun _ => {}
  mapChannels : ℤ → Option Chan := fun _ => none
  table : ℤ → Option (EpollEvent Chan) := fun _ => none

/-- A report of `epoll_wait`: some of the registered events, an error or a hang-up. -/
def Reportable (fd : Chan → ℤ) (s : EPollPoller Chan) (report : EpollEvent Chan) : Prop :=
  ∃ event, s.table (fd report.ptr) = some event ∧ event.ptr = report.ptr ∧
    report.events ≠ 0 ∧ report.events &&& ~~~(event.events ||| XPOLLERR ||| XPOLLHUP) = 0

namespace EPollPoller

def setEvents (s : EPollPoller Chan) (c : Chan) (nEvents : BitVec 32) : EPollPoller Chan :=
  { s with channels := update s.channels c { s.channels c with nEvents := nEvents } }

def setIndex (s : EPollPoller Chan) (c : Chan) (nIndex : ChannelIndex) : EPollPoller Chan :=
  { s with channels := update s.channels c { s.channels c with nIndex := nIndex } }

variable (fd : Chan → ℤ)

/-- `EPollPoller::update`. -/
def ctl (s : EPollPoller Chan) (operation : EpollOp) (c : Chan) : Bool × EPollPoller Chan :=
  let (done, table) := epollCtl operation (fd c) ⟨(s.channels c).nEvents, c⟩ s.table
  (done, { s with table := table })

def updateChannel (s : EPollPoller Chan) (c : Chan) : Bool × EPollPoller Chan :=
  let index := (s.channels c).nIndex
  if index = .kNew ∨ index = .kDeleted then
    if index = .kNew then
      if s.mapChannels (fd c) ≠ none then (false, s)
      else
        let s := { s with mapChannels := update s.mapChannels (fd c) (some c) }
        (s.setIndex c .kAdded).ctl fd .XEPOLL_CTL_ADD c
    else if s.mapChannels (fd c) = none then (false, s)
    else if s.mapChannels (fd c) ≠ some c then (false, s)
    else (s.setIndex c .kAdded).ctl fd .XEPOLL_CTL_ADD c
  else if s.mapChannels (fd c) = none ∨ s.mapChannels (fd c) ≠ some c ∨ index ≠ .kAdded then
    (false, s)
  else if (s.channels c).isNoneEvent then
    let (done, s) := s.ctl fd .XEPOLL_CTL_DEL c
    if done then (true, s.setIndex c .kDeleted) else (false, s)
  else s.ctl fd .XEPOLL_CTL_MOD c

/-- `removeChannel`, which does not look at the index it reads. -/
def removeChannel (s : EPollPoller Chan) (c : Chan) : EPollPoller Chan :=
  if s.mapChannels (fd c) = none then s
  else if s.mapChannels (fd c) ≠ some c then s
  else if ¬ (s.channels c).isNoneEvent then s
  else
    let s := { s with mapChannels := update s.mapChannels (fd c) none }
    s.setIndex c .kNew

/-- `fillActiveChannels`: the active channels, and their events set to what was reported. -/
def fillActiveChannels : List (EpollEvent Chan) → EPollPoller Chan → List Chan × EPollPoller Chan
  | [], s => ([], s)
  | event :: events, s =>
    if s.mapChannels (fd event.ptr) ≠ some event.ptr then ([], s)
    else
      let (activeChannels, s) := fillActiveChannels events (s.setEvents event.ptr event.events)
      (event.ptr :: activeChannels, s)

section Fields
variable (s : EPollPoller Chan) (c c' : Chan) (m : BitVec 32) (i : ChannelIndex)

omit [DecidableEq Chan] in
@[simp] theorem ctl_mapChannels (op : EpollOp) :
    (s.ctl fd op c).2.mapChannels = s.mapChannels := rfl

@[simp] theorem setEvents_mapChannels : (s.setEvents c m).mapChannels = s.mapChannels := rfl

@[simp] theorem setEvents_table : (s.setEvents c m).table = s.table := rfl

@[simp] theorem setEvents_self : (s.setEvents c m).channels c = ⟨m, (s.channels c).nIndex⟩ :=
  update_self _ _ _

@[simp] theorem setIndex_mapChannels : (s.setIndex c i).mapChannels = s.mapChannels := rfl

@[simp] theorem setIndex_table : (s.setIndex c i).table = s.table := rfl

@[simp] theorem setIndex_self : (s.setIndex c i).channels c = ⟨(s.channels c).nEvents, i⟩ :=
  update_self _ _ _

variable {c c'}

theorem setEvents_of_ne (h : c' ≠ c) : (s.setEvents c m).channels c' = s.channels c' :=
  update_of_ne h _ _

@[simp] theorem setEvents_index :
    ((s.setEvents c m).channels c').nIndex = (s.channels c').nIndex := by
  by_cases h : c' = c
  · rw [h, setEvents_self]
  · rw [setEvents_of_ne s m h]

theorem setIndex_of_ne (h : c' ≠ c) : (s.setIndex c i).channels c' = s.channels c' :=
  update_of_ne h _ _

end Fields

/-- `mapChannels` holds a channel under its descriptor unless the channel is new. -/
def Placed (s : EPollPoller Chan) (c : Chan) : Prop :=
  s.mapChannels (fd c) = if (s.channels c).nIndex = .kNew then none else some c

/-- The channel entered in `mapChannels` and marked as added. -/
def put (s : EPollPoller Chan) (c : Chan) : EPollPoller Chan :=
  { s with mapChannels := update s.mapChannels (fd c) (some c) }.setIndex c .kAdded

section Update
variable {fd} {s : EPollPoller Chan} {c c' : Chan}

theorem updateChannel_add (hp : s.Placed fd c) (h : (s.channels c).nIndex ≠ .kAdded) :
    s.updateChannel fd c = (s.put fd c).ctl fd .XEPOLL_CTL_ADD c := by
  unfold Placed at hp
  cases hindex : (s.channels c).nIndex with
  | kAdded => exact absurd hindex h
  | kNew =>
      rw [hindex, if_pos rfl] at hp
      simp [updateChannel, hindex, hp, put]
  | kDeleted =>
      rw [hindex, if_neg (by decide)] at hp
      have hsame : update s.mapChannels (fd c) (some c) = s.mapChannels := by
        rw [← hp, update_eq_self]
      simp [updateChannel, hindex, hp, put, hsame]

theorem updateChannel_del (hp : s.Placed fd c) (h : (s.channels c).nIndex = .kAdded)
    (hnone : (s.channels c).isNoneEvent) : s.updateChannel fd c =
      if (s.ctl fd .XEPOLL_CTL_DEL c).1 then
        (true, (s.ctl fd .XEPOLL_CTL_DEL c).2.setIndex c .kDeleted)
      else (false, (s.ctl fd .XEPOLL_CTL_DEL c).2) := by
  rw [Placed, h, if_neg (by decide)] at hp
  simp [updateChannel, h, hp, hnone]

theorem updateChannel_mod (hp : s.Placed fd c) (h : (s.channels c).nIndex = .kAdded)
    (hsome : ¬ (s.channels c).isNoneEvent) :
    s.updateChannel fd c = s.ctl fd .XEPOLL_CTL_MOD c := by
  rw [Placed, h, if_neg (by decide)] at hp
  simp [updateChannel, h, hp, hsome]

theorem placed_put (hfd : Injective fd) (hp : ∀ c, s.Placed fd c) (c c' : Chan) :
    (s.put fd c).Placed fd c' := by
  unfold Placed put
  by_cases h : c' = c
  · subst h
    simp
  · rw [setIndex_of_ne _ _ h, setIndex_mapChannels]
    simp only
    rw [update_of_ne (hfd.ne h)]
    exact hp c'

theorem placed_setEvents (hp : ∀ c, s.Placed fd c) (c : Chan) (m : BitVec 32) (c' : Chan) :
    (s.setEvents c m).Placed fd c' := by
  rw [Placed, setEvents_index, setEvents_mapChannels]
  exact hp c'

theorem placed_updateChannel (hfd : Injective fd) (hp : ∀ c, s.Placed fd c) (c c' : Chan) :
    (s.updateChannel fd c).2.Placed fd c' := by
  by_cases hindex : (s.channels c).nIndex = .kAdded
  · by_cases hnone : (s.channels c).isNoneEvent
    · rw [updateChannel_del (hp c) hindex hnone]
      split_ifs with hdone
      · unfold Placed
        by_cases h : c' = c
        · subst h
          have := hp c'
          rw [Placed, hindex] at this
          simpa using this
        · rw [setIndex_of_ne _ _ h]
          exact hp c'
      · exact hp c'
    · rw [updateChannel_mod (hp c) hindex hnone]
      exact hp c'
  · rw [updateChannel_add (hp c) hindex]
    exact placed_put hfd hp c c'

/-- What `removeChannel` does to a channel that it takes out of `mapChannels`. -/
theorem removeChannel_eq (hp : s.Placed fd c) : s.removeChannel fd c =
    if (s.channels c).nIndex ≠ .kNew ∧ (s.channels c).isNoneEvent then
      { s with mapChannels := update s.mapChannels (fd c) none }.setIndex c .kNew
    else s := by
  unfold Placed at hp
  by_cases hnew : (s.channels c).nIndex = .kNew
  · rw [if_pos hnew] at hp
    simp [removeChannel, hp, hnew]
  · rw [if_neg hnew] at hp
    by_cases hnone : (s.channels c).isNoneEvent
    · simp [removeChannel, hp, hnew, hnone]
    · simp [removeChannel, hp, hnone]

theorem placed_removeChannel (hfd : Injective fd) (hp : ∀ c, s.Placed fd c) (c c' : Chan) :
    (s.removeChannel fd c).Placed fd c' := by
  rw [removeChannel_eq (hp c)]
  split_ifs with htaken
  · unfold Placed
    by_cases h : c' = c
    · subst h
      simp
    · rw [setIndex_of_ne _ _ h, setIndex_mapChannels]
      simp only
      rw [update_of_ne (hfd.ne h)]
      exact hp c'
  · exact hp c'

section Fill
variable (fd) (reports : List (EpollEvent Chan)) (s c)

@[simp] theorem fillActiveChannels_mapChannels :
    (fillActiveChannels fd reports s).2.mapChannels = s.mapChannels := by
  induction reports generalizing s with
  | nil => rfl
  | cons report reports ih =>
      rw [fillActiveChannels]
      split_ifs
      · rfl
      · exact ih _

@[simp] theorem fillActiveChannels_table :
    (fillActiveChannels fd reports s).2.table = s.table := by
  induction reports generalizing s with
  | nil => rfl
  | cons report reports ih =>
      rw [fillActiveChannels]
      split_ifs
      · rfl
      · exact ih _

@[simp] theorem fillActiveChannels_index :
    ((fillActiveChannels fd reports s).2.channels c).nIndex = (s.channels c).nIndex := by
  induction reports generalizing s with
  | nil => rfl
  | cons report reports ih =>
      rw [fillActiveChannels]
      split_ifs
      · rfl
      · exact (ih _).trans (setEvents_index _ _)

variable {reports s c}

/-- Only channels in `mapChannels` become active. -/
theorem fillActiveChannels_mem (h : c ∈ (fillActiveChannels fd reports s).1) :
    s.mapChannels (fd c) = some c := by
  induction reports generalizing s with
  | nil => cases h
  | cons report reports ih =>
      rw [fillActiveChannels] at h
      split_ifs at h with hmap
      · cases h
      · rcases List.mem_cons.mp h with rfl | h
        · exact not_not.mp hmap
        · have hmapped := ih h
          rwa [setEvents_mapChannels] at hmapped

end Fill

/-- The descriptor is in the interest table when the channel is marked as added. -/
def Registered (fd : Chan → ℤ) (s : EPollPoller Chan) (c : Chan) : Prop :=
  (s.channels c).nIndex = .kAdded ↔ (s.table (fd c)).isSome

/-- A channel that is added and wants nothing is taken out of the interest table; every other one
is in it afterwards, with its events. -/
def updated (fd : Chan → ℤ) (s : EPollPoller Chan) (c : Chan) : EPollPoller Chan :=
  if (s.channels c).nIndex = .kAdded ∧ (s.channels c).isNoneEvent then
    { s with table := update s.table (fd c) none }.setIndex c .kDeleted
  else
    { s with
      mapChannels := update s.mapChannels (fd c) (some c)
      table := update s.table (fd c) (some ⟨(s.channels c).nEvents, c⟩) }.setIndex c .kAdded

theorem updateChannel_eq (hp : s.Placed fd c) (hr : s.Registered fd c) :
    s.updateChannel fd c = (true, s.updated fd c) := by
  unfold Registered at hr
  unfold updated
  by_cases hindex : (s.channels c).nIndex = .kAdded
  · have htable := hr.mp hindex
    have hsame : update s.mapChannels (fd c) (some c) = s.mapChannels := by
      rw [Placed, hindex, if_neg (by decide)] at hp
      rw [← hp, update_eq_self]
    have hchannels : update s.channels c ⟨(s.channels c).nEvents, .kAdded⟩ = s.channels := by
      rw [← hindex]
      exact update_eq_self c s.channels
    by_cases hnone : (s.channels c).isNoneEvent
    · rw [updateChannel_del hp hindex hnone]
      simp [ctl, epollCtl, htable, setIndex, hindex, hnone]
    · rw [updateChannel_mod hp hindex hnone]
      simp [ctl, epollCtl, htable, setIndex, hnone, hsame, hchannels]
  · have htable : s.table (fd c) = none := by
      rw [hr, Bool.not_eq_true, Option.isSome_eq_false_iff, Option.isNone_iff_eq_none] at hindex
      exact hindex
    rw [updateChannel_add hp hindex]
    simp [ctl, epollCtl, put, setIndex, htable, hindex]

theorem updated_channels_of_ne (h : c' ≠ c) : (s.updated fd c).channels c' = s.channels c' := by
  unfold updated
  split_ifs
  · exact setIndex_of_ne _ _ h
  · exact setIndex_of_ne _ _ h

theorem updated_table_of_ne (hfd : Injective fd) (h : c' ≠ c) :
    (s.updated fd c).table (fd c') = s.table (fd c') := by
  unfold updated
  split_ifs
  · exact update_of_ne (hfd.ne h) _ _
  · exact update_of_ne (hfd.ne h) _ _

/-- The events a channel is registered with, none where it is not registered. -/
def registeredEvents (fd : Chan → ℤ) (s : EPollPoller Chan) (c : Chan) : BitVec 32 :=
  ((s.table (fd c)).map EpollEvent.events).getD Channel.kNoneEvent

theorem updated_events : (s.updated fd c).registeredEvents fd c = (s.channels c).nEvents := by
  unfold updated
  split_ifs with hdrop
  · have hnone : (s.channels c).nEvents = Channel.kNoneEvent := hdrop.2
    rw [hnone]
    simp [registeredEvents]
  · simp [registeredEvents]

theorem updated_nEvents : ((s.updated fd c).channels c).nEvents = (s.channels c).nEvents := by
  unfold updated
  split_ifs <;> simp

theorem registered_updated (hfd : Injective fd) (hr : ∀ c, s.Registered fd c) (c c' : Chan) :
    (s.updated fd c).Registered fd c' := by
  by_cases h : c' = c
  · subst h
    unfold Registered updated
    split_ifs <;> simp
  · rw [Registered, updated_channels_of_ne h, updated_table_of_ne hfd h]
    exact hr c'

theorem registered_setEvents (hr : ∀ c, s.Registered fd c) (c : Chan) (m : BitVec 32) (c' : Chan) :
    (s.setEvents c m).Registered fd c' := by
  rw [Registered, setEvents_index, setEvents_table]
  exact hr c'

end Update

end EPollPoller

/-! ### Calls on a channel -/

/-- The calls that change what a channel is interested in. -/
inductive InterestCall
  | enableReading
  | disableReading
  | enableWriting
  | disableWriting
  | disableAll
  deriving DecidableEq

/-- The new value of `m_nEvents`. -/
def InterestCall.events : InterestCall → BitVec 32 → BitVec 32
  | enableReading, m => m ||| Channel.kReadEvent
  | disableReading, m => m &&& ~~~Channel.kReadEvent
  | enableWriting, m => m ||| Channel.kWriteEvent
  | disableWriting, m => m &&& ~~~Channel.kWriteEvent
  | disableAll, _ => Channel.kNoneEvent

/-- The call on the channel `c`: its events are changed and the poller told. -/
def InterestCall.run (fd : Chan → ℤ) (call : InterestCall) (c : Chan) (s : EPollPoller Chan) :
    Bool × EPollPoller Chan :=
  (s.setEvents c (call.events (s.channels c).nEvents)).updateChannel fd c

section Call
open EPollPoller
variable {fd : Chan → ℤ} {s : EPollPoller Chan}

theorem InterestCall.run_eq (hp : ∀ c, s.Placed fd c)
    (hr : ∀ c, s.Registered fd c) (call : InterestCall) (c : Chan) :
    call.run fd c s =
      (true, (s.setEvents c (call.events (s.channels c).nEvents)).updated fd c) :=
  updateChannel_eq (placed_setEvents hp c _ c) (registered_setEvents hr c _ c)

/-- These calls keep every channel registered that is marked as added, and no other. -/
theorem InterestCall.registered (hfd : Injective fd)
    (hp : ∀ c, s.Placed fd c) (hr : ∀ c, s.Registered fd c) (call : InterestCall) (c c' : Chan) :
    (call.run fd c s).2.Registered fd c' := by
  rw [call.run_eq hp hr]
  exact registered_updated hfd (registered_setEvents hr c _) c c'

/-- A call leaves only the other channels new. -/
theorem InterestCall.index_eq_new_iff (hp : ∀ c, s.Placed fd c) (hr : ∀ c, s.Registered fd c)
    (call : InterestCall) (c c' : Chan) : ((call.run fd c s).2.channels c').nIndex = .kNew ↔
      c' ≠ c ∧ (s.channels c').nIndex = .kNew := by
  rw [call.run_eq hp hr]
  by_cases h : c' = c
  · subst h
    unfold updated
    split_ifs <;> simp
  · rw [updated_channels_of_ne h, setEvents_index, and_iff_right h]

theorem InterestCall.placed (hfd : Injective fd) (hp : ∀ c, s.Placed fd c) (call : InterestCall)
    (c c' : Chan) : (call.run fd c s).2.Placed fd c' :=
  placed_updateChannel hfd (placed_setEvents hp c _) c c'

end Call

end Yedis
