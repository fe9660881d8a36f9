import Std.Data.TreeMap
import Yedis.Interest

/-!
# The poller on Windows

`SelectPoller`, which registers nothing with the system but keeps `m_vecEvents` and
asks `select` each time. Unlike those of `EPollPoller` its reports are added to the
events of a channel, which leaves them as they are, so that it always asks for what is
wanted.
-/

namespace Yedis
open Runs

/-- `FD_SET` of winsock, by which a full set stays as it is. -/
def FD_SET (FD_SETSIZE : ℕ) (fd : ℤ) (set : List ℤ) : List ℤ :=
  if fd ∈ set ∨ FD_SETSIZE ≤ set.length then set else set ++ [fd]

structure SelectPoller (Chan : Type) where
  channels : Chan → Channel := fun _ => {}
  mapChannels : Std.TreeMap ℤ Chan := ∅
  m_vecEvents : List (EpollEvent (Option Chan)) := []

namespace SelectPoller

variable {Chan : Type} [DecidableEq Chan]

def setEvents (s : SelectPoller Chan) (c : Chan) (nEvents : BitVec 32) : SelectPoller Chan :=
  { s with channels := Function.update s.channels c { s.channels c with nEvents := nEvents } }

def setIndex (s : SelectPoller Chan) (c : Chan) (nIndex : ChannelIndex) : SelectPoller Chan :=
  { s with channels := Function.update s.channels c { s.channels c with nIndex := nIndex } }

def addRevents (s : SelectPoller Chan) (c : Chan) (revt : BitVec 32) : SelectPoller Chan :=
  s.setEvents c ((s.channels c).nEvents ||| revt)

/-- The events of the first entry of a channel are changed. -/
def modifyFirst (c : Chan) (events : BitVec 32) :
    List (EpollEvent (Option Chan)) → List (EpollEvent (Option Chan))
  | [] => []
  | iter :: rest =>
    if iter.ptr = some c then { iter with events := events } :: rest
    else iter :: modifyFirst c events rest

/-- `SelectPoller::update`. -/
def ctl (s : SelectPoller Chan) (operation : EpollOp) (c : Chan) : Bool × SelectPoller Chan :=
  match operation with
  | .XEPOLL_CTL_ADD =>
    (true, { s with m_vecEvents := s.m_vecEvents ++ [⟨(s.channels c).nEvents, some c⟩] })
  | .XEPOLL_CTL_DEL =>
    if s.m_vecEvents.any fun iter => iter.ptr = some c then
      (true, { s with m_vecEvents := s.m_vecEvents.eraseP fun iter => iter.ptr = some c })
    else (false, s)
  | .XEPOLL_CTL_MOD =>
    if s.m_vecEvents.any fun iter => iter.ptr = some c then
      (true, { s with m_vecEvents := modifyFirst c (s.channels c).nEvents s.m_vecEvents })
    else (false, s)

variable (fd : Chan → ℤ)

def updateChannel (s : SelectPoller Chan) (c : Chan) : Bool × SelectPoller Chan :=
  let index := (s.channels c).nIndex
  if index = .kNew ∨ index = .kDeleted then
    if index = .kNew then
      if s.mapChannels[fd c]? ≠ none then (false, s)
      else
        let s := { s with mapChannels := s.mapChannels.insert (fd c) c }
        (s.setIndex c .kAdded).ctl .XEPOLL_CTL_ADD c
    else if s.mapChannels[fd c]? = none then (false, s)
    else if s.mapChannels[fd c]? ≠ some c then (false, s)
    else (s.setIndex c .kAdded).ctl .XEPOLL_CTL_ADD c
  else if s.mapChannels[fd c]? = none ∨ s.mapChannels[fd c]? ≠ some c ∨ index ≠ .kAdded then
    (false, s)
  else if (s.channels c).isNoneEvent then
    let (done, s) := s.ctl .XEPOLL_CTL_DEL c
    if done then (true, s.setIndex c .kDeleted) else (false, s)
  else s.ctl .XEPOLL_CTL_MOD c

def removeChannel (s : SelectPoller Chan) (c : Chan) : SelectPoller Chan :=
  if s.mapChannels[fd c]? = none then s
  else if s.mapChannels[fd c]? ≠ some c then s
  else if ¬ (s.channels c).isNoneEvent then s
  else
    let s := { s with mapChannels := s.mapChannels.erase (fd c) }
    s.setIndex c .kNew

/-- A call on the channel `c`: its events are changed and the poller told. -/
def call (s : SelectPoller Chan) (c : Chan) (call : InterestCall) : Bool × SelectPoller Chan :=
  (s.setEvents c (call.events (s.channels c).nEvents)).updateChannel fd c

/-- The first loop of `poll`, with the sets for reading and writing. -/
def fillSets (FD_SETSIZE : ℕ) (s : SelectPoller Chan) :
    List (ℤ × Chan) → List ℤ × List ℤ → List ℤ × List ℤ
  | [], sets => sets
  | (tmpfd, c) :: rest, (readfds, writefds) =>
    fillSets FD_SETSIZE s rest
      (if (s.channels c).nEvents &&& XPOLLIN ≠ 0 then FD_SET FD_SETSIZE tmpfd readfds else readfds,
        if (s.channels c).nEvents &&& XPOLLOUT ≠ 0 then FD_SET FD_SETSIZE tmpfd writefds
        else writefds)

/-- The sets that `poll` gives to `select`. -/
def offered (FD_SETSIZE : ℕ) (s : SelectPoller Chan) : List ℤ × List ℤ :=
  s.fillSets FD_SETSIZE s.mapChannels.toList ([], [])

def fillActiveChannels (numEvents : ℕ) (readfds writefds : List ℤ) :
    List (ℤ × Chan) → ℕ → SelectPoller Chan → List Chan × SelectPoller Chan
  | [], _, s => ([], s)
  | (fd, channel) :: rest, currentCount, s =>
    let s := if fd ∈ readfds then s.addRevents channel XPOLLIN else s
    let s := if fd ∈ writefds then s.addRevents channel XPOLLOUT else s
    if fd ∈ readfds ∨ fd ∈ writefds then
      if numEvents ≤ currentCount + 1 then ([channel], s)
      else
        let (activeChannels, s) :=
          fillActiveChannels numEvents readfds writefds rest (currentCount + 1) s
        (channel :: activeChannels, s)
    else fillActiveChannels numEvents readfds writefds rest currentCount s

/-- `poll` with the sets that `select` leaves, `none` where it fails. Entries without a channel
are added where there are as many entries as events. -/
def poll (s : SelectPoller Chan) : Option (List ℤ × List ℤ) → List Chan × SelectPoller Chan
  | none => ([], s)
  | some (readfds, writefds) =>
    let nEvents := readfds.length + writefds.length
    if 0 < nEvents then
      let (activeChannels, s) :=
        fillActiveChannels nEvents readfds writefds s.mapChannels.toList 0 s
      (activeChannels,
        if nEvents = s.m_vecEvents.length then
          { s with m_vecEvents := s.m_vecEvents ++ List.replicate s.m_vecEvents.length ⟨0, none⟩ }
        else s)
    else ([], s)

/-! ### What `select` is asked -/

section Sets
variable {FD_SETSIZE : ℕ} {s : SelectPoller Chan} {entries : List (ℤ × Chan)}

theorem FD_SET_take {fd : ℤ} {fds : List ℤ} (h : fd ∉ fds) :
    FD_SET FD_SETSIZE fd (fds.take FD_SETSIZE) = (fds ++ [fd]).take FD_SETSIZE := by
  have hnot : fd ∉ fds.take FD_SETSIZE := fun hmem => h (List.mem_of_mem_take hmem)
  unfold FD_SET
  by_cases hfull : FD_SETSIZE ≤ fds.length
  · rw [if_pos (Or.inr (by rw [List.length_take]; omega)), List.take_append_of_le_length hfull]
  · have hroom : (fds ++ [fd]).length ≤ FD_SETSIZE := by
      rw [List.length_append, List.length_singleton]
      omega
    have htake : fds.take FD_SETSIZE = fds := List.take_of_length_le (by omega)
    rw [htake, List.take_of_length_le hroom, if_neg]
    rintro (hmem | hle)
    · exact h hmem
    · exact hfull hle

/-- The descriptors of channels with one of the events, those with room for them. -/
def asking (s : SelectPoller Chan) (events : BitVec 32) (entries : List (ℤ × Chan)) : List ℤ :=
  (entries.filter fun e => (s.channels e.2).nEvents &&& events ≠ 0).map Prod.fst

omit [DecidableEq Chan] in
theorem fillSets_eq (hkeys : (entries.map Prod.fst).Nodup) {readfds writefds : List ℤ}
    (hread : ∀ e ∈ entries, e.1 ∉ readfds) (hwrite : ∀ e ∈ entries, e.1 ∉ writefds) :
    s.fillSets FD_SETSIZE entries (readfds.take FD_SETSIZE, writefds.take FD_SETSIZE) =
      ((readfds ++ s.asking XPOLLIN entries).take FD_SETSIZE,
        (writefds ++ s.asking XPOLLOUT entries).take FD_SETSIZE) := by
  have hstep : ∀ (events : BitVec 32) (fds : List ℤ) (e : ℤ × Chan), e.1 ∉ fds →
      (if (s.channels e.2).nEvents &&& events ≠ 0 then
          FD_SET FD_SETSIZE e.1 (fds.take FD_SETSIZE)
        else fds.take FD_SETSIZE) = (fds ++ s.asking events [e]).take FD_SETSIZE := by
    intro events fds e he
    by_cases hasks : (s.channels e.2).nEvents &&& events ≠ 0
    · have hone : s.asking events [e] = [e.1] := by
        rw [asking, List.filter_singleton, decide_eq_true hasks]
        rfl
      rw [if_pos hasks, hone, FD_SET_take he]
    · have hnone : s.asking events [e] = [] := by
        rw [asking, List.filter_singleton, decide_eq_false hasks]
        rfl
      rw [if_neg hasks, hnone, List.append_nil]
  have hcons : ∀ (events : BitVec 32) (e : ℤ × Chan) (rest : List (ℤ × Chan)),
      s.asking events (e :: rest) = s.asking events [e] ++ s.asking events rest := by
    intro events e rest
    rw [asking, asking, asking, ← List.map_append, ← List.filter_append]
    rfl
  induction entries generalizing readfds writefds with
  | nil => simp [fillSets, asking]
  | cons e rest ih =>
      rw [List.map_cons, List.nodup_cons] at hkeys
      rw [List.forall_mem_cons] at hread hwrite
      have hlater : ∀ (events : BitVec 32) (fds : List ℤ), (∀ e ∈ rest, e.1 ∉ fds) →
          ∀ e' ∈ rest, e'.1 ∉ fds ++ s.asking events [e] := by
        intro events fds hfds e' he' hmem
        rcases List.mem_append.mp hmem with hmem | hmem
        · exact hfds e' he' hmem
        · obtain ⟨e'', he'', heq⟩ := List.mem_map.mp hmem
          obtain rfl : e'' = e := List.mem_singleton.mp (List.mem_filter.mp he'').1
          exact hkeys.1 (List.mem_map.mpr ⟨e', he', heq.symm⟩)
      obtain ⟨tmpfd, c⟩ := e
      rw [fillSets, hstep _ _ _ hread.1, hstep _ _ _ hwrite.1,
        ih hkeys.2 (hlater _ _ hread.2) (hlater _ _ hwrite.2), List.append_assoc,
        List.append_assoc, ← hcons, ← hcons]

omit [DecidableEq Chan] in
theorem nodup_keys (s : SelectPoller Chan) : (s.mapChannels.toList.map Prod.fst).Nodup := by
  rw [List.Nodup, List.pairwise_map]
  refine s.mapChannels.distinct_keys_toList.imp fun h heq => h ?_
  exact compare_eq_iff_eq.mpr heq

omit [DecidableEq Chan] in
theorem offered_eq (s : SelectPoller Chan) : s.offered FD_SETSIZE =
    ((s.asking XPOLLIN s.mapChannels.toList).take FD_SETSIZE,
      (s.asking XPOLLOUT s.mapChannels.toList).take FD_SETSIZE) := by
  have hsets : s.fillSets FD_SETSIZE s.mapChannels.toList ([].take FD_SETSIZE, [].take FD_SETSIZE) =
      _ := fillSets_eq s.nodup_keys (fun e _ => List.not_mem_nil) (fun e _ => List.not_mem_nil)
  rwa [List.take_nil, List.nil_append, List.nil_append] at hsets

end Sets

/-! ### What it answers -/

section Answers
variable {s : SelectPoller Chan} {entries : List (ℤ × Chan)} {readfds writefds : List ℤ}

theorem addRevents_eq {c : Chan} {revt : BitVec 32}
    (h : (s.channels c).nEvents ||| revt = (s.channels c).nEvents) : s.addRevents c revt = s := by
  unfold addRevents setEvents
  rw [h]
  exact congrArg (fun channels => { s with channels := channels })
    (Function.update_eq_self c s.channels)

/-- The channels of the descriptors that are ready. -/
def ready (readfds writefds : List ℤ) (entries : List (ℤ × Chan)) : List Chan :=
  (entries.filter fun e => e.1 ∈ readfds ∨ e.1 ∈ writefds).map Prod.snd

/-- The loop is not left before a channel that is ready, and changes nothing. -/
theorem fillActiveChannels_eq {numEvents currentCount : ℕ}
    (hread : ∀ e ∈ entries, e.1 ∈ readfds →
      (s.channels e.2).nEvents ||| XPOLLIN = (s.channels e.2).nEvents)
    (hwrite : ∀ e ∈ entries, e.1 ∈ writefds →
      (s.channels e.2).nEvents ||| XPOLLOUT = (s.channels e.2).nEvents)
    (hcount : currentCount + (ready readfds writefds entries).length ≤ numEvents) :
    fillActiveChannels numEvents readfds writefds entries currentCount s =
      (ready readfds writefds entries, s) := by
  induction entries generalizing currentCount with
  | nil => rfl
  | cons e rest ih =>
      obtain ⟨fd, channel⟩ := e
      rw [List.forall_mem_cons] at hread hwrite
      have hin : (if fd ∈ readfds then s.addRevents channel XPOLLIN else s) = s := by
        split_ifs with hmem
        · exact addRevents_eq (hread.1 hmem)
        · rfl
      have hout : (if fd ∈ writefds then s.addRevents channel XPOLLOUT else s) = s := by
        split_ifs with hmem
        · exact addRevents_eq (hwrite.1 hmem)
        · rfl
      rw [fillActiveChannels, hin, hout]
      by_cases hready : fd ∈ readfds ∨ fd ∈ writefds
      · have hcons : ready readfds writefds ((fd, channel) :: rest) =
            channel :: ready readfds writefds rest := by
          simp [ready, hready]
        rw [hcons, List.length_cons] at hcount
        rw [if_pos hready, hcons]
        split_ifs with hlast
        · have hnone : ready readfds writefds rest = [] :=
            List.eq_nil_of_length_eq_zero (by omega)
          rw [hnone]
        · rw [ih hread.2 hwrite.2 (by omega)]
      · have hcons : ready readfds writefds ((fd, channel) :: rest) =
            ready readfds writefds rest := by
          simp [ready, hready]
        rw [hcons] at hcount
        rw [if_neg hready, hcons, ih hread.2 hwrite.2 hcount]

omit [DecidableEq Chan] in
/-- No more channels are ready than `select` has counted. -/
theorem length_ready_le (hkeys : (entries.map Prod.fst).Nodup) :
    (ready readfds writefds entries).length ≤ readfds.length + writefds.length := by
  have hsub : ((entries.filter fun e => e.1 ∈ readfds ∨ e.1 ∈ writefds).map Prod.fst) ⊆
      readfds ++ writefds := by
    intro fd hfd
    obtain ⟨e, he, rfl⟩ := List.mem_map.mp hfd
    rw [List.mem_filter, decide_eq_true_eq] at he
    exact List.mem_append.mpr he.2
  have hnodup := hkeys.sublist ((List.filter_sublist
    (p := fun e : ℤ × Chan => e.1 ∈ readfds ∨ e.1 ∈ writefds)).map Prod.fst)
  have hle := (List.subperm_of_subset hnodup hsub).length_le
  rw [List.length_map, List.length_append] at hle
  rwa [ready, List.length_map]

/-- A poll changes no channel and no registration, whatever is ready of what was asked for. -/
theorem poll_eq {FD_SETSIZE : ℕ} (hread : readfds.Sublist (s.offered FD_SETSIZE).1)
    (hwrite : writefds.Sublist (s.offered FD_SETSIZE).2)
    (hbits : ∀ c, ((s.channels c).nEvents &&& XPOLLIN ≠ 0 →
      (s.channels c).nEvents ||| XPOLLIN = (s.channels c).nEvents) ∧
      ((s.channels c).nEvents &&& XPOLLOUT ≠ 0 →
        (s.channels c).nEvents ||| XPOLLOUT = (s.channels c).nEvents)) :
    ∃ n, s.poll (some (readfds, writefds)) =
      (ready readfds writefds s.mapChannels.toList,
        { s with m_vecEvents := s.m_vecEvents ++ List.replicate n ⟨0, none⟩ }) := by
  have hasked : ∀ (events : BitVec 32), ∀ fd ∈ s.asking events s.mapChannels.toList,
      ∀ e ∈ s.mapChannels.toList, e.1 = fd → (s.channels e.2).nEvents &&& events ≠ 0 := by
    intro events fd hfd e he heq
    obtain ⟨e', he', hfd'⟩ := List.mem_map.mp hfd
    rw [List.mem_filter, decide_eq_true_eq] at he'
    have hval : e'.2 = e.2 := by
      have hget := Std.TreeMap.mem_toList_iff_getElem?_eq_some.mp he
      have hget' := Std.TreeMap.mem_toList_iff_getElem?_eq_some.mp he'.1
      rw [hfd', ← heq, hget] at hget'
      exact (Option.some.inj hget').symm
    rw [← hval]
    exact he'.2
  rw [offered_eq] at hread hwrite
  have hle : (ready readfds writefds s.mapChannels.toList).length ≤
      readfds.length + writefds.length := length_ready_le s.nodup_keys
  have hfill : fillActiveChannels (readfds.length + writefds.length) readfds writefds
      s.mapChannels.toList 0 s = (ready readfds writefds s.mapChannels.toList, s) := by
    apply fillActiveChannels_eq
    · exact fun e he hmem => (hbits e.2).1 (hasked XPOLLIN e.1
        (List.mem_of_mem_take (hread.subset hmem)) e he rfl)
    · exact fun e he hmem => (hbits e.2).2 (hasked XPOLLOUT e.1
        (List.mem_of_mem_take (hwrite.subset hmem)) e he rfl)
    · rwa [Nat.zero_add]
  unfold poll
  simp only
  rw [hfill]
  split_ifs with hsome hfull
  · exact ⟨s.m_vecEvents.length, rfl⟩
  · exact ⟨0, by rw [List.replicate_zero, List.append_nil]⟩
  · have hnone : ready readfds writefds s.mapChannels.toList = [] :=
      List.eq_nil_of_length_eq_zero (by omega)
    exact ⟨0, by rw [hnone, List.replicate_zero, List.append_nil]⟩

end Answers

/-! ### What a call does -/

section Calls
variable {fd} {s : SelectPoller Chan} {c c' : Chan}

@[simp] theorem setEvents_self (m : BitVec 32) :
    (s.setEvents c m).channels c = ⟨m, (s.channels c).nIndex⟩ := Function.update_self _ _ _

theorem setEvents_of_ne (m : BitVec 32) (h : c' ≠ c) :
    (s.setEvents c m).channels c' = s.channels c' := Function.update_of_ne h _ _

@[simp] theorem setEvents_index (m : BitVec 32) :
    ((s.setEvents c m).channels c').nIndex = (s.channels c').nIndex := by
  by_cases h : c' = c
  · rw [h, setEvents_self]
  · rw [setEvents_of_ne m h]

@[simp] theorem setIndex_self (i : ChannelIndex) :
    (s.setIndex c i).channels c = ⟨(s.channels c).nEvents, i⟩ := Function.update_self _ _ _

theorem setIndex_of_ne (i : ChannelIndex) (h : c' ≠ c) :
    (s.setIndex c i).channels c' = s.channels c' := Function.update_of_ne h _ _

@[simp] theorem setIndex_nEvents (i : ChannelIndex) :
    ((s.setIndex c i).channels c').nEvents = (s.channels c').nEvents := by
  by_cases h : c' = c
  · rw [h, setIndex_self]
  · rw [setIndex_of_ne i h]

/-- An entry for the channel at the end, and the channel marked as added. -/
def listed (s : SelectPoller Chan) (c : Chan) : SelectPoller Chan :=
  { s.setIndex c .kAdded with
    m_vecEvents := s.m_vecEvents ++ [⟨(s.channels c).nEvents, some c⟩] }

theorem updateChannel_new (hindex : (s.channels c).nIndex = .kNew)
    (hmap : s.mapChannels[fd c]? = none) : s.updateChannel fd c =
      (true, { s with mapChannels := s.mapChannels.insert (fd c) c }.listed c) := by
  simp [updateChannel, hindex, hmap, ctl, listed, setIndex]

theorem updateChannel_occupied (hindex : (s.channels c).nIndex = .kNew)
    (hmap : s.mapChannels[fd c]? ≠ none) : s.updateChannel fd c = (false, s) := by
  simp [updateChannel, hindex, hmap]

theorem updateChannel_deleted (hindex : (s.channels c).nIndex = .kDeleted)
    (hmap : s.mapChannels[fd c]? = some c) : s.updateChannel fd c = (true, s.listed c) := by
  simp [updateChannel, hindex, hmap, ctl, listed, setIndex]

theorem updateChannel_drop (hindex : (s.channels c).nIndex = .kAdded)
    (hmap : s.mapChannels[fd c]? = some c) (hnone : (s.channels c).isNoneEvent)
    (hany : (s.m_vecEvents.any fun iter => iter.ptr = some c) = true) : s.updateChannel fd c =
      (true, { s with m_vecEvents := s.m_vecEvents.eraseP fun iter => iter.ptr = some c }.setIndex c
        .kDeleted) := by
  unfold updateChannel ctl
  simp only [hindex, hmap, hnone, hany, reduceCtorEq, or_self, if_false, not_true, ne_eq, if_true]

theorem updateChannel_change (hindex : (s.channels c).nIndex = .kAdded)
    (hmap : s.mapChannels[fd c]? = some c) (hsome : ¬ (s.channels c).isNoneEvent)
    (hany : (s.m_vecEvents.any fun iter => iter.ptr = some c) = true) : s.updateChannel fd c =
      (true, { s with m_vecEvents := modifyFirst c (s.channels c).nEvents s.m_vecEvents }) := by
  unfold updateChannel ctl
  simp only [hindex, hmap, hsome, hany, reduceCtorEq, or_self, if_false, not_true, ne_eq, if_true]

theorem map_ptr_modifyFirst (c : Chan) (events : BitVec 32)
    (m_vecEvents : List (EpollEvent (Option Chan))) :
    (modifyFirst c events m_vecEvents).map EpollEvent.ptr = m_vecEvents.map EpollEvent.ptr := by
  induction m_vecEvents with
  | nil => rfl
  | cons iter rest ih =>
      rw [modifyFirst]
      split_ifs
      · rfl
      · rw [List.map_cons, List.map_cons, ih]

theorem any_ptr_iff {m_vecEvents : List (EpollEvent (Option Chan))} :
    (m_vecEvents.any fun iter => iter.ptr = some c) = true ↔
      some c ∈ m_vecEvents.map EpollEvent.ptr := by
  rw [List.any_eq_true, List.mem_map]
  simp only [decide_eq_true_eq]

/-- Only an entry of the channel is erased. -/
theorem mem_map_ptr_eraseP {m_vecEvents : List (EpollEvent (Option Chan))} (h : c' ≠ c)
    (hmem : some c' ∈ m_vecEvents.map EpollEvent.ptr) :
    some c' ∈ (m_vecEvents.eraseP fun iter => iter.ptr = some c).map EpollEvent.ptr := by
  obtain ⟨iter, hiter, hptr⟩ := List.mem_map.mp hmem
  refine List.mem_map.mpr ⟨iter, (List.mem_eraseP_of_neg ?_).mpr hiter, hptr⟩
  rw [hptr]
  simpa using h

end Calls

end SelectPoller

/-! ### Runs -/

section Runs
open SelectPoller Function
variable {Chan : Type} [DecidableEq Chan]

theorem Wanted.mask_read_iff (w : Wanted) : w.mask &&& XPOLLIN ≠ 0 ↔ w.reading = true := by
  rcases w with ⟨reading, writing⟩
  cases reading <;> cases writing <;> decide

theorem Wanted.mask_write_iff (w : Wanted) : w.mask &&& XPOLLOUT ≠ 0 ↔ w.writing = true := by
  rcases w with ⟨reading, writing⟩
  cases reading <;> cases writing <;> decide

theorem Wanted.mask_eq_none_iff (w : Wanted) : w.mask = Channel.kNoneEvent ↔ w = {} := by
  rcases w with ⟨reading, writing⟩
  cases reading <;> cases writing <;> decide

/-- What can be reported is in the mask already. -/
theorem Wanted.mask_or (w : Wanted) :
    (w.mask &&& XPOLLIN ≠ 0 → w.mask ||| XPOLLIN = w.mask) ∧
      (w.mask &&& XPOLLOUT ≠ 0 → w.mask ||| XPOLLOUT = w.mask) := by
  rcases w with ⟨reading, writing⟩
  cases reading <;> cases writing <;> decide

/-- The channels are interested in what is wanted, and those that hold a descriptor are not new. -/
structure SelectPoller.Follows (fd : Chan → ℤ) (want : Chan → Wanted) (hold : ℤ → Option Chan)
    (s : SelectPoller Chan) : Prop where
  events : ∀ c, (s.channels c).nEvents = (want c).mask
  map : ∀ k, s.mapChannels[k]? = hold k
  index : ∀ c, (s.channels c).nIndex ≠ .kNew ↔ hold (fd c) = some c
  added : ∀ c, (s.channels c).nIndex = .kAdded → some c ∈ s.m_vecEvents.map EpollEvent.ptr

namespace SelectPoller.Follows
variable {fd : Chan → ℤ} {want : Chan → Wanted} {hold : ℤ → Option Chan} {s : SelectPoller Chan}
  {c : Chan}

theorem setEvents (h : Follows fd want hold s) (c : Chan) (call : InterestCall) :
    Follows fd (update want c (call.wants (want c))) hold
      (s.setEvents c (call.events (s.channels c).nEvents)) := by
  refine ⟨fun c' => ?_, h.map, fun c' => ?_, fun c' hc' => ?_⟩
  · by_cases hc : c' = c
    · subst hc
      rw [setEvents_self, update_self, call.mask_wants, h.events]
    · rw [setEvents_of_ne _ hc, update_of_ne hc, h.events]
  · rw [setEvents_index, h.index]
  · rw [setEvents_index] at hc'
    exact h.added c' hc'

/-- The channel is entered under its descriptor, or is there already. -/
theorem listed (h : Follows fd want hold s) {mapChannels : Std.TreeMap ℤ Chan}
    (hmap : ∀ k, mapChannels[k]? = update hold (fd c) (some c) k)
    (hfree : hold (fd c) = none ∨ hold (fd c) = some c) :
    Follows fd want (update hold (fd c) (some c))
      ({ s with mapChannels := mapChannels }.listed c) := by
  refine ⟨fun c' => (setIndex_nEvents _).trans (h.events c'), hmap, fun c' => ?_, fun c' hc' => ?_⟩
  · by_cases hc : c' = c
    · subst hc
      simp [SelectPoller.listed]
    · change ((s.setIndex c .kAdded).channels c').nIndex ≠ .kNew ↔ _
      rw [setIndex_of_ne _ hc, h.index]
      by_cases hfd : fd c' = fd c
      · rw [hfd, update_self, Option.some.injEq]
        refine iff_of_false (fun hsome => ?_) (Ne.symm hc)
        rcases hfree with hfree | hfree
        · rw [hfree] at hsome
          cases hsome
        · rw [hfree, Option.some.injEq] at hsome
          exact hc hsome.symm
      · rw [update_of_ne hfd]
  · rw [SelectPoller.listed, List.map_append, List.mem_append]
    by_cases hc : c' = c
    · exact Or.inr (List.mem_singleton.mpr (by rw [hc]))
    · have hold : (s.channels c').nIndex = .kAdded :=
        (congrArg Channel.nIndex (setIndex_of_ne _ hc)).symm.trans hc'
      exact Or.inl (h.added c' hold)

theorem dropped (h : Follows fd want hold s) (hc : hold (fd c) = some c) :
    Follows fd want hold
      ({ s with m_vecEvents := s.m_vecEvents.eraseP fun iter => iter.ptr = some c }.setIndex c
        .kDeleted) := by
  refine ⟨fun c' => (setIndex_nEvents _).trans (h.events c'), h.map, fun c' => ?_, fun c' hc' => ?_⟩
  · by_cases heq : c' = c
    · subst heq
      simp [hc]
    · rw [setIndex_of_ne _ heq]
      exact h.index c'
  · have hne : c' ≠ c := by
      rintro rfl
      rw [setIndex_self] at hc'
      cases hc'
    rw [setIndex_of_ne _ hne] at hc'
    exact mem_map_ptr_eraseP hne (h.added c' hc')

theorem changed (h : Follows fd want hold s) :
    Follows fd want hold
      { s with m_vecEvents := modifyFirst c (s.channels c).nEvents s.m_vecEvents } := by
  refine ⟨h.events, h.map, h.index, fun c' hc' => ?_⟩
  rw [map_ptr_modifyFirst]
  exact h.added c' hc'

/-- A channel is refused where another one holds its descriptor. -/
theorem updateChannel (h : Follows fd want hold s) (c : Chan) :
    ((s.updateChannel fd c).1 = true ↔ hold (fd c) = none ∨ hold (fd c) = some c) ∧
    Follows fd want (update hold (fd c) ((hold (fd c)).or (some c))) (s.updateChannel fd c).2 := by
  have hkeep : ∀ other, hold (fd c) = some other →
      update hold (fd c) ((hold (fd c)).or (some c)) = hold := by
    intro other hother
    rw [hother, Option.some_or, ← hother, update_eq_self]
  cases hindex : (s.channels c).nIndex with
  | kNew =>
      have hnot : hold (fd c) ≠ some c := fun hc => (h.index c).mpr hc hindex
      cases hholder : hold (fd c) with
      | none =>
          rw [updateChannel_new hindex (by rw [h.map, hholder]), Option.none_or]
          refine ⟨iff_of_true rfl (Or.inl rfl), h.listed (fun k => ?_) (Or.inl hholder)⟩
          rw [Std.TreeMap.getElem?_insert, h.map, update_apply]
          simp only [compare_eq_iff_eq, eq_comm (a := k)]
      | some other =>
          rw [← hholder, hkeep other hholder,
            updateChannel_occupied hindex (by rw [h.map, hholder]; exact Option.some_ne_none _)]
          refine ⟨iff_of_false Bool.false_ne_true ?_, h⟩
          rintro (hnone | hc)
          · rw [hholder] at hnone
            cases hnone
          · exact hnot hc
  | kDeleted =>
      have hc : hold (fd c) = some c := (h.index c).mp (by rw [hindex]; decide)
      rw [hkeep c hc, updateChannel_deleted hindex (by rw [h.map, hc])]
      refine ⟨iff_of_true rfl (Or.inr hc), ?_⟩
      have hmap : ∀ k, s.mapChannels[k]? = update hold (fd c) (some c) k := by
        rw [← hc, update_eq_self]
        exact h.map
      have hlisted := h.listed hmap (Or.inr hc)
      rwa [← hc, update_eq_self] at hlisted
  | kAdded =>
      have hc : hold (fd c) = some c := (h.index c).mp (by rw [hindex]; decide)
      have hany := any_ptr_iff.mpr (h.added c hindex)
      rw [hkeep c hc]
      by_cases hnone : (s.channels c).isNoneEvent
      · rw [updateChannel_drop hindex (by rw [h.map, hc]) hnone hany]
        exact ⟨iff_of_true rfl (Or.inr hc), h.dropped hc⟩
      · rw [updateChannel_change hindex (by rw [h.map, hc]) hnone hany]
        exact ⟨iff_of_true rfl (Or.inr hc), h.changed⟩

theorem removeChannel (h : Follows fd want hold s) (c : Chan) :
    Follows fd want (if hold (fd c) = some c ∧ want c = {} then update hold (fd c) none else hold)
      (s.removeChannel fd c) := by
  by_cases hremoved : hold (fd c) = some c ∧ want c = {}
  · obtain ⟨hc, hwant⟩ := hremoved
    have hnone : (s.channels c).isNoneEvent := by
      rw [Channel.isNoneEvent, h.events, Wanted.mask_eq_none_iff, hwant]
    have hremove : s.removeChannel fd c =
        { s with mapChannels := s.mapChannels.erase (fd c) }.setIndex c .kNew := by
      simp [SelectPoller.removeChannel, h.map, hc, hnone]
    rw [if_pos ⟨hc, hwant⟩, hremove]
    refine ⟨fun c' => (setIndex_nEvents _).trans (h.events c'), fun k => ?_, fun c' => ?_,
      fun c' hc' => ?_⟩
    · change (s.mapChannels.erase (fd c))[k]? = _
      rw [Std.TreeMap.getElem?_erase, h.map, update_apply]
      simp only [compare_eq_iff_eq, eq_comm (a := k)]
    · by_cases heq : c' = c
      · subst heq
        simp
      · rw [setIndex_of_ne _ heq]
        change (s.channels c').nIndex ≠ .kNew ↔ _
        rw [h.index]
        by_cases hfd : fd c' = fd c
        · rw [hfd, update_self, hc, Option.some.injEq]
          exact iff_of_false (Ne.symm heq) nofun
        · rw [update_of_ne hfd]
    · have hne : c' ≠ c := by
        rintro rfl
        rw [setIndex_self] at hc'
        cases hc'
      rw [setIndex_of_ne _ hne] at hc'
      exact h.added c' hc'
  · have hremove : s.removeChannel fd c = s := by
      unfold SelectPoller.removeChannel
      rw [h.map]
      split_ifs with hnone hother hevents
      · rfl
      · rfl
      · refine absurd ⟨not_not.mp hother, ?_⟩ hremoved
        rw [← Wanted.mask_eq_none_iff, ← h.events]
        exact hevents
      · rfl
    rw [if_neg hremoved, hremove]
    exact h

theorem poll (h : Follows fd want hold s) {FD_SETSIZE : ℕ} {readfds writefds : List ℤ}
    (hread : readfds.Sublist (s.offered FD_SETSIZE).1)
    (hwrite : writefds.Sublist (s.offered FD_SETSIZE).2) :
    (s.poll (some (readfds, writefds))).1 = ready readfds writefds s.mapChannels.toList ∧
      Follows fd want hold (s.poll (some (readfds, writefds))).2 := by
  obtain ⟨n, hpoll⟩ := poll_eq hread hwrite fun c => by
    rw [h.events]
    exact (want c).mask_or
  rw [hpoll]
  refine ⟨rfl, h.events, h.map, h.index, fun c hc => ?_⟩
  rw [List.map_append, List.mem_append]
  exact Or.inl (h.added c hc)

end SelectPoller.Follows

inductive SelectEvent (Chan : Type)
  | call (c : Chan) (call : InterestCall) (result : Bool)
  | removeChannel (c : Chan)
  | poll (activeChannels : List Chan)

inductive SelectStep (FD_SETSIZE : ℕ) (fd : Chan → ℤ) (s : SelectPoller Chan) :
    SelectEvent Chan → SelectPoller Chan → Prop
  | call (c : Chan) (call : InterestCall) :
      SelectStep FD_SETSIZE fd s (.call c call (s.call fd c call).1) (s.call fd c call).2
  | removeChannel (c : Chan) :
      SelectStep FD_SETSIZE fd s (.removeChannel c) (s.removeChannel fd c)
  | fails : SelectStep FD_SETSIZE fd s (.poll (s.poll none).1) (s.poll none).2
  | poll (readfds writefds : List ℤ) (hread : readfds.Sublist (s.offered FD_SETSIZE).1)
      (hwrite : writefds.Sublist (s.offered FD_SETSIZE).2) :
      SelectStep FD_SETSIZE fd s (.poll (s.poll (some (readfds, writefds))).1)
        (s.poll (some (readfds, writefds))).2

/-- What is wanted of the channels after a call. -/
def SelectEvent.wants (want : Chan → Wanted) : SelectEvent Chan → Chan → Wanted
  | .call c interest _ => update want c (interest.wants (want c))
  | .removeChannel _ => want
  | .poll _ => want

/-- A channel is entered for its descriptor if none is, and stays until it is removed with nothing
wanted of it. -/
def SelectEvent.holds (fd : Chan → ℤ) (want : Chan → Wanted) (hold : ℤ → Option Chan) :
    SelectEvent Chan → ℤ → Option Chan
  | .call c _ _ => update hold (fd c) ((hold (fd c)).or (some c))
  | .removeChannel c =>
    if hold (fd c) = some c ∧ want c = {} then update hold (fd c) none else hold
  | .poll _ => hold

/-- What is wanted of each channel after the calls, the newest first. -/
def wanted : List (SelectEvent Chan) → Chan → Wanted
  | [] => fun _ => {}
  | e :: calls => e.wants (wanted calls)

/-- The channel that holds a descriptor after the calls. -/
def holder (fd : Chan → ℤ) : List (SelectEvent Chan) → ℤ → Option Chan
  | [] => fun _ => none
  | e :: calls => e.holds fd (wanted calls) (holder fd calls)

variable {FD_SETSIZE : ℕ} {fd : Chan → ℤ} {s s' : SelectPoller Chan}
  {trace : List (Transition (SelectPoller Chan) (SelectEvent Chan))}

theorem SelectStep.follows {want : Chan → Wanted} {hold : ℤ → Option Chan} {e : SelectEvent Chan}
    (hs : SelectStep FD_SETSIZE fd s e s') (h : Follows fd want hold s) :
    Follows fd (e.wants want) (e.holds fd want hold) s' := by
  cases hs with
  | call c call =>
      have hcall := ((h.setEvents c call).updateChannel c).2
      exact hcall
  | removeChannel c => exact h.removeChannel c
  | fails => exact h
  | poll readfds writefds hread hwrite => exact (h.poll hread hwrite).2

theorem follows_start (fd : Chan → ℤ) : Follows fd (wanted []) (holder fd []) {} := by
  refine ⟨fun c => ((Wanted.mask_eq_none_iff {}).mpr rfl).symm,
    fun k => Std.TreeMap.getElem?_emptyc, fun c => ?_, fun c hc => ?_⟩
  · exact iff_of_false (fun h => h rfl) nofun
  · cases hc

theorem followsCalls_of_run (run : Run (SelectStep FD_SETSIZE fd) {} trace s) :
    Follows fd (wanted (labels trace)) (holder fd (labels trace)) s :=
  run.invariant_labels (P := fun calls s => Follows fd (wanted calls) (holder fd calls) s)
    (follows_start fd) fun _ _ _ _ h hs => hs.follows h

theorem fd_of_holder {calls : List (SelectEvent Chan)} {k : ℤ} {c : Chan}
    (h : holder fd calls k = some c) : fd c = k := by
  induction calls generalizing k c with
  | nil => cases h
  | cons e calls ih =>
      cases e with
      | call c' call result =>
          rw [holder, SelectEvent.holds, update_apply] at h
          split_ifs at h with hk
          · rcases Option.or_eq_some_iff.mp h with h | ⟨-, h⟩
            · exact (ih h).trans hk.symm
            · rw [← Option.some.inj h, hk]
          · exact ih h
      | removeChannel c' =>
          rw [holder, SelectEvent.holds] at h
          split_ifs at h
          · rw [update_apply] at h
            split_ifs at h
            exact ih h
          · exact ih h
      | poll activeChannels => exact ih h

/-- The members of a list are those with `P`, in order. -/
def Ascending (ks : List ℤ) (P : ℤ → Prop) : Prop := ks.Pairwise (· < ·) ∧ ∀ k, k ∈ ks ↔ P k

omit [DecidableEq Chan] in
theorem ascending_entries (s : SelectPoller Chan) (p : ℤ × Chan → Prop) [DecidablePred p] :
    Ascending ((s.mapChannels.toList.filter fun e => p e).map Prod.fst)
      fun k => ∃ c, s.mapChannels[k]? = some c ∧ p (k, c) := by
  refine ⟨?_, fun k => ?_⟩
  · rw [List.pairwise_map]
    refine (s.mapChannels.ordered_keys_toList.imp fun h => ?_).filter _
    exact compare_lt_iff_lt.mp h
  · rw [List.mem_map]
    constructor
    · rintro ⟨⟨k', c⟩, he, rfl⟩
      rw [List.mem_filter, decide_eq_true_eq, Std.TreeMap.mem_toList_iff_getElem?_eq_some] at he
      exact ⟨c, he⟩
    · rintro ⟨c, hc, hp⟩
      refine ⟨(k, c), List.mem_filter.mpr ⟨?_, decide_eq_true hp⟩, rfl⟩
      exact Std.TreeMap.mem_toList_iff_getElem?_eq_some.mpr hc

section Polls
variable {calls : List (SelectEvent Chan)} {readfds writefds : List ℤ}

theorem SelectPoller.Follows.asking (h : Follows fd (wanted calls) (holder fd calls) s)
    (events : BitVec 32) : Ascending (s.asking events s.mapChannels.toList) fun k =>
      ∃ c, holder fd calls k = some c ∧ (wanted calls c).mask &&& events ≠ 0 := by
  simp only [← h.map, ← h.events]
  exact ascending_entries s fun e => (s.channels e.2).nEvents &&& events ≠ 0

/-- A poll finds the channels of all descriptors that are ready. -/
theorem SelectPoller.Follows.active (h : Follows fd (wanted calls) (holder fd calls) s)
    (hread : readfds.Sublist (s.offered FD_SETSIZE).1)
    (hwrite : writefds.Sublist (s.offered FD_SETSIZE).2) :
    Ascending ((s.poll (some (readfds, writefds))).1.map fd)
      (fun k => k ∈ readfds ∨ k ∈ writefds) ∧
    ∀ c ∈ (s.poll (some (readfds, writefds))).1, holder fd calls (fd c) = some c := by
  have hheld : ∀ e ∈ s.mapChannels.toList, fd e.2 = e.1 ∧ holder fd calls (fd e.2) = some e.2 := by
    intro e he
    have hc := Std.TreeMap.mem_toList_iff_getElem?_eq_some.mp he
    rw [h.map] at hc
    have hfd := fd_of_holder hc
    exact ⟨hfd, by rw [hfd, hc]⟩
  rw [(h.poll hread hwrite).1]
  constructor
  · have hready := ascending_entries s fun e => e.1 ∈ readfds ∨ e.1 ∈ writefds
    have hkeys : (ready readfds writefds s.mapChannels.toList).map fd =
        (s.mapChannels.toList.filter fun e => e.1 ∈ readfds ∨ e.1 ∈ writefds).map Prod.fst := by
      rw [ready, List.map_map]
      exact List.map_congr_left fun e he => (hheld e (List.mem_of_mem_filter he)).1
    rw [hkeys]
    refine ⟨hready.1, fun k => (hready.2 k).trans ⟨?_, fun hk => ?_⟩⟩
    · rintro ⟨c, -, hk⟩
      exact hk
    · have hasked : ∃ c, s.mapChannels[k]? = some c := by
        rw [offered_eq] at hread hwrite
        rw [h.map]
        rcases hk with hk | hk
        · obtain ⟨c, hc, -⟩ := ((h.asking _).2 k).mp (List.mem_of_mem_take (hread.subset hk))
          exact ⟨c, hc⟩
        · obtain ⟨c, hc, -⟩ := ((h.asking _).2 k).mp (List.mem_of_mem_take (hwrite.subset hk))
          exact ⟨c, hc⟩
      obtain ⟨c, hc⟩ := hasked
      exact ⟨c, hc, hk⟩
  · intro c hc
    obtain ⟨e, he, rfl⟩ := List.mem_map.mp hc
    exact (hheld e (List.mem_of_mem_filter he)).2

end Polls

/-- In every run: a call is refused exactly where another channel holds the descriptor, and each
channel stays interested in what is wanted of it. A poll asks for the first descriptors, as many as
there is room for, whose channels want to be read or written, and finds the channels of all
descriptors that are ready. -/
theorem select_reports_what_is_wanted (run : Run (SelectStep FD_SETSIZE fd) {} trace s) :
    (∀ later c call result earlier,
      labels trace = later ++ .call c call result :: earlier →
        (result = true ↔ holder fd earlier (fd c) = none ∨ holder fd earlier (fd c) = some c)) ∧
    (∀ c, (s.channels c).nEvents = (wanted (labels trace) c).mask) ∧
    (∃ readers writers,
      Ascending readers (fun k => ∃ c, holder fd (labels trace) k = some c ∧
        (wanted (labels trace) c).reading = true) ∧
      Ascending writers (fun k => ∃ c, holder fd (labels trace) k = some c ∧
        (wanted (labels trace) c).writing = true) ∧
      s.offered FD_SETSIZE = (readers.take FD_SETSIZE, writers.take FD_SETSIZE)) ∧
    ∀ readfds writefds, readfds.Sublist (s.offered FD_SETSIZE).1 →
      writefds.Sublist (s.offered FD_SETSIZE).2 →
        Ascending ((s.poll (some (readfds, writefds))).1.map fd)
          (fun k => k ∈ readfds ∨ k ∈ writefds) ∧
        ∀ c ∈ (s.poll (some (readfds, writefds))).1,
          holder fd (labels trace) (fd c) = some c := by
  have h := followsCalls_of_run run
  have hread := h.asking XPOLLIN
  have hwrite := h.asking XPOLLOUT
  simp only [Wanted.mask_read_iff] at hread
  simp only [Wanted.mask_write_iff] at hwrite
  refine ⟨?_, h.events, ⟨_, _, hread, hwrite, offered_eq s⟩, fun _ _ hr hw => h.active hr hw⟩
  intro later c call result earlier hsplit
  refine run.each_label (P := fun calls s => Follows fd (wanted calls) (holder fd calls) s)
    (Q := fun calls e => ∀ c call result, e = .call c call result →
      (result = true ↔ holder fd calls (fd c) = none ∨ holder fd calls (fd c) = some c))
    (follows_start fd) ?_ hsplit c call result rfl
  intro calls s e s' hs hstep
  refine ⟨hstep.follows hs, ?_⟩
  rintro c call result rfl
  cases hstep with
  | call => exact ((hs.setEvents c call).updateChannel c).1

/-- A channel that is enabled is found when it is ready. -/
theorem select_reports_what_is_wanted_one : ∃ trace s,
    Run (SelectStep 64 fun _ : Unit => 5) {} trace s ∧
      labels trace = [.call () .enableReading true] ∧
      (s.poll (some ([5], []))).1.map (fun _ => (5 : ℤ)) ≠ [] := by
  have run : Run (SelectStep 64 fun _ : Unit => (5 : ℤ)) {} _ _ :=
    .next .start (.call () .enableReading)
  refine ⟨_, _, run, rfl, fun hnil => ?_⟩
  have hfound := ((select_reports_what_is_wanted run).2.2.2 [5] [] (by decide) (by decide)).1.2 5
  rw [hnil] at hfound
  exact absurd (hfound.mpr (Or.inl List.mem_cons_self)) List.not_mem_nil

end Runs

end Yedis
