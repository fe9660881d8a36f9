import Yedis.SelectPoller

/-!
# Both pollers agree

As long as no report disturbs the channels of an `EPollPoller`, its interest table
holds the entries of `m_vecEvents`, and it answers the same calls in the same way. The
polls of a `SelectPoller` disturb nothing.
-/

namespace Yedis
open Function Runs

variable {Chan : Type} [DecidableEq Chan]

/-- The calls of channels on an `EPollPoller`. -/
inductive EPollStep (fd : Chan → ℤ) (e : EPollPoller Chan) :
    SelectEvent Chan → EPollPoller Chan → Prop
  | call (c : Chan) (call : InterestCall) :
      EPollStep fd e (.call c call (call.run fd c e).1) (call.run fd c e).2
  | removeChannel (c : Chan) : EPollStep fd e (.removeChannel c) (e.removeChannel fd c)

def SelectEvent.isCall : SelectEvent Chan → Bool
  | .poll _ => false
  | _ => true

/-- A channel that is added is not removed while nothing is wanted of it. -/
def RemovesDeleted (s : SelectPoller Chan) (event : SelectEvent Chan) : Prop :=
  ∀ c, event = .removeChannel c → (s.channels c).nIndex = .kAdded → ¬ (s.channels c).isNoneEvent

/-- The same channels are in the same places and registered with the same events. -/
structure Agrees (fd : Chan → ℤ) (s : SelectPoller Chan) (e : EPollPoller Chan) : Prop where
  channels : e.channels = s.channels
  map : ∀ k, e.mapChannels k = s.mapChannels[k]?
  table : ∀ c events, e.table (fd c) = some ⟨events, c⟩ ↔ ⟨events, some c⟩ ∈ s.m_vecEvents
  owner : ∀ k event, e.table k = some event →
    fd event.ptr = k ∧ (s.channels event.ptr).nIndex = .kAdded
  once : (s.m_vecEvents.filterMap EpollEvent.ptr).Nodup

namespace SelectPoller

theorem mem_modifyFirst_of_ne {c c' : Chan} (h : c' ≠ c) {events events' : BitVec 32}
    {m_vecEvents : List (EpollEvent (Option Chan))} :
    ⟨events', some c'⟩ ∈ modifyFirst c events m_vecEvents ↔ ⟨events', some c'⟩ ∈ m_vecEvents := by
  induction m_vecEvents with
  | nil => exact Iff.rfl
  | cons iter rest ih =>
      rw [modifyFirst]
      split_ifs with hptr
      · have hne : ∀ iter' : EpollEvent (Option Chan), iter'.ptr = some c →
            ⟨events', some c'⟩ ≠ iter' := by
          rintro iter' hptr' rfl
          exact h (Option.some.inj hptr')
        have hchanged := hne ⟨events, iter.ptr⟩ hptr
        rw [List.mem_cons, List.mem_cons, or_iff_right hchanged, or_iff_right (hne _ hptr)]
      · rw [List.mem_cons, List.mem_cons, ih]

/-- Where the channel has one entry, that is the entry with its new events. -/
theorem mem_modifyFirst {c : Chan} {events events' : BitVec 32}
    {m_vecEvents : List (EpollEvent (Option Chan))}
    (honce : (m_vecEvents.filterMap EpollEvent.ptr).Nodup)
    (hmem : some c ∈ m_vecEvents.map EpollEvent.ptr) :
    ⟨events', some c⟩ ∈ modifyFirst c events m_vecEvents ↔ events' = events := by
  induction m_vecEvents with
  | nil => cases hmem
  | cons iter rest ih =>
      rw [modifyFirst]
      split_ifs with hptr
      · rw [List.filterMap_cons, hptr, List.nodup_cons] at honce
        have hlater : ⟨events', some c⟩ ∉ rest := fun hin =>
          honce.1 (List.mem_filterMap.mpr ⟨_, hin, rfl⟩)
        rw [List.mem_cons, or_iff_left hlater, hptr, EpollEvent.mk.injEq, and_iff_left rfl]
      · have hne : ⟨events', some c⟩ ≠ iter := by
          rintro rfl
          exact hptr rfl
        rw [List.map_cons, List.mem_cons, or_iff_right (Ne.symm hptr)] at hmem
        have hrest : (rest.filterMap EpollEvent.ptr).Nodup :=
          honce.sublist ((List.sublist_cons_self iter rest).filterMap _)
        rw [List.mem_cons, or_iff_right hne, ih hrest hmem]

theorem not_mem_eraseP {c : Chan} {events : BitVec 32}
    {m_vecEvents : List (EpollEvent (Option Chan))}
    (honce : (m_vecEvents.filterMap EpollEvent.ptr).Nodup) :
    ⟨events, some c⟩ ∉ m_vecEvents.eraseP fun iter => iter.ptr = some c := by
  induction m_vecEvents with
  | nil => exact List.not_mem_nil
  | cons iter rest ih =>
      by_cases hptr : iter.ptr = some c
      · rw [List.eraseP_cons_of_pos (by simpa using hptr)]
        rw [List.filterMap_cons, hptr, List.nodup_cons] at honce
        exact fun hin => honce.1 (List.mem_filterMap.mpr ⟨_, hin, rfl⟩)
      · have hne : ⟨events, some c⟩ ≠ iter := by
          rintro rfl
          exact hptr rfl
        have hrest : (rest.filterMap EpollEvent.ptr).Nodup :=
          honce.sublist ((List.sublist_cons_self iter rest).filterMap _)
        rw [List.eraseP_cons_of_neg (by simpa using hptr), List.mem_cons, or_iff_right hne]
        exact ih hrest

theorem filterMap_ptr_modifyFirst (c : Chan) (events : BitVec 32)
    (m_vecEvents : List (EpollEvent (Option Chan))) :
    (modifyFirst c events m_vecEvents).filterMap EpollEvent.ptr =
      m_vecEvents.filterMap EpollEvent.ptr := by
  have hmap := congrArg (List.filterMap id) (map_ptr_modifyFirst c events m_vecEvents)
  rwa [List.filterMap_map, List.filterMap_map, Function.id_comp] at hmap

end SelectPoller

namespace Agrees
open SelectPoller
variable {fd : Chan → ℤ} {want : Chan → Wanted} {hold : ℤ → Option Chan} {s : SelectPoller Chan}
  {e : EPollPoller Chan} {c : Chan}

theorem setEvents (h : Agrees fd s e) (c : Chan) (m : BitVec 32) :
    Agrees fd (s.setEvents c m) (e.setEvents c m) := by
  refine ⟨?_, h.map, h.table, fun k event hk => ?_, h.once⟩
  · rw [EPollPoller.setEvents, SelectPoller.setEvents, h.channels]
  · rw [setEvents_index]
    exact h.owner k event hk

omit [DecidableEq Chan] in
/-- An added channel is in the table, and so in the place of its descriptor. -/
theorem owner_hold (h : Agrees fd s e) (hs : Follows fd want hold s) {k : ℤ}
    {event : EpollEvent Chan} (hk : e.table k = some event) : hold k = some event.ptr := by
  obtain ⟨hfd, hadded⟩ := h.owner k event hk
  rw [← hfd, ← hs.index, hadded]
  decide

omit [DecidableEq Chan] in
theorem table_eq_none (h : Agrees fd s e) (hs : Follows fd want hold s)
    (hfree : hold (fd c) = none ∨ hold (fd c) = some c)
    (hindex : (s.channels c).nIndex ≠ .kAdded) : e.table (fd c) = none := by
  rw [Option.eq_none_iff_forall_ne_some]
  intro event hevent
  have hhold := h.owner_hold hs hevent
  rcases hfree with hfree | hfree
  · rw [hfree] at hhold
    cases hhold
  · rw [hfree, Option.some.injEq] at hhold
    rw [hhold] at hindex
    exact hindex (h.owner _ event hevent).2

omit [DecidableEq Chan] in
theorem table_eq_some (h : Agrees fd s e) (hs : Follows fd want hold s)
    (hindex : (s.channels c).nIndex = .kAdded) : ∃ events, e.table (fd c) = some ⟨events, c⟩ := by
  obtain ⟨⟨events, ptr⟩, hmem, rfl⟩ := List.mem_map.mp (hs.added c hindex)
  exact ⟨events, (h.table c events).mpr hmem⟩

omit [DecidableEq Chan] in
theorem placed (h : Agrees fd s e) (hs : Follows fd want hold s)
    (hfree : hold (fd c) = none ∨ hold (fd c) = some c) : e.Placed fd c := by
  rw [EPollPoller.Placed, h.map, hs.map, h.channels]
  split_ifs with hnew
  · exact hfree.resolve_right fun hc => (hs.index c).mpr hc hnew
  · exact (hs.index c).mp hnew

omit [DecidableEq Chan] in
theorem registered (h : Agrees fd s e) (hs : Follows fd want hold s)
    (hfree : hold (fd c) = none ∨ hold (fd c) = some c) : e.Registered fd c := by
  rw [EPollPoller.Registered, h.channels]
  by_cases hindex : (s.channels c).nIndex = .kAdded
  · obtain ⟨old, hold⟩ := h.table_eq_some hs hindex
    exact iff_of_true hindex (by rw [hold]; rfl)
  · exact iff_of_false hindex (by rw [h.table_eq_none hs hfree hindex]; exact Bool.false_ne_true)

/-- A new entry, where the table has none. -/
theorem listed (h : Agrees fd s e) (htable : e.table (fd c) = none)
    {mapChannels : Std.TreeMap ℤ Chan}
    (hmap : ∀ k, mapChannels[k]? = update e.mapChannels (fd c) (some c) k) :
    Agrees fd ({ s with mapChannels := mapChannels }.listed c)
      ({ e with
        mapChannels := update e.mapChannels (fd c) (some c)
        table := update e.table (fd c) (some ⟨(e.channels c).nEvents, c⟩) }.setIndex c
          .kAdded) := by
  have hnew : ∀ c', fd c' = fd c → ∀ events, ⟨events, some c'⟩ ∉ s.m_vecEvents := by
    intro c' hfd events hmem
    rw [← h.table, hfd, htable] at hmem
    cases hmem
  refine ⟨?_, fun k => (hmap k).symm, fun c' events => ?_, fun k event hk => ?_, ?_⟩
  · change update e.channels c _ = update s.channels c _
    rw [h.channels]
  · change update e.table (fd c) _ (fd c') = _ ↔ _ ∈ s.m_vecEvents ++ _
    rw [List.mem_append, List.mem_singleton, h.channels]
    by_cases hfd : fd c' = fd c
    · rw [hfd, update_self, or_iff_right (hnew c' hfd events), Option.some.injEq,
        EpollEvent.mk.injEq, EpollEvent.mk.injEq, Option.some.injEq]
      exact and_congr eq_comm eq_comm
    · rw [update_of_ne hfd, h.table, or_iff_left]
      rintro heq
      rw [EpollEvent.mk.injEq, Option.some.injEq] at heq
      exact hfd (congrArg fd heq.2)
  · change update e.table (fd c) _ k = _ at hk
    change _ ∧ ((s.setIndex c .kAdded).channels event.ptr).nIndex = .kAdded
    rw [update_apply] at hk
    split_ifs at hk with hfd
    · rw [← Option.some.inj hk, hfd, setIndex_self]
      exact ⟨rfl, rfl⟩
    · obtain ⟨howner, hadded⟩ := h.owner k event hk
      refine ⟨howner, ?_⟩
      by_cases hc : event.ptr = c
      · rw [hc, setIndex_self]
      · rw [setIndex_of_ne _ hc, hadded]
  · change ((s.m_vecEvents ++ _).filterMap EpollEvent.ptr).Nodup
    rw [List.filterMap_append, List.nodup_append]
    refine ⟨h.once, List.nodup_singleton c, ?_⟩
    rintro c' hc' c'' hc'' rfl
    obtain rfl : c' = c := List.mem_singleton.mp hc''
    obtain ⟨⟨events, ptr⟩, hmem, rfl⟩ := List.mem_filterMap.mp hc'
    exact hnew _ rfl events hmem

/-- The entry is erased. -/
theorem dropped (h : Agrees fd s e) (hs : Follows fd want hold s)
    (hindex : (s.channels c).nIndex = .kAdded) :
    Agrees fd
      ({ s with m_vecEvents := s.m_vecEvents.eraseP fun iter => iter.ptr = some c }.setIndex c
        .kDeleted)
      ({ e with table := update e.table (fd c) none }.setIndex c .kDeleted) := by
  obtain ⟨old, hold⟩ := h.table_eq_some hs hindex
  refine ⟨?_, h.map, fun c' events => ?_, fun k event hk => ?_, ?_⟩
  · change update e.channels c _ = update s.channels c _
    rw [h.channels]
  · change update e.table (fd c) none (fd c') = _ ↔ _ ∈ s.m_vecEvents.eraseP _
    by_cases hc : c' = c
    · subst hc
      rw [update_self]
      exact iff_of_false nofun (not_mem_eraseP h.once)
    · rw [List.mem_eraseP_of_neg (by simpa using hc), ← h.table]
      by_cases hfd : fd c' = fd c
      · rw [hfd, update_self, hold, Option.some.injEq, EpollEvent.mk.injEq]
        exact iff_of_false nofun fun heq => hc heq.2.symm
      · rw [update_of_ne hfd]
  · change update e.table (fd c) none k = _ at hk
    change _ ∧ ((s.setIndex c .kDeleted).channels event.ptr).nIndex = .kAdded
    rw [update_apply] at hk
    split_ifs at hk with hfd
    obtain ⟨howner, hadded⟩ := h.owner k event hk
    have hc : event.ptr ≠ c := by
      intro hc
      exact hfd (by rw [← howner, hc])
    exact ⟨howner, by rw [setIndex_of_ne _ hc, hadded]⟩
  · exact h.once.sublist (List.eraseP_sublist.filterMap _)

/-- The events of the entry are changed. -/
theorem changed (h : Agrees fd s e) (hs : Follows fd want hold s)
    (hindex : (s.channels c).nIndex = .kAdded) :
    Agrees fd
      { s with m_vecEvents := modifyFirst c (s.channels c).nEvents s.m_vecEvents }
      { e with table := update e.table (fd c) (some ⟨(e.channels c).nEvents, c⟩) } := by
  obtain ⟨old, hold⟩ := h.table_eq_some hs hindex
  refine ⟨h.channels, h.map, fun c' events => ?_, fun k event hk => ?_, ?_⟩
  · change update e.table (fd c) _ (fd c') = _ ↔ _ ∈ modifyFirst c _ s.m_vecEvents
    by_cases hc : c' = c
    · subst hc
      rw [update_self, mem_modifyFirst h.once (hs.added c' hindex), Option.some.injEq,
        EpollEvent.mk.injEq, and_iff_left rfl, h.channels]
      exact eq_comm
    · rw [mem_modifyFirst_of_ne hc, ← h.table]
      by_cases hfd : fd c' = fd c
      · rw [hfd, update_self, hold, Option.some.injEq, Option.some.injEq, EpollEvent.mk.injEq,
          EpollEvent.mk.injEq]
        exact iff_of_false (fun heq => hc heq.2.symm) fun heq => hc heq.2.symm
      · rw [update_of_ne hfd]
  · change update e.table (fd c) _ k = _ at hk
    rw [update_apply] at hk
    split_ifs at hk with hfd
    · rw [← Option.some.inj hk]
      exact ⟨hfd.symm, hindex⟩
    · exact h.owner k event hk
  · rw [filterMap_ptr_modifyFirst]
    exact h.once

/-- A channel whose events are changed is registered in the same way, or refused by both. -/
theorem updateChannel (h : Agrees fd s e) (hs : Follows fd want hold s) (c : Chan) :
    (e.updateChannel fd c).1 = (s.updateChannel fd c).1 ∧
      Agrees fd (s.updateChannel fd c).2 (e.updateChannel fd c).2 := by
  have hmap : ∀ k, e.mapChannels k = hold k := fun k => (h.map k).trans (hs.map k)
  have hsame : hold (fd c) = some c → update e.mapChannels (fd c) (some c) = e.mapChannels := by
    intro hc
    rw [← hc, ← hmap, update_eq_self]
  have hchannel : e.channels c = s.channels c := by rw [h.channels]
  cases hindex : (s.channels c).nIndex with
  | kNew =>
      cases hholder : hold (fd c) with
      | none =>
          have htable := h.table_eq_none hs (Or.inl hholder) (by rw [hindex]; decide)
          have hput := EPollPoller.updateChannel_eq (h.placed hs (Or.inl hholder))
            (h.registered hs (Or.inl hholder))
          rw [updateChannel_new hindex (by rw [hs.map, hholder]), hput, EPollPoller.updated,
            if_neg (by simp [hchannel, hindex])]
          refine ⟨rfl, h.listed htable fun k => ?_⟩
          rw [Std.TreeMap.getElem?_insert, ← h.map, update_apply]
          simp only [compare_eq_iff_eq, eq_comm (a := k)]
      | some other =>
          have hrefused : e.updateChannel fd c = (false, e) := by
            simp [EPollPoller.updateChannel, hchannel, hindex, hmap, hholder]
          rw [updateChannel_occupied hindex (by rw [hs.map, hholder]; exact Option.some_ne_none _),
            hrefused]
          exact ⟨rfl, h⟩
  | kDeleted =>
      have hc : hold (fd c) = some c := (hs.index c).mp (by rw [hindex]; decide)
      have htable := h.table_eq_none hs (Or.inr hc) (by rw [hindex]; decide)
      have hput := EPollPoller.updateChannel_eq (h.placed hs (Or.inr hc))
        (h.registered hs (Or.inr hc))
      rw [updateChannel_deleted hindex (by rw [hs.map, hc]), hput, EPollPoller.updated,
        if_neg (by simp [hchannel, hindex])]
      refine ⟨rfl, h.listed htable fun k => ?_⟩
      rw [hsame hc, h.map]
  | kAdded =>
      have hc : hold (fd c) = some c := (hs.index c).mp (by rw [hindex]; decide)
      have hany := any_ptr_iff.mpr (hs.added c hindex)
      have hput := EPollPoller.updateChannel_eq (h.placed hs (Or.inr hc))
        (h.registered hs (Or.inr hc))
      by_cases hnone : (s.channels c).isNoneEvent
      · rw [updateChannel_drop hindex (by rw [hs.map, hc]) hnone hany, hput, EPollPoller.updated,
          if_pos ⟨by rw [hchannel, hindex], by rw [hchannel]; exact hnone⟩]
        exact ⟨rfl, h.dropped hs hindex⟩
      · have hadded : update e.channels c ⟨(e.channels c).nEvents, .kAdded⟩ = e.channels := by
          rw [hchannel, ← hindex, h.channels]
          exact update_eq_self c s.channels
        have hset : { e with
            mapChannels := update e.mapChannels (fd c) (some c)
            table := update e.table (fd c) (some ⟨(e.channels c).nEvents, c⟩) }.setIndex c .kAdded =
              { e with table := update e.table (fd c) (some ⟨(e.channels c).nEvents, c⟩) } := by
          rw [EPollPoller.setIndex, hsame hc]
          simp only [hadded]
        rw [updateChannel_change hindex (by rw [hs.map, hc]) hnone hany, hput, EPollPoller.updated,
          if_neg (by rw [hchannel]; exact fun hand => hnone hand.2), hset]
        exact ⟨rfl, h.changed hs hindex⟩

theorem removeChannel (h : Agrees fd s e) (c : Chan)
    (hdeleted : (s.channels c).nIndex = .kAdded → ¬ (s.channels c).isNoneEvent) :
    Agrees fd (s.removeChannel fd c) (e.removeChannel fd c) := by
  unfold SelectPoller.removeChannel EPollPoller.removeChannel
  rw [h.map, h.channels]
  split_ifs with hnone hother hevents
  · exact h
  · exact h
  · refine ⟨?_, fun k => ?_, h.table, fun k event hk => ?_, h.once⟩
    · simp only [EPollPoller.setIndex, SelectPoller.setIndex]
    · change update e.mapChannels (fd c) none k = (s.mapChannels.erase (fd c))[k]?
      rw [Std.TreeMap.getElem?_erase, update_apply, h.map]
      simp only [compare_eq_iff_eq, eq_comm (a := k)]
    · obtain ⟨howner, hadded⟩ := h.owner k event hk
      have hc : event.ptr ≠ c := by
        intro hc
        rw [hc] at hadded
        exact hdeleted hadded hevents
      change _ ∧ ((s.setIndex c .kNew).channels event.ptr).nIndex = .kAdded
      exact ⟨howner, by rw [setIndex_of_ne _ hc, hadded]⟩
  · exact h

omit [DecidableEq Chan] in
/-- Entries without a channel are none of the table. -/
theorem padded (h : Agrees fd s e) (n : ℕ) :
    Agrees fd { s with m_vecEvents := s.m_vecEvents ++ List.replicate n ⟨0, none⟩ } e := by
  refine ⟨h.channels, h.map, fun c events => ?_, h.owner, ?_⟩
  · rw [h.table, List.mem_append, or_iff_left]
    intro hmem
    cases List.eq_of_mem_replicate hmem
  · have hnone : (List.replicate n (⟨0, none⟩ : EpollEvent (Option Chan))).filterMap
        EpollEvent.ptr = [] := by rw [List.filterMap_replicate]
    rw [List.filterMap_append, hnone, List.append_nil]
    exact h.once

end Agrees

section Runs
open SelectPoller
variable {FD_SETSIZE : ℕ} {fd : Chan → ℤ} {s s' : SelectPoller Chan} {e : EPollPoller Chan}
  {trace : List (Transition (SelectPoller Chan) (SelectEvent Chan))}

omit [DecidableEq Chan] in
theorem agrees_start (fd : Chan → ℤ) : Agrees fd {} {} := by
  refine ⟨rfl, fun k => Std.TreeMap.getElem?_emptyc.symm, fun c events => ?_, nofun, List.nodup_nil⟩
  exact iff_of_false nofun List.not_mem_nil

theorem Agrees.step {want : Chan → Wanted} {hold : ℤ → Option Chan} {event : SelectEvent Chan}
    (h : Agrees fd s e) (hs : Follows fd want hold s) (hremoves : RemovesDeleted s event)
    (hstep : SelectStep FD_SETSIZE fd s event s') :
    if event.isCall then ∃ e', EPollStep fd e event e' ∧ Agrees fd s' e' else Agrees fd s' e := by
  cases hstep with
  | call c call =>
      have hset := h.setEvents c (call.events (s.channels c).nEvents)
      obtain ⟨hresult, hagrees⟩ := hset.updateChannel (hs.setEvents c call) c
      have hrun : call.run fd c e =
          (e.setEvents c (call.events (s.channels c).nEvents)).updateChannel fd c := by
        rw [InterestCall.run, h.channels]
      rw [SelectPoller.call, ← hresult, ← hrun]
      rw [← hrun] at hagrees
      exact (if_pos rfl).mpr ⟨_, .call c call, hagrees⟩
  | removeChannel c =>
      exact (if_pos rfl).mpr ⟨_, .removeChannel c, h.removeChannel c (hremoves c rfl)⟩
  | fails => exact h
  | poll readfds writefds hread hwrite =>
      obtain ⟨n, hpoll⟩ := poll_eq hread hwrite fun c => by
        rw [hs.events]
        exact (want c).mask_or
      rw [hpoll]
      exact h.padded n

/-- In a run in which no channel is removed while it is added with nothing wanted of it, the calls
are answered as an `EPollPoller` answers them that is never polled. Their channels are in the same
states and places, and the entries of channels in `m_vecEvents` are those of its interest table,
in which each is an added channel's, under its descriptor. -/
theorem pollers_agree (run : Run (SelectStep FD_SETSIZE fd) {} trace s)
    (hremoves : ∀ t ∈ trace, RemovesDeleted t.src t.label) :
    ∃ (trace' : List (Transition (EPollPoller Chan) (SelectEvent Chan))) (e : EPollPoller Chan),
      Run (EPollStep fd) {} trace' e ∧
      labels trace' = (labels trace).filter SelectEvent.isCall ∧
      e.channels = s.channels ∧ (∀ k, e.mapChannels k = s.mapChannels[k]?) ∧
      (∀ c events, e.table (fd c) = some ⟨events, c⟩ ↔ ⟨events, some c⟩ ∈ s.m_vecEvents) ∧
      ∀ k event, e.table k = some event →
        fd event.ptr = k ∧ (s.channels event.ptr).nIndex = .kAdded := by
  have hsimulated : ∃ (trace' : List (Transition (EPollPoller Chan) (SelectEvent Chan)))
      (e : EPollPoller Chan), Run (EPollStep fd) {} trace' e ∧
        labels trace' = (labels trace).filter SelectEvent.isCall ∧
        (∃ want hold, Follows fd want hold s) ∧ Agrees fd s e := by
    refine run.simulates_visible
      (R := fun s e => (∃ want hold, Follows fd want hold s) ∧ Agrees fd s e)
      SelectEvent.isCall ⟨⟨_, _, follows_start fd⟩, agrees_start fd⟩ hremoves ?_
    rintro s event s' e ⟨⟨want, hold, hs⟩, h⟩ hremove hstep
    have hone := h.step hs hremove hstep
    split_ifs at hone ⊢
    · obtain ⟨e', hstep', hagrees⟩ := hone
      exact ⟨e', hstep', ⟨_, _, hstep.follows hs⟩, hagrees⟩
    · exact ⟨⟨_, _, hstep.follows hs⟩, hone⟩
  obtain ⟨trace', e, hrun, hlabels, -, h⟩ := hsimulated
  exact ⟨trace', e, hrun, hlabels, h.channels, h.map, h.table, h.owner⟩

/-- A channel is enabled and polled. -/
theorem pollers_agree_one : ∃ (trace : List (Transition (EPollPoller Unit) (SelectEvent Unit)))
    (e : EPollPoller Unit), Run (EPollStep fun _ => 5) {} trace e ∧
      labels trace = [.call () .enableReading true] ∧
      e.table 5 = some ⟨XPOLLIN ||| XPOLLPRI, ()⟩ := by
  have run₁ : Run (SelectStep 64 fun _ : Unit => (5 : ℤ)) {} _ _ :=
    .next .start (.call () .enableReading)
  have run₂ := run₁.next (.poll [5] [] (by decide) (by decide))
  obtain ⟨trace, e, hrun, hlabels, -, -, htable, -⟩ := pollers_agree run₂ (by
    refine List.forall_mem_cons.mpr ⟨?_, List.forall_mem_singleton.mpr ?_⟩
    · rintro c ⟨⟩
    · rintro c ⟨⟩)
  exact ⟨trace, e, hrun, hlabels, (htable () _).mpr List.mem_cons_self⟩

end Runs

end Yedis
