import Yedis.ConnectionTable

/-!
# Which connections the table holds

A `TcpConnection` never learns the name it was entered under, so `removeConnectionInLoop`
erases nothing and `connectDestroyed` is never called. The table is therefore right as
long as no connection has ended and no two share a name.
-/

namespace Yedis.Net
open Function Runs EPollPoller

variable {Conn Loop : Type} {fd : Conn → ℤ} {peer : Conn → SocketAddr}
  {onMessage : Conn → Buffer → Buffer}

theorem strConnName_ne_nil (m_strName : Bytes) (addr : SocketAddr) (id : ℤ) :
    strConnName m_strName addr id ≠ [] := by
  have hcolon : ascii ":" = [58] := rfl
  rw [strConnName, hcolon]
  simp

/-- What a loop has is what it was given or what it had. -/
theorem mem_of_mem_update {α : Type} [DecidableEq Loop] {f : Loop → List α} {l l' : Loop}
    {xs : List α} {x : α} (h : x ∈ update f l xs l') : l' = l ∧ x ∈ xs ∨ x ∈ f l' := by
  by_cases hl : l' = l
  · rw [hl, update_self] at h
    exact .inl ⟨hl, h⟩
  · rw [update_of_ne hl] at h
    exact .inr h

/-- A functor of a connection that was accepted, and not the one that destroys it. -/
def Spares (accepted : List Conn) (cb : Functor Conn) : Prop :=
  ∃ c ∈ accepted, cb = .connectEstablished c ∨ cb = .removeConnectionInLoop c

theorem Spares.cons {accepted : List Conn} {cb : Functor Conn} (h : Spares accepted cb) (c : Conn) :
    Spares (c :: accepted) cb := by
  obtain ⟨c', hc', hcb⟩ := h
  exact ⟨c', List.mem_cons_of_mem _ hc', hcb⟩

namespace Server

/-- What holds in every run: names are not empty in the table and empty in the connections, the
books of the pollers are right, and what is once in a poller stays there. -/
structure Sound (fd : Conn → ℤ) (s : Server Conn Loop) : Prop where
  unnamed : ∀ c, (s.connections c).m_name = []
  named : s.m_mapConnections [] = none
  member : ∀ name c, s.m_mapConnections name = some c → c ∈ s.accepted
  single : ∀ name name' c, s.m_mapConnections name = some c → s.m_mapConnections name' = some c →
    name = name'
  placed : ∀ l c, (s.pollers l).Placed fd c
  registered : ∀ l c, (s.pollers l).Registered fd c
  owned : ∀ l c, ((s.pollers l).channels c).nIndex ≠ .kNew → c ∈ s.accepted ∧ s.getLoop c = l
  active : ∀ l, ∀ c ∈ s.active l, ((s.pollers l).channels c).nIndex ≠ .kNew
  pending : ∀ l, ∀ cb ∈ s.pending l, Spares s.accepted cb
  functors : ∀ l, ∀ cb ∈ s.functors l, Spares s.accepted cb
  ended : ∀ c ∈ s.ended, ((s.pollers (s.getLoop c)).channels c).nIndex ≠ .kNew

/-- The invariant is kept, and nothing is accepted, ended, entered into the table or erased. -/
structure Keeps (fd : Conn → ℤ) (s s' : Server Conn Loop) : Prop where
  sound : Sound fd s'
  table : s'.m_mapConnections = s.m_mapConnections
  accepted : s'.accepted = s.accepted
  ended : s'.ended = s.ended
  active : s'.active = s.active

theorem Sound.keeps {s : Server Conn Loop} (h : Sound fd s) : Keeps fd s s :=
  ⟨h, rfl, rfl, rfl, rfl⟩

theorem Keeps.trans {s s' s'' : Server Conn Loop} (h : Keeps fd s s') (h' : Keeps fd s' s'') :
    Keeps fd s s'' :=
  ⟨h'.sound, h'.table.trans h.table, h'.accepted.trans h.accepted, h'.ended.trans h.ended,
    h'.active.trans h.active⟩

theorem Sound.start (fd : Conn → ℤ) (l : Loop) (loops : List Loop) (name : Bytes) (id : ℤ) :
    Sound fd (Server.start l loops name id : Server Conn Loop) where
  unnamed _ := rfl
  named := rfl
  member _ _ h := by cases h
  single _ _ _ h := by cases h
  placed _ _ := rfl
  registered _ _ := by simp [Registered, Server.start]
  owned _ _ h := absurd rfl h
  active _ _ h := by cases h
  pending _ _ h := by cases h
  functors _ _ h := by cases h
  ended _ h := by cases h

variable [DecidableEq Conn] [DecidableEq Loop] {s : Server Conn Loop} {c : Conn}

omit [DecidableEq Loop] in
/-- A connection may be changed in all but its loop and its name. -/
theorem Sound.setConnection (h : Sound fd s) {conn : TcpConnection Loop}
    (hloop : conn.m_ptrLoop = s.getLoop c) (hname : conn.m_name = []) :
    Keeps fd s (s.setConnection c conn) := by
  have hgetLoop : (s.setConnection c conn).getLoop = s.getLoop := by
    funext c'
    unfold getLoop
    by_cases hc : c' = c
    · rw [hc, setConnection_self, hloop, getLoop]
    · rw [setConnection_of_ne _ hc]
  refine ⟨?_, rfl, rfl, rfl, rfl⟩
  refine { h with unnamed := fun c' => ?_, owned := ?_, ended := ?_ }
  · by_cases hc : c' = c
    · rw [hc, setConnection_self, hname]
    · rw [setConnection_of_ne _ hc]
      exact h.unnamed c'
  · rw [hgetLoop]
    exact h.owned
  · rw [hgetLoop]
    exact h.ended

omit [DecidableEq Loop] in
theorem Sound.setState (h : Sound fd s) (c : Conn) (state : State) :
    Keeps fd s (s.setState c state) :=
  h.setConnection rfl (h.unnamed c)

omit [DecidableEq Conn] in
/-- A poller may be exchanged for one that keeps the books and the channels it has. -/
theorem Sound.setPoller (h : Sound fd s) {l : Loop} {poller : EPollPoller Conn}
    (hplaced : ∀ c, poller.Placed fd c) (hregistered : ∀ c, poller.Registered fd c)
    (hold : ∀ c, ((s.pollers l).channels c).nIndex ≠ .kNew → (poller.channels c).nIndex ≠ .kNew)
    (hnew : ∀ c, (poller.channels c).nIndex ≠ .kNew → c ∈ s.accepted ∧ s.getLoop c = l) :
    Keeps fd s (s.setPoller l poller) := by
  have hkept : ∀ l' c, ((s.pollers l').channels c).nIndex ≠ .kNew →
      (((s.setPoller l poller).pollers l').channels c).nIndex ≠ .kNew := by
    intro l' c hindex
    by_cases hl : l' = l
    · subst hl
      rw [setPoller_self]
      exact hold c hindex
    · rwa [setPoller_of_ne _ hl]
  refine ⟨?_, rfl, rfl, rfl, rfl⟩
  refine { h with
    placed := fun l' => ?_
    registered := fun l' => ?_
    owned := fun l' => ?_
    active := fun l' c hc => hkept l' c (h.active l' c hc)
    ended := fun c hc => hkept _ c (h.ended c hc) }
  · by_cases hl : l' = l
    · rwa [hl, setPoller_self]
    · rw [setPoller_of_ne _ hl]
      exact h.placed l'
  · by_cases hl : l' = l
    · rwa [hl, setPoller_self]
    · rw [setPoller_of_ne _ hl]
      exact h.registered l'
  · by_cases hl : l' = l
    · rw [hl, setPoller_self]
      exact hnew
    · rw [setPoller_of_ne _ hl]
      exact h.owned l'

theorem Sound.change (hfd : Injective fd) (h : Sound fd s) (call : InterestCall)
    (hc : c ∈ s.accepted) : (s.change fd call c).1 = true ∧ Keeps fd s (s.change fd call c).2 := by
  have hplaced := h.placed (s.getLoop c)
  have hregistered := h.registered (s.getLoop c)
  rw [change_eq]
  constructor
  · rw [call.run_eq hplaced hregistered]
  · apply h.setPoller (call.placed hfd hplaced c) (call.registered hfd hplaced hregistered c)
    · intro c' hindex hnew
      exact hindex ((call.index_eq_new_iff hplaced hregistered c c').mp hnew).2
    · intro c' hindex
      rw [Ne, call.index_eq_new_iff hplaced hregistered c c', not_and_or, not_not] at hindex
      rcases hindex with rfl | hindex
      · exact ⟨hc, rfl⟩
      · exact h.owned _ c' hindex

omit [DecidableEq Conn] in
theorem Sound.queueInLoop (h : Sound fd s) (l : Loop) {cb : Functor Conn}
    (hcb : Spares s.accepted cb) : Keeps fd s (s.queueInLoop l cb) := by
  refine ⟨{ h with pending := fun l' cb' hmem => ?_ }, rfl, rfl, rfl, rfl⟩
  rcases mem_of_mem_update hmem with ⟨rfl, hgiven⟩ | hhad
  · rcases List.mem_append.mp hgiven with hhad | hlast
    · exact h.pending l' cb' hhad
    · rw [List.mem_singleton.mp hlast]
      exact hcb
  · exact h.pending l' cb' hhad

omit [DecidableEq Conn] in
/-- No connection is found under the name it has, so that nothing is erased. -/
theorem Sound.removeConnectionInLoop (h : Sound fd s) (c : Conn) :
    s.removeConnectionInLoop c = s := by
  rw [Server.removeConnectionInLoop, h.unnamed c, if_pos h.named]

omit [DecidableEq Conn] in
theorem Sound.removeConnection (h : Sound fd s) (thread : Loop) (hc : c ∈ s.accepted) :
    Keeps fd s (s.removeConnection thread c) := by
  unfold Server.removeConnection
  split_ifs
  · rw [h.removeConnectionInLoop]
    exact h.keeps
  · exact h.queueInLoop _ ⟨c, hc, .inr rfl⟩

theorem Sound.handleClose (hfd : Injective fd) (h : Sound fd s) (thread : Loop)
    (hc : c ∈ s.accepted) : Keeps fd s (s.handleClose fd thread c) := by
  unfold Server.handleClose
  split_ifs
  · exact h.keeps
  · have hstate := h.setState c .kDisconnected
    have hchange := (hstate.sound.change hfd .disableAll (c := c) (by rwa [hstate.accepted])).2
    have hkept := hstate.trans hchange
    exact hkept.trans (hkept.sound.removeConnection thread (by rwa [hkept.accepted]))

theorem Sound.connectEstablished (hfd : Injective fd) (h : Sound fd s) (thread : Loop)
    (hc : c ∈ s.accepted) : Keeps fd s (s.connectEstablished fd thread c) := by
  unfold Server.connectEstablished
  split_ifs
  · exact h.keeps
  · have hstate := h.setState c .kConnected
    have hchange := hstate.sound.change hfd .enableReading (c := c) (by rwa [hstate.accepted])
    generalize (s.setState c .kConnected).change fd .enableReading c = changed at hchange
    obtain ⟨done, s'⟩ := changed
    obtain rfl : done = true := hchange.1
    exact hstate.trans hchange.2

omit [DecidableEq Loop] in
theorem Sound.handleRead (h : Sound fd s) (onMessage : Conn → Buffer → Buffer) (c : Conn)
    (answer : ReadAnswer) : Keeps fd s (s.handleRead onMessage c answer) := by
  unfold Server.handleRead
  simp only
  split_ifs
  · exact h.setConnection rfl (h.unnamed c)
  · exact h.setConnection rfl (h.unnamed c)

theorem Sound.HandleEvent (hfd : Injective fd) (h : Sound fd s)
    (onMessage : Conn → Buffer → Buffer) (thread : Loop) (hc : c ∈ s.accepted)
    (answer : ReadAnswer) : Keeps fd s (s.HandleEvent fd onMessage thread c answer) := by
  unfold Server.HandleEvent
  simp only
  have hclose : Keeps fd s (if s.nEvents c &&& errorEvents ≠ 0 then s.handleClose fd thread c
      else s) := by
    split_ifs
    · exact h.handleClose hfd thread hc
    · exact h.keeps
  split_ifs at hclose ⊢
  · exact hclose.trans (hclose.sound.handleRead onMessage c answer)
  · exact hclose
  · exact hclose.trans (hclose.sound.handleRead onMessage c answer)
  · exact hclose

/-- Of the functors only `connectEstablished` has anything to do. -/
theorem Sound.runFunctor (hfd : Injective fd) (h : Sound fd s) (thread : Loop) {cb : Functor Conn}
    (hcb : Spares s.accepted cb) : Keeps fd s (s.runFunctor fd thread cb) := by
  obtain ⟨c, hc, rfl | rfl⟩ := hcb
  · exact h.connectEstablished hfd thread hc
  · rw [Server.runFunctor, h.removeConnectionInLoop]
    exact h.keeps

omit [DecidableEq Conn] [DecidableEq Loop] in
theorem nextName_ne_nil (s : Server Conn Loop) (addr : SocketAddr) : s.nextName addr ≠ [] :=
  strConnName_ne_nil _ _ _

omit [DecidableEq Loop] in
theorem Sound.enter (h : Sound fd s) (hnew : c ∉ s.accepted) (addr : SocketAddr) :
    Sound fd (s.enter c addr) := by
  have hne : ∀ c' ∈ s.accepted, c' ≠ c := fun c' hc => ne_of_mem_of_not_mem hc hnew
  have howned : ∀ l c', ((s.pollers l).channels c').nIndex ≠ .kNew →
      (s.enter c addr).getLoop c' = s.getLoop c' := by
    intro l c' hindex
    rw [getLoop, enter_of_ne addr (hne c' (h.owned l c' hindex).1), getLoop]
  have hmap : ∀ name c', (s.enter c addr).m_mapConnections name = some c' →
      name = s.nextName addr ∧ c' = c ∨ s.m_mapConnections name = some c' := by
    intro name c' hname
    rw [enter_map] at hname
    by_cases hsame : name = s.nextName addr
    · rw [hsame, update_self, Option.some_inj] at hname
      exact .inl ⟨hsame, hname.symm⟩
    · rw [update_of_ne hsame] at hname
      exact .inr hname
  exact {
    unnamed := fun c' => by
      by_cases hc : c' = c
      · rw [hc, enter_self]
      · rw [enter_of_ne addr hc]
        exact h.unnamed c'
    named := by
      rw [enter_map, update_of_ne (s.nextName_ne_nil addr).symm]
      exact h.named
    member := fun name c' hname => by
      rcases hmap name c' hname with ⟨-, rfl⟩ | hname
      · exact List.mem_cons_self
      · exact List.mem_cons_of_mem _ (h.member name c' hname)
    single := fun name name' c' hname hname' => by
      rcases hmap name c' hname with ⟨rfl, rfl⟩ | hold
      · rcases hmap name' c' hname' with ⟨rfl, -⟩ | hold'
        · rfl
        · exact absurd (h.member name' c' hold') hnew
      · rcases hmap name' c' hname' with ⟨-, rfl⟩ | hold'
        · exact absurd (h.member name c' hold) hnew
        · exact h.single name name' c' hold hold'
    placed := h.placed
    registered := h.registered
    owned := fun l c' hindex => by
      rw [howned l c' hindex]
      exact ⟨List.mem_cons_of_mem _ (h.owned l c' hindex).1, (h.owned l c' hindex).2⟩
    active := h.active
    pending := fun l cb hmem => (h.pending l cb hmem).cons c
    functors := fun l cb hmem => (h.functors l cb hmem).cons c
    ended := fun c' hc => by
      rw [howned _ c' (h.ended c' hc)]
      exact h.ended c' hc }

/-- The new connection is entered into the table and nothing else happens to it. -/
theorem Sound.newConnection (hfd : Injective fd) (h : Sound fd s) (hnew : c ∉ s.accepted)
    (addr : SocketAddr) : Keeps fd (s.enter c addr) (s.newConnection fd c addr) := by
  have hentered := h.enter hnew addr
  unfold Server.newConnection
  simp only
  split_ifs
  · exact hentered.connectEstablished hfd _ List.mem_cons_self
  · exact hentered.queueInLoop _ ⟨c, List.mem_cons_self, .inl rfl⟩

theorem Sound.poll (h : Sound fd s) (l : Loop) (reports : List (EpollEvent Conn)) :
    Sound fd { s with
      pollers := update s.pollers l (fillActiveChannels fd reports (s.pollers l)).2
      active := update s.active l (fillActiveChannels fd reports (s.pollers l)).1 } := by
  have hfilled : Sound fd (s.setPoller l (fillActiveChannels fd reports (s.pollers l)).2) := by
    refine (h.setPoller (fun c => ?_) (fun c => ?_) (fun c hindex => ?_) fun c hindex => ?_).sound
    · rw [Placed, fillActiveChannels_index, fillActiveChannels_mapChannels]
      exact h.placed l c
    · rw [Registered, fillActiveChannels_index, fillActiveChannels_table]
      exact h.registered l c
    · rwa [fillActiveChannels_index]
    · rw [fillActiveChannels_index] at hindex
      exact h.owned l c hindex
  refine { hfilled with active := fun l' c hc => ?_ }
  rcases mem_of_mem_update hc with ⟨rfl, hgiven⟩ | hhad
  · have hplaced := h.placed l' c
    rw [Placed, fillActiveChannels_mem fd hgiven] at hplaced
    simp only [update_self, fillActiveChannels_index]
    intro hindex
    rw [if_pos hindex] at hplaced
    cases hplaced
  · exact hfilled.active l' c hhad

/-- An active channel is in the poller of the loop, so its connection was accepted. -/
theorem Sound.handled (hfd : Injective fd) (h : Sound fd s) (onMessage : Conn → Buffer → Buffer)
    {l : Loop} {rest : List Conn} (hactive : s.active l = c :: rest) (answer : ReadAnswer) :
    Keeps fd s (s.HandleEvent fd onMessage l c answer) := by
  have hmem : c ∈ s.active l := by
    rw [hactive]
    exact List.mem_cons_self
  exact h.HandleEvent hfd onMessage l (h.owned l c (h.active l c hmem)).1 answer

/-- The channel stays in the poller, also when the connection has ended. -/
theorem Sound.handle (hfd : Injective fd) (h : Sound fd s) {l : Loop} {answer : ReadAnswer}
    {rest : List Conn} (hactive : s.active l = c :: rest) :
    Sound fd (s.handle fd onMessage l c answer rest) := by
  have hkept := h.handled hfd onMessage hactive answer
  have hindex := hkept.sound.active l c (by
    rw [hkept.active, hactive]
    exact List.mem_cons_self)
  refine { hkept.sound with active := fun l' c' hc' => ?_, ended := fun c' hc' => ?_ }
  · rcases mem_of_mem_update hc' with ⟨rfl, hgiven⟩ | hhad
    · apply hkept.sound.active l' c'
      rw [hkept.active, hactive]
      exact List.mem_cons_of_mem _ hgiven
    · exact hkept.sound.active l' c' hhad
  · have howned := (hkept.sound.owned l c hindex).2
    have hself : ((((s.HandleEvent fd onMessage l c answer).pollers
        ((s.HandleEvent fd onMessage l c answer).getLoop c)).channels c).nIndex ≠ .kNew) := by
      rwa [howned]
    rw [Server.handle] at hc'
    simp only at hc'
    split_ifs at hc'
    · rcases List.mem_cons.mp hc' with rfl | hc'
      · exact hself
      · exact hkept.sound.ended c' hc'
    · exact hkept.sound.ended c' hc'

theorem Sound.run (hfd : Injective fd) (h : Sound fd s) {l : Loop} {cb : Functor Conn}
    {rest : List (Functor Conn)} (hfunctors : s.functors l = cb :: rest) :
    Keeps fd s ({ s with functors := update s.functors l rest }.runFunctor fd l cb) := by
  have htaken : Sound fd { s with functors := update s.functors l rest } := by
    refine { h with functors := fun l' cb' hmem => ?_ }
    rcases mem_of_mem_update hmem with ⟨rfl, hgiven⟩ | hhad
    · refine h.functors l' cb' ?_
      rw [hfunctors]
      exact List.mem_cons_of_mem _ hgiven
    · exact h.functors l' cb' hhad
  have hcb := h.functors l cb (by rw [hfunctors]; exact List.mem_cons_self)
  have hrun := htaken.runFunctor hfd l hcb
  exact ⟨hrun.sound, hrun.table, hrun.accepted, hrun.ended, hrun.active⟩

theorem Sound.step (hfd : Injective fd) (h : Sound fd s) {e : NetEvent Conn Loop}
    {s' : Server Conn Loop} (hstep : NetStep fd peer onMessage s e s') : Sound fd s' := by
  cases hstep with
  | accept c hnew hidle => exact (h.newConnection hfd hnew (peer c)).sound
  | poll l reports hidle hhandled hreports => exact h.poll l reports
  | handleEvent l c answer rest hidle hactive => exact h.handle hfd hactive
  | doPendingFunctors l hidle hhandled =>
      refine { h with pending := fun l' cb hmem => ?_, functors := fun l' cb hmem => ?_ }
      · rcases mem_of_mem_update hmem with ⟨-, hgiven⟩ | hhad
        · cases hgiven
        · exact h.pending l' cb hhad
      · rcases mem_of_mem_update hmem with ⟨rfl, hgiven⟩ | hhad
        · exact h.pending l' cb hgiven
        · exact h.functors l' cb hhad
  | runFunctor l cb rest hfunctors => exact (h.run hfd hfunctors).sound

/-- Every connection that was accepted is in the table. -/
def HoldsAll (s : Server Conn Loop) : Prop :=
  ∀ c ∈ s.accepted, ∃ name, s.m_mapConnections name = some c

/-- No connection has ended and all that were accepted are in the table. -/
def AllListed (s : Server Conn Loop) : Prop :=
  s.ended = [] ∧ ∀ c ∈ s.accepted, ∃ name, s.m_mapConnections name = some c

/-- The event neither ends a connection nor accepts one under a name that is in the table. -/
def Harmless (peer : Conn → SocketAddr) (s : Server Conn Loop) : NetEvent Conn Loop → Prop
  | .accept c => s.m_mapConnections (s.nextName (peer c)) = none
  | .handleEvent _ c answer => ¬ s.Ends c answer
  | _ => True

omit [DecidableEq Conn] [DecidableEq Loop] in
/-- A connection that has ended is still in its poller. -/
theorem Sound.tracksLive_iff (h : Sound fd s) : s.TracksLive fd ↔ s.AllListed := by
  constructor
  · intro hlive
    have hended : s.ended = [] := by
      refine List.eq_nil_iff_forall_not_mem.mpr fun c hc => (hlive.closed c hc).2 ?_
      have hplaced := h.placed (s.getLoop c) c
      rwa [Placed, if_neg (h.ended c hc)] at hplaced
    exact ⟨hended, fun c hc => (hlive.table c).mpr ⟨hc, by simp [hended]⟩⟩
  · rintro ⟨hended, hlisted⟩
    refine ⟨fun c => ?_, by simp [hended]⟩
    constructor
    · rintro ⟨name, hname⟩
      exact ⟨h.member name c hname, by simp [hended]⟩
    · rintro ⟨hc, -⟩
      exact hlisted c hc

omit [DecidableEq Conn] [DecidableEq Loop] in
theorem Keeps.holdsAll {s' : Server Conn Loop} (h : Keeps fd s s') (hall : s.HoldsAll) :
    s'.HoldsAll := by
  rw [HoldsAll, h.accepted, h.table]
  exact hall

omit [DecidableEq Conn] [DecidableEq Loop] in
theorem Keeps.allListed_iff {s' : Server Conn Loop} (h : Keeps fd s s') :
    s'.AllListed ↔ s.AllListed := by
  rw [AllListed, AllListed, h.table, h.accepted, h.ended]

omit [DecidableEq Loop] in
theorem Sound.enter_holdsAll_iff (h : Sound fd s) (hnew : c ∉ s.accepted) (addr : SocketAddr) :
    (s.enter c addr).HoldsAll ↔
      s.HoldsAll ∧ s.m_mapConnections (s.nextName addr) = none := by
  have hentered : (s.enter c addr).HoldsAll ↔ ∀ c' ∈ c :: s.accepted,
      ∃ name, update s.m_mapConnections (s.nextName addr) (some c) name = some c' := Iff.rfl
  have hold : ∀ c' ∈ s.accepted, ∀ name,
      update s.m_mapConnections (s.nextName addr) (some c) name = some c' →
        name ≠ s.nextName addr ∧ s.m_mapConnections name = some c' := by
    intro c' hc' name hname
    by_cases hsame : name = s.nextName addr
    · rw [hsame, update_self, Option.some_inj] at hname
      exact absurd hc' (hname ▸ hnew)
    · rw [update_of_ne hsame] at hname
      exact ⟨hsame, hname⟩
  rw [hentered]
  refine ⟨fun hall => ?_, ?_⟩
  · rw [List.forall_mem_cons] at hall
    refine ⟨fun c' hc' => ?_, ?_⟩
    · obtain ⟨name, hname⟩ := hall.2 c' hc'
      exact ⟨name, (hold c' hc' name hname).2⟩
    · -- a connection that had the name would have been overwritten
      rw [Option.eq_none_iff_forall_ne_some]
      intro c' hname
      obtain ⟨name, hname'⟩ := hall.2 c' (h.member _ c' hname)
      obtain ⟨hne, hname'⟩ := hold c' (h.member _ c' hname) name hname'
      exact hne (h.single _ _ c' hname' hname)
  · rintro ⟨hall, hfree⟩ c' hc'
    rcases List.mem_cons.mp hc' with rfl | hc'
    · exact ⟨s.nextName addr, update_self _ _ _⟩
    · obtain ⟨name, hname⟩ := hall c' hc'
      refine ⟨name, ?_⟩
      rw [update_of_ne, hname]
      rintro rfl
      rw [hfree] at hname
      cases hname

omit [DecidableEq Loop] in
theorem Sound.enter_allListed_iff (h : Sound fd s) (hnew : c ∉ s.accepted) (addr : SocketAddr) :
    (s.enter c addr).AllListed ↔
      s.AllListed ∧ s.m_mapConnections (s.nextName addr) = none := by
  rw [AllListed, AllListed, and_assoc]
  exact and_congr_right fun _ => h.enter_holdsAll_iff hnew addr

theorem Sound.handle_allListed_iff (hfd : Injective fd) (h : Sound fd s) {l : Loop}
    {answer : ReadAnswer} {rest : List Conn} (hactive : s.active l = c :: rest) :
    (s.handle fd onMessage l c answer rest).AllListed ↔ s.AllListed ∧ ¬ s.Ends c answer := by
  have hkept := h.handled hfd onMessage hactive answer
  have hhandled : (s.handle fd onMessage l c answer rest).AllListed ↔
      (if s.Ends c answer then c :: s.ended else s.ended) = [] ∧
        ∀ c' ∈ s.accepted, ∃ name, s.m_mapConnections name = some c' := by
    rw [← hkept.ended, ← hkept.accepted, ← hkept.table]
    rfl
  rw [hhandled, AllListed]
  split_ifs with hends
  · simp [hends]
  · simp [hends]

/-- One step keeps the table right exactly when it is harmless. -/
theorem Sound.step_iff (hfd : Injective fd) (h : Sound fd s) {e : NetEvent Conn Loop}
    {s' : Server Conn Loop} (hstep : NetStep fd peer onMessage s e s') :
    s'.AllListed ↔ s.AllListed ∧ s.Harmless peer e := by
  cases hstep with
  | accept c hnew hidle =>
      rw [(h.newConnection hfd hnew (peer c)).allListed_iff]
      exact h.enter_allListed_iff hnew (peer c)
  | poll l reports hidle hhandled hreports => exact (and_iff_left trivial).symm
  | handleEvent l c answer rest hidle hactive => exact h.handle_allListed_iff hfd hactive
  | doPendingFunctors l hidle hhandled => exact (and_iff_left trivial).symm
  | runFunctor l cb rest hfunctors =>
      rw [(h.run hfd hfunctors).allListed_iff]
      exact (and_iff_left trivial).symm

end Server

open Server

variable [DecidableEq Conn] [DecidableEq Loop]

/-- The table is right in the last state of a run if and only if no event of the run closed a
connection or said that it failed, and none was accepted under a name that was in the table. -/
theorem table_tracks_live (hfd : Injective fd) (m_ptrLoop : Loop) (m_vecLoops : List Loop)
    (m_strName : Bytes) (m_nNextConnId : ℤ)
    {trace : List (Transition (Server Conn Loop) (NetEvent Conn Loop))} {s : Server Conn Loop}
    (run : Run (NetStep fd peer onMessage)
      (Server.start m_ptrLoop m_vecLoops m_strName m_nNextConnId) trace s) :
    s.TracksLive fd ↔ ∀ t ∈ trace, t.src.Harmless peer t.label := by
  have hsound : ∀ (s : Server Conn Loop) e s', Sound fd s → NetStep fd peer onMessage s e s' →
      Sound fd s' := fun s e s' h hstep => h.step hfd hstep
  have hstart := Sound.start fd m_ptrLoop m_vecLoops m_strName m_nNextConnId
  rw [(run.invariant hstart hsound).tracksLive_iff]
  refine run.holds_iff hstart hsound ⟨rfl, ?_⟩ fun s e s' h hstep => h.step_iff hfd hstep
  intro c hc
  cases hc

def localhost (port : UInt16) : SocketAddr := ⟨[127, 0, 0, 1].get, port⟩

/-- Messages are left in the buffer. -/
def keep {Conn : Type} : Conn → Buffer → Buffer := fun _ buffer => buffer

/-- A connection is accepted for a loop of the pool, established there, and read. -/
theorem table_tracks_live_read :
    ∃ trace s, Run (NetStep (fun _ : Unit => 5) (fun _ => localhost 4000) keep)
        (Server.start false [true] (ascii "YedisServer") 0) trace s ∧
      labels trace = [.handleEvent true () (.reads (ascii "PING")), .poll true [⟨XPOLLIN, ()⟩],
        .runFunctor true (.connectEstablished ()), .doPendingFunctors true, .accept ()] ∧
      s.Drained ∧ s.TracksLive fun _ => 5 := by
  have hfd : Injective fun _ : Unit => (5 : ℤ) := fun a b _ => rfl
  have run₀ : Run (NetStep (fun _ : Unit => 5) (fun _ => localhost 4000) keep)
    (Server.start false [true] (ascii "YedisServer") 0) [] _ := .start
  have run₁ := run₀.next (.accept () (by decide) rfl)
  have run₂ := run₁.next (.doPendingFunctors true rfl rfl)
  have run₃ := run₂.next (.runFunctor true (.connectEstablished ()) [] rfl)
  have run₄ := run₃.next (.poll true [⟨XPOLLIN, ()⟩] rfl rfl (by
    simp only [List.forall_mem_singleton]
    exact ⟨⟨XPOLLIN ||| XPOLLPRI, ()⟩, rfl, rfl, by decide, by decide⟩))
  have run₅ := run₄.next (.handleEvent true () (.reads (ascii "PING")) [] rfl rfl)
  refine ⟨_, _, run₅, rfl, ?_, ?_⟩
  · intro l
    cases l <;> exact ⟨rfl, rfl⟩
  · apply (table_tracks_live hfd false [true] (ascii "YedisServer") 0 run₅).mpr
    simp only [List.forall_mem_cons]
    refine ⟨?_, trivial, trivial, trivial, rfl, by simp⟩
    rintro (hends | ⟨-, hends | hends⟩)
    · exact hends rfl
    · cases hends
    · cases hends

/-- Of two connections in one loop the first is closed by its peer, which leaves it as it is, and
the second fails. Both stay in the table, and the second in its poller. -/
theorem table_tracks_live_fails :
    ∃ trace s, Run (NetStep (fun c => if c then 6 else 5) (fun _ => localhost 4000) keep)
        (Server.start () [] (ascii "YedisServer") 0) trace s ∧
      labels trace = [.handleEvent () true (.fails true), .handleEvent () false (.reads []),
        .poll () [⟨XPOLLIN, false⟩, ⟨XPOLLERR, true⟩], .accept true, .accept false] ∧
      s.Drained ∧ s.ended = [true, false] ∧
      s.m_mapConnections (ascii "YedisServer:127.0.0.1:4000#0") = some false ∧
      s.m_mapConnections (ascii "YedisServer:127.0.0.1:4000#1") = some true ∧
      (s.connections false).m_State = .kConnected ∧ (s.pollers ()).mapChannels 6 = some true ∧
      ¬ s.TracksLive fun c => if c then 6 else 5 := by
  have run₀ : Run (NetStep (fun c : Bool => if c then 6 else 5) (fun _ => localhost 4000) keep)
    (Server.start () [] (ascii "YedisServer") 0) [] _ := .start
  have run₁ := run₀.next (.accept false (by decide) rfl)
  have run₂ := run₁.next (.accept true (by decide) rfl)
  have run₃ := run₂.next (.poll () [⟨XPOLLIN, false⟩, ⟨XPOLLERR, true⟩] rfl rfl (by
    simp only [List.forall_mem_cons]
    refine ⟨?_, ?_, by simp⟩
    · exact ⟨⟨XPOLLIN ||| XPOLLPRI, false⟩, rfl, rfl, by decide, by decide⟩
    · exact ⟨⟨XPOLLIN ||| XPOLLPRI, true⟩, rfl, rfl, by decide, by decide⟩))
  have run₄ := run₃.next (.handleEvent () false (.reads []) [true] rfl rfl)
  have run₅ := run₄.next (.handleEvent () true (.fails true) [] rfl rfl)
  refine ⟨_, _, run₅, rfl, fun _ => ⟨rfl, rfl⟩, rfl, by decide, by decide, rfl, rfl, ?_⟩
  intro hlive
  have hlisted := (hlive.table false).mp ⟨ascii "YedisServer:127.0.0.1:4000#0", by decide⟩
  exact hlisted.2 (by decide)

end Yedis.Net
