import Mathlib.Tactic.FinCases
import Yedis.LiveConnections

/-!
# The names of connections

`newConnection` names a connection after its peer and a running number, and cuts what
follows the name of the server to 31 bytes. The peer is always kept whole, the number only
as far as there is room: two connections of one peer get the same name when their numbers
begin with the same digits.
-/

namespace Yedis.Net
open Function Runs

/-- The digits of the number for which there is room behind the peer. -/
def SocketAddr.digitsKept (addr : SocketAddr) : ℕ := 29 - addr.ToString.length

theorem SocketAddr.toString_eq (addr : SocketAddr) (r : Bytes) : addr.ToString ++ r =
    decimal (addr.sin_addr 0).toNat ++ 46 :: (decimal (addr.sin_addr 1).toNat ++
      46 :: (decimal (addr.sin_addr 2).toNat ++ 46 :: (decimal (addr.sin_addr 3).toNat ++
        58 :: (decimal addr.sin_port.toNat ++ r)))) := by
  simp [ToString, ascii]

theorem SocketAddr.toString_length (addr : SocketAddr) : addr.ToString.length ≤ 21 := by
  have hbyte : ∀ i, (decimal (addr.sin_addr i).toNat).length ≤ 3 := by
    intro i
    have hlt := (addr.sin_addr i).toNat_lt
    exact (decimal_length_le (by norm_num)).mpr (by omega)
  have hport : (decimal addr.sin_port.toNat).length ≤ 5 := by
    have hlt := addr.sin_port.toNat_lt
    exact (decimal_length_le (by norm_num)).mpr (by omega)
  have hlen := congrArg List.length (addr.toString_eq [])
  simp only [List.append_nil, List.length_append, List.length_cons] at hlen
  have h0 := hbyte 0
  have h1 := hbyte 1
  have h2 := hbyte 2
  have h3 := hbyte 3
  omega

theorem strConnName_eq (m_strName : Bytes) (addr : SocketAddr) (id : ℕ) :
    strConnName m_strName addr id = m_strName ++ 58 :: (addr.ToString ++
      35 :: decimal (leadingDigits addr.digitsKept id)) := by
  have hlen := addr.toString_length
  have hneg : ¬ ((id : ℤ) < 0) := by omega
  rw [strConnName, signedDecimal, if_neg hneg, Int.natAbs_natCast,
    ← decimal_take (by rw [SocketAddr.digitsKept]; omega)]
  have hsplit : ascii ":" ++ addr.ToString ++ ascii "#" ++ decimal id =
      (58 :: (addr.ToString ++ [35])) ++ decimal id := by
    simp [ascii]
  have hpre : (58 :: (addr.ToString ++ [35])).length = addr.ToString.length + 2 := by simp
  rw [hsplit, List.take_append, List.take_of_length_le (by omega), hpre,
    show 31 - (addr.ToString.length + 2) = addr.digitsKept by rw [SocketAddr.digitsKept]; omega]
  simp

/-- Names tell peers apart, and numbers by the digits that are kept. -/
theorem strConnName_inj (m_strName : Bytes) (a b : SocketAddr) (n m : ℕ) :
    strConnName m_strName a n = strConnName m_strName b m ↔
      a = b ∧ leadingDigits a.digitsKept n = leadingDigits a.digitsKept m := by
  constructor
  · intro h
    rw [strConnName_eq, strConnName_eq] at h
    have htext := (List.cons.inj (List.append_cancel_left h)).2
    rw [SocketAddr.toString_eq, SocketAddr.toString_eq] at htext
    obtain ⟨h0, htext⟩ := decimal_append_inj (by decide) htext
    obtain ⟨h1, htext⟩ := decimal_append_inj (by decide) htext
    obtain ⟨h2, htext⟩ := decimal_append_inj (by decide) htext
    obtain ⟨h3, htext⟩ := decimal_append_inj (by decide) htext
    obtain ⟨hport, htext⟩ := decimal_append_inj (by decide) htext
    have haddr : a = b := by
      cases a with
      | mk sin_addr sin_port =>
          cases b with
          | mk sin_addr' sin_port' =>
              obtain rfl : sin_port = sin_port' := UInt16.toNat_inj.mp hport
              congr 1
              funext i
              apply UInt8.toNat_inj.mp
              fin_cases i
              · exact h0
              · exact h1
              · exact h2
              · exact h3
    subst haddr
    exact ⟨rfl, decimal_injective htext⟩
  · rintro ⟨rfl, hdigits⟩
    rw [strConnName_eq, strConnName_eq, hdigits]

/-- The calls of `newConnection` among the events of a run, the newest first, each with its peer and
with the number it gives to the connection where the first one gives `id`. -/
def calls {Conn Loop : Type} (peer : Conn → SocketAddr) (id : ℕ) :
    List (NetEvent Conn Loop) → List (SocketAddr × ℕ)
  | [] => []
  | .accept c :: events => (peer c, id + (calls peer id events).length) :: calls peer id events
  | _ :: events => calls peer id events

/-- No two calls have one peer and numbers that begin with the same digits as far as these are
kept. -/
def NamesApart (calls : List (SocketAddr × ℕ)) : Prop :=
  calls.Pairwise fun p q => p.1 = q.1 →
    leadingDigits p.1.digitsKept p.2 ≠ leadingDigits p.1.digitsKept q.2

theorem nodup_names_iff (m_strName : Bytes) (calls : List (SocketAddr × ℕ)) :
    (calls.map fun p => strConnName m_strName p.1 p.2).Nodup ↔ NamesApart calls := by
  rw [List.Nodup, List.pairwise_map, NamesApart]
  refine List.Pairwise.iff fun p q => ?_
  rw [ne_eq, strConnName_inj, not_and]

/-- The numbers that were given are below the next one. -/
theorem number_lt_of_mem_calls {Conn Loop : Type} {peer : Conn → SocketAddr} {id : ℕ}
    {events : List (NetEvent Conn Loop)} {p : SocketAddr × ℕ} (hp : p ∈ calls peer id events) :
    p.2 < id + (calls peer id events).length := by
  induction events with
  | nil => cases hp
  | cons e events ih =>
      cases e with
      | accept c =>
          rw [calls, List.length_cons]
          rcases List.mem_cons.mp hp with rfl | hp
          · exact Nat.lt_succ_self _
          · exact (ih hp).trans (Nat.lt_succ_self _)
      | _ => exact ih hp

/-- There is always room for eight digits. -/
theorem leadingDigits_kept (addr : SocketAddr) {n : ℕ} (hn : n < 100000000) :
    leadingDigits addr.digitsKept n = n := by
  have hlen := addr.toString_length
  have hpow : 10 ^ 8 ≤ 10 ^ addr.digitsKept :=
    Nat.pow_le_pow_right (by norm_num) (by rw [SocketAddr.digitsKept]; omega)
  exact leadingDigits_of_lt (by omega)

theorem namesApart_of_short {Conn Loop : Type} (peer : Conn → SocketAddr) {id : ℕ}
    {events : List (NetEvent Conn Loop)} (h : id + (calls peer id events).length ≤ 100000000) :
    NamesApart (calls peer id events) := by
  induction events with
  | nil => exact List.Pairwise.nil
  | cons e events ih =>
      cases e with
      | accept c =>
          rw [calls, List.length_cons] at h
          refine List.pairwise_cons.mpr ⟨fun q hq _ => ?_, ih (by omega)⟩
          have hlt := number_lt_of_mem_calls hq
          rw [leadingDigits_kept _ (by omega), leadingDigits_kept _ (by omega)]
          exact hlt.ne'
      | _ => exact ih h

variable {Conn Loop : Type} {fd : Conn → ℤ} {peer : Conn → SocketAddr}
  {onMessage : Conn → Buffer → Buffer}

/-- The keys of the table that the connections of a run were stored under, the newest first. -/
def storedKeys (peer : Conn → SocketAddr) :
    List (Transition (Server Conn Loop) (NetEvent Conn Loop)) → List Bytes
  | [] => []
  | ⟨s, .accept c, _⟩ :: trace => s.nextName (peer c) :: storedKeys peer trace
  | _ :: trace => storedKeys peer trace

namespace Server

/-- The event does not store a connection under the key of another one. -/
def ReplacesNone (peer : Conn → SocketAddr) (s : Server Conn Loop) : NetEvent Conn Loop → Prop
  | .accept c => s.m_mapConnections (s.nextName (peer c)) = none
  | _ => True

/-- Nothing is erased from the table, so it goes on to hold all connections if none is replaced. -/
theorem Sound.holdsAll_step [DecidableEq Conn] [DecidableEq Loop] {s s' : Server Conn Loop}
    {e : NetEvent Conn Loop} (hfd : Injective fd) (h : Sound fd s)
    (hstep : NetStep fd peer onMessage s e s') (hnone : s.ReplacesNone peer e)
    (hall : s.HoldsAll) : s'.HoldsAll := by
  cases hstep with
  | accept c hnew hidle =>
      exact (h.newConnection hfd hnew (peer c)).holdsAll
        ((h.enter_holdsAll_iff hnew (peer c)).mpr ⟨hall, hnone⟩)
  | poll l reports hidle hhandled hreports => exact hall
  | handleEvent l c answer rest hidle hactive =>
      exact (h.handled hfd onMessage hactive answer).holdsAll hall
  | doPendingFunctors l hidle hhandled => exact hall
  | runFunctor l cb rest hfunctors => exact (h.run hfd hfunctors).holdsAll hall

/-- No connection is entered into the table, and the numbering goes on where it was. -/
structure NoneEntered (s s' : Server Conn Loop) : Prop where
  strName : s'.m_strName = s.m_strName
  nextConnId : s'.m_nNextConnId = s.m_nNextConnId
  table : ∀ name c, s'.m_mapConnections name = some c → s.m_mapConnections name = some c

namespace NoneEntered
variable {s s' s'' : Server Conn Loop}

theorem of_eq (hname : s'.m_strName = s.m_strName) (hid : s'.m_nNextConnId = s.m_nNextConnId)
    (htable : s'.m_mapConnections = s.m_mapConnections) : NoneEntered s s' :=
  ⟨hname, hid, fun _ _ h => htable ▸ h⟩

theorem refl (s : Server Conn Loop) : NoneEntered s s := of_eq rfl rfl rfl

theorem trans (h : NoneEntered s s') (h' : NoneEntered s' s'') : NoneEntered s s'' :=
  ⟨h'.strName.trans h.strName, h'.nextConnId.trans h.nextConnId,
    fun name c hname => h.table name c (h'.table name c hname)⟩

variable [DecidableEq Conn] [DecidableEq Loop]

omit [DecidableEq Loop] in
theorem setState (s : Server Conn Loop) (c : Conn) (state : State) :
    NoneEntered s (s.setState c state) := of_eq rfl rfl rfl

theorem change (fd : Conn → ℤ) (call : InterestCall) (c : Conn) (s : Server Conn Loop) :
    NoneEntered s (s.change fd call c).2 := of_eq rfl rfl rfl

theorem remove (fd : Conn → ℤ) (c : Conn) (s : Server Conn Loop) :
    NoneEntered s (s.remove fd c) := of_eq rfl rfl rfl

omit [DecidableEq Conn] in
theorem queueInLoop (s : Server Conn Loop) (l : Loop) (cb : Functor Conn) :
    NoneEntered s (s.queueInLoop l cb) := of_eq rfl rfl rfl

theorem connectDestroyed (fd : Conn → ℤ) (c : Conn) (s : Server Conn Loop) :
    NoneEntered s (s.connectDestroyed fd c) := by
  unfold Server.connectDestroyed
  split_ifs
  · exact (setState s c .kDisconnected).trans
      ((change fd .disableAll c _).trans (remove fd c _))
  · exact remove fd c s

omit [DecidableEq Conn] in
theorem removeConnectionInLoop (c : Conn) (s : Server Conn Loop) :
    NoneEntered s (s.removeConnectionInLoop c) := by
  unfold Server.removeConnectionInLoop
  simp only
  split_ifs
  · exact refl s
  · refine ⟨rfl, rfl, fun name c' hname => ?_⟩
    simp only [Server.queueInLoop] at hname
    by_cases hsame : name = (s.connections c).m_name
    · rw [hsame, update_self] at hname
      cases hname
    · rwa [update_of_ne hsame] at hname

omit [DecidableEq Conn] in
theorem removeConnection (thread : Loop) (c : Conn) (s : Server Conn Loop) :
    NoneEntered s (s.removeConnection thread c) := by
  unfold Server.removeConnection
  split_ifs
  · exact removeConnectionInLoop c s
  · exact queueInLoop s _ _

theorem handleClose (fd : Conn → ℤ) (thread : Loop) (c : Conn) (s : Server Conn Loop) :
    NoneEntered s (s.handleClose fd thread c) := by
  unfold Server.handleClose
  split_ifs
  · exact refl s
  · exact (setState s c .kDisconnected).trans
      ((change fd .disableAll c _).trans (removeConnection thread c _))

theorem connectEstablished (fd : Conn → ℤ) (thread : Loop) (c : Conn) (s : Server Conn Loop) :
    NoneEntered s (s.connectEstablished fd thread c) := by
  unfold Server.connectEstablished
  split_ifs
  · exact refl s
  · simp only
    split_ifs
    · exact (setState s c .kConnected).trans (change fd .enableReading c _)
    · exact (setState s c .kConnected).trans
        ((change fd .enableReading c _).trans (handleClose fd thread c _))

omit [DecidableEq Loop] in
theorem handleRead (onMessage : Conn → Buffer → Buffer) (c : Conn) (answer : ReadAnswer)
    (s : Server Conn Loop) : NoneEntered s (s.handleRead onMessage c answer) := by
  unfold Server.handleRead
  simp only
  split_ifs
  · exact of_eq rfl rfl rfl
  · exact of_eq rfl rfl rfl

theorem handle (fd : Conn → ℤ) (onMessage : Conn → Buffer → Buffer) (thread : Loop) (c : Conn)
    (answer : ReadAnswer) (rest : List Conn) (s : Server Conn Loop) :
    NoneEntered s (s.handle fd onMessage thread c answer rest) := by
  have hevent : NoneEntered s (s.HandleEvent fd onMessage thread c answer) := by
    unfold HandleEvent
    simp only
    split_ifs
    · exact (handleClose fd thread c s).trans (handleRead onMessage c answer _)
    · exact handleClose fd thread c s
    · exact handleRead onMessage c answer s
    · exact refl s
  exact ⟨hevent.strName, hevent.nextConnId, hevent.table⟩

theorem runFunctor (fd : Conn → ℤ) (thread : Loop) (s : Server Conn Loop) (cb : Functor Conn) :
    NoneEntered s (s.runFunctor fd thread cb) := by
  cases cb with
  | connectEstablished c => exact connectEstablished fd thread c s
  | removeConnectionInLoop c => exact removeConnectionInLoop c s
  | connectDestroyed c => exact connectDestroyed fd c s

theorem newConnection (fd : Conn → ℤ) (c : Conn) (addr : SocketAddr) (s : Server Conn Loop) :
    NoneEntered (s.enter c addr) (s.newConnection fd c addr) := by
  unfold Server.newConnection
  simp only
  split_ifs
  · exact connectEstablished fd _ c _
  · exact queueInLoop _ _ _

end NoneEntered

/-- Where the numbering stands after a run, and that nothing is in the table but what was stored. -/
structure Numbered (peer : Conn → SocketAddr) (m_strName : Bytes) (id : ℕ)
    (trace : List (Transition (Server Conn Loop) (NetEvent Conn Loop))) (s : Server Conn Loop) :
    Prop where
  strName : s.m_strName = m_strName
  nextConnId : s.m_nNextConnId = (id + (calls peer id (labels trace)).length : ℕ)
  keys : storedKeys peer trace =
    (calls peer id (labels trace)).map fun p => strConnName m_strName p.1 p.2
  table : ∀ key c, s.m_mapConnections key = some c → key ∈ storedKeys peer trace

namespace Numbered
variable {m_strName : Bytes} {id : ℕ}
  {trace : List (Transition (Server Conn Loop) (NetEvent Conn Loop))} {s s' : Server Conn Loop}

/-- An event that enters no connection. -/
theorem other (h : Numbered peer m_strName id trace s) (hstep : NoneEntered s s')
    {e : NetEvent Conn Loop} (he : ∀ c, e ≠ .accept c) :
    Numbered peer m_strName id (⟨s, e, s'⟩ :: trace) s' := by
  have hcalls : calls peer id (labels (⟨s, e, s'⟩ :: trace)) = calls peer id (labels trace) := by
    cases e with
    | accept c => exact absurd rfl (he c)
    | _ => rfl
  have hkeys : storedKeys peer (⟨s, e, s'⟩ :: trace) = storedKeys peer trace := by
    cases e with
    | accept c => exact absurd rfl (he c)
    | _ => rfl
  refine ⟨hstep.strName.trans h.strName, ?_, ?_, fun key c hkey => ?_⟩
  · rw [hcalls, hstep.nextConnId, h.nextConnId]
  · rw [hcalls, hkeys, h.keys]
  · rw [hkeys]
    exact h.table key c (hstep.table key c hkey)

theorem accept [DecidableEq Conn] (h : Numbered peer m_strName id trace s) (c : Conn)
    (hstep : NoneEntered (s.enter c (peer c)) s')
    (hid : id + (calls peer id (labels trace)).length < 2147483647) :
    Numbered peer m_strName id (⟨s, .accept c, s'⟩ :: trace) s' := by
  have hname : s.nextName (peer c) =
      strConnName m_strName (peer c) (id + (calls peer id (labels trace)).length : ℕ) := by
    rw [nextName, h.strName, h.nextConnId]
  refine ⟨hstep.strName.trans h.strName, ?_, ?_, fun key c' hkey => ?_⟩
  · rw [hstep.nextConnId, labels_cons, calls, List.length_cons]
    change wrap32 (s.m_nNextConnId + 1) = _
    rw [h.nextConnId, wrap32_of_range (by omega) (by omega)]
    omega
  · rw [storedKeys, labels_cons, calls, List.map_cons, ← h.keys, hname]
  · have hentered := hstep.table key c' hkey
    rw [enter_map] at hentered
    by_cases hsame : key = s.nextName (peer c)
    · rw [storedKeys, hsame]
      exact List.mem_cons_self
    · rw [update_of_ne hsame] at hentered
      exact List.mem_cons_of_mem _ (h.table key c' hentered)

end Numbered

end Server

open Server

section Runs
variable [DecidableEq Conn] [DecidableEq Loop] {m_ptrLoop : Loop} {m_vecLoops : List Loop}
  {m_strName : Bytes} {id : ℕ}
  {trace : List (Transition (Server Conn Loop) (NetEvent Conn Loop))} {s : Server Conn Loop}

theorem numbered_run (run : Run (NetStep fd peer onMessage)
      (Server.start m_ptrLoop m_vecLoops m_strName id) trace s)
    (hid : id + (calls peer id (labels trace)).length ≤ 2147483647) :
    Numbered peer m_strName id trace s := by
  induction run with
  | start => exact ⟨rfl, rfl, rfl, fun key c hkey => by cases hkey⟩
  | @next trace s s' e run hstep ih =>
      cases hstep with
      | accept c hnew hidle =>
          rw [labels_cons, calls, List.length_cons] at hid
          exact (ih (by omega)).accept c (.newConnection fd c (peer c) s) (by omega)
      | poll l reports hidle hhandled hreports =>
          refine (ih hid).other ?_ (by simp)
          exact .of_eq rfl rfl rfl
      | handleEvent l c answer rest hidle hactive =>
          refine (ih hid).other ?_ (by simp)
          exact .handle fd onMessage l c answer rest s
      | doPendingFunctors l hidle hhandled =>
          refine (ih hid).other ?_ (by simp)
          exact .of_eq rfl rfl rfl
      | runFunctor l cb rest hfunctors =>
          refine (ih hid).other ?_ (by simp)
          have hswapped : NoneEntered s { s with functors := update s.functors l rest } :=
            .of_eq rfl rfl rfl
          exact hswapped.trans (.runFunctor fd l _ cb)

/-- Under different keys no connection is stored in the place of another. -/
theorem replacesNone_of_nodup (run : Run (NetStep fd peer onMessage)
      (Server.start m_ptrLoop m_vecLoops m_strName id) trace s)
    (hid : id + (calls peer id (labels trace)).length ≤ 2147483647)
    (hnodup : (storedKeys peer trace).Nodup) :
    ∀ t ∈ trace, t.src.ReplacesNone peer t.label := by
  induction run with
  | start => simp
  | next run hstep ih =>
      cases hstep with
      | accept c hnew hidle =>
          rw [labels_cons, calls, List.length_cons] at hid
          rw [storedKeys, List.nodup_cons] at hnodup
          refine List.forall_mem_cons.mpr ⟨?_, ih (by omega) hnodup.2⟩
          rw [ReplacesNone, Option.eq_none_iff_forall_ne_some]
          intro c' hkey
          exact hnodup.1 ((numbered_run run (by omega)).table _ c' hkey)
      | poll => exact List.forall_mem_cons.mpr ⟨trivial, ih hid hnodup⟩
      | handleEvent => exact List.forall_mem_cons.mpr ⟨trivial, ih hid hnodup⟩
      | doPendingFunctors => exact List.forall_mem_cons.mpr ⟨trivial, ih hid hnodup⟩
      | runFunctor => exact List.forall_mem_cons.mpr ⟨trivial, ih hid hnodup⟩

/-- In a run in which the numbers stay in an `int`, all connections are stored under keys of their
own, and so none in the place of another, if and only if no two of one peer have numbers that begin
with the same digits as far as there is room for them. -/
theorem connection_names_distinct (run : Run (NetStep fd peer onMessage)
      (Server.start m_ptrLoop m_vecLoops m_strName id) trace s)
    (hid : id + (calls peer id (labels trace)).length ≤ 2147483647) :
    ((storedKeys peer trace).Nodup ∧ ∀ t ∈ trace, t.src.ReplacesNone peer t.label) ↔
      NamesApart (calls peer id (labels trace)) := by
  rw [← nodup_names_iff m_strName, ← (numbered_run run hid).keys]
  exact ⟨And.left, fun hnodup => ⟨hnodup, replacesNone_of_nodup run hid hnodup⟩⟩

end Runs

/-- Two connections of one peer, the first two of a server. -/
theorem connection_names_distinct_first :
    ∃ trace s, Run (NetStep (fun c => if c then 6 else 5) (fun _ => localhost 4000) keep)
        (Server.start () [] (ascii "YedisServer") (0 : ℕ)) trace s ∧
      labels trace = [.accept true, .accept false] ∧
      (storedKeys (fun _ => localhost 4000) trace).Nodup ∧
      ∀ t ∈ trace, t.src.ReplacesNone (fun _ => localhost 4000) t.label := by
  have run₀ : Run (NetStep (fun c : Bool => if c then 6 else 5) (fun _ => localhost 4000) keep)
    (Server.start () [] (ascii "YedisServer") (0 : ℕ)) [] _ := .start
  have run₁ := run₀.next (.accept false (by decide) rfl)
  have run₂ := run₁.next (.accept true (by decide) rfl)
  refine ⟨_, _, run₂, rfl, ?_⟩
  apply (connection_names_distinct run₂ (by decide)).mpr
  exact namesApart_of_short _ (by decide)

/-- A peer whose text is as long as can be. -/
def longPeer : SocketAddr := ⟨[255, 255, 255, 255].get, 65535⟩

/-- The numbers 100000000 and 100000001 are cut to the same eight digits, and the second connection
takes the place of the first. -/
theorem connection_names_collide :
    ∃ trace s, Run (NetStep (fun c => if c then 6 else 5) (fun _ => longPeer) keep)
        (Server.start () [] (ascii "YedisServer") (100000000 : ℕ)) trace s ∧
      labels trace = [.accept true, .accept false] ∧
      ¬ (storedKeys (fun _ => longPeer) trace).Nodup ∧
      s.m_mapConnections (ascii "YedisServer:255.255.255.255:65535#10000000") = some true ∧
      s.ended = [] ∧ ∀ key, s.m_mapConnections key ≠ some false := by
  have run₀ : Run (NetStep (fun c : Bool => if c then 6 else 5) (fun _ => longPeer) keep)
    (Server.start () [] (ascii "YedisServer") (100000000 : ℕ)) [] _ := .start
  have run₁ := run₀.next (.accept false (by decide) rfl)
  have run₂ := run₁.next (.accept true (by decide) rfl)
  have hkeys : storedKeys (fun _ => longPeer) _ =
      [ascii "YedisServer:255.255.255.255:65535#10000000",
        ascii "YedisServer:255.255.255.255:65535#10000000"] :=
    (numbered_run run₂ (by decide)).keys.trans (by decide)
  have htable := (numbered_run run₂ (by decide)).table
  refine ⟨_, _, run₂, rfl, fun hnodup => ?_, by decide, rfl, fun key hkey => ?_⟩
  · rw [hkeys] at hnodup
    exact absurd hnodup (by simp)
  · have hmem := htable key false hkey
    rw [hkeys] at hmem
    obtain rfl : key = ascii "YedisServer:255.255.255.255:65535#10000000" := by simpa using hmem
    exact absurd hkey (by decide)

end Yedis.Net
