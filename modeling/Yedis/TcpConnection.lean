import Yedis.Buffer
import Yedis.IntToken
import Yedis.Runs

/-!
# Sending on a connection

`sendInLoop` offers a payload to the socket once and forgets what the socket did not
take, and `handleWrite` writes an output buffer that nothing is ever put into. The
bytes sent are therefore all there, in the socket or in the output buffer, exactly
as long as the socket takes every payload whole.
-/

namespace Yedis
open Runs

inductive State
  | kDisconnected
  | kConnecting
  | kConnected
  | kDisconnecting
  deriving DecidableEq, Repr

def kWriteEvent : ℕ := 4

structure TcpConnection where
  m_State : State
  m_OutputBuffer : Buffer
  /-- `m_nEvents` of its channel -/
  m_nEvents : ℕ

def TcpConnection.isWriting (c : TcpConnection) : Bool := c.m_nEvents &&& kWriteEvent ≠ 0

/-- A connection and its socket: the bytes the socket has accepted, and the payloads that were to
be sent, one behind the other. -/
structure Link where
  connection : TcpConnection
  accepted : Bytes := []
  payloads : Bytes := []

/-- What a non-blocking `write` does: it takes as many bytes, or it fails. -/
inductive WriteAnswer
  | takes (n : ℕ)
  | fails
  deriving DecidableEq, Repr

/-- `Sockets::Write` with an `int32_t` count: its result, and the bytes the socket takes. -/
def Write (data : Bytes) (count : ℤ) : WriteAnswer → ℤ × Bytes
  | .fails => (-1, [])
  | .takes n =>
    if count < 0 then (-1, [])
    else (min n count.toNat, data.take (min n count.toNat))

/-- `sendInLoop`, which looks at nothing that `Write` returns. -/
def sendInLoop (link : Link) (data : Bytes) (answer : WriteAnswer) : Link :=
  if link.connection.m_State = .kDisconnected then
    { link with payloads := link.payloads ++ data }
  else
    let (_nWrote, taken) := Write data (wrap32 data.length) answer
    { link with accepted := link.accepted ++ taken, payloads := link.payloads ++ data }

/-- `handleWrite`, which leaves the output buffer as it is. -/
def handleWrite (link : Link) (answer : WriteAnswer) : Link :=
  if link.connection.isWriting then
    let buffer := link.connection.m_OutputBuffer
    let (_nWrite, taken) := Write buffer.readable (wrap32 buffer.readableBytes) answer
    { link with accepted := link.accepted ++ taken }
  else link

inductive LinkEvent
  | send (data : Bytes) (answer : WriteAnswer)
  | writable (answer : WriteAnswer)
  /-- the poller sets `m_nEvents` -/
  | poll (revt : ℕ)

def LinkEvent.run (link : Link) : LinkEvent → Link
  | send data answer => sendInLoop link data answer
  | writable answer => handleWrite link answer
  | poll revt => { link with connection := { link.connection with m_nEvents := revt } }

def LinkStep (link : Link) (event : LinkEvent) (link' : Link) : Prop := event.run link = link'

/-- A new connection, established. -/
def Link.start : Link := { connection := ⟨.kConnected, Buffer.new, 0⟩ }

/-- What the socket accepted and the output buffer still holds is what was to be sent. -/
def NothingDropped (link : Link) : Prop :=
  link.accepted ++ link.connection.m_OutputBuffer.readable = link.payloads

/-- A payload fits in the count and the socket takes all of it. -/
def TakenWhole : LinkEvent → Prop
  | .send data (.takes n) => data = [] ∨ (data.length < 2147483648 ∧ data.length ≤ n)
  | .send data .fails => data = []
  | _ => True

/-- A connected link that has nothing in its output buffer. -/
def Plain (link : Link) : Prop :=
  link.connection.m_State = .kConnected ∧ link.connection.m_OutputBuffer.readable = []

theorem write_nil (count : ℤ) (answer : WriteAnswer) : (Write [] count answer).2 = [] := by
  cases answer with
  | fails => rfl
  | takes n =>
      rw [Write]
      split_ifs <;> simp

/-- Only of a payload that fits in the count the socket can take all bytes. -/
theorem write_all_iff (data : Bytes) (answer : WriteAnswer) :
    (Write data (wrap32 data.length) answer).2 = data ↔ TakenWhole (.send data answer) := by
  cases answer with
  | fails => simp [Write, TakenWhole, eq_comm]
  | takes n =>
      by_cases hnil : data = []
      · subst hnil
        exact iff_of_true (write_nil _ _) (Or.inl rfl)
      · have hpos : 0 < data.length := List.length_pos_of_ne_nil hnil
        have hwrap : wrap32 data.length ≤ data.length := by
          unfold wrap32
          omega
        rw [Write, TakenWhole, or_iff_right hnil]
        split_ifs with hneg
        · refine iff_of_false (fun h => hnil h.symm) ?_
          rintro ⟨hlt, -⟩
          rw [wrap32_of_range (by omega) (by omega)] at hneg
          omega
        · simp only [List.take_eq_self_iff]
          constructor
          · intro h
            have hrange := wrap32_range data.length
            omega
          · rintro ⟨hlt, hn⟩
            rw [wrap32_of_range (by omega) (by omega)]
            omega

theorem LinkStep.plain {link link' : Link} {event : LinkEvent} (h : LinkStep link event link')
    (hp : Plain link) : Plain link' := by
  obtain rfl := h
  cases event with
  | send data answer =>
      rw [LinkEvent.run, sendInLoop, if_neg (by rw [hp.1]; simp)]
      exact hp
  | writable answer =>
      rw [LinkEvent.run, handleWrite]
      split_ifs
      · exact hp
      · exact hp
  | poll revt => exact hp

/-- From a state where nothing is dropped, a step drops nothing exactly when it is no payload that
the socket takes in part or not at all. -/
theorem LinkStep.nothingDropped {link link' : Link} {event : LinkEvent}
    (h : LinkStep link event link') (hp : Plain link) (hn : NothingDropped link) :
    NothingDropped link' ↔ TakenWhole event := by
  obtain rfl := h
  rw [NothingDropped, hp.2, List.append_nil] at hn
  cases event with
  | send data answer =>
      rw [LinkEvent.run, sendInLoop, if_neg (by rw [hp.1]; simp), NothingDropped]
      simp only [hp.2, List.append_nil, hn]
      rw [List.append_right_inj, write_all_iff]
  | writable answer =>
      refine iff_of_true ?_ trivial
      rw [LinkEvent.run, handleWrite]
      split_ifs
      · rw [NothingDropped]
        simp only [hp.2, write_nil, List.append_nil]
        exact hn
      · rw [NothingDropped, hp.2, List.append_nil]
        exact hn
  | poll revt =>
      refine iff_of_true ?_ trivial
      rw [LinkEvent.run, NothingDropped]
      simp only [hp.2, List.append_nil]
      exact hn

/-- Nothing is dropped in any state of a run if and only if the socket takes every payload whole. -/
theorem nothing_dropped {trace : List (Transition Link LinkEvent)} {link : Link}
    (run : Run LinkStep .start trace link) :
    (∀ t ∈ trace, NothingDropped t.dst) ↔ ∀ t ∈ trace, TakenWhole t.label :=
  run.always_iff (I := Plain) (P := NothingDropped) (Q := fun _ event => TakenWhole event)
    ⟨rfl, rfl⟩ (fun _ _ _ hp hstep => hstep.plain hp) rfl
    (fun _ _ _ hp hn hstep => hstep.nothingDropped hp hn)

/-- A payload of two bytes that is taken whole. -/
theorem nothing_dropped_whole :
    NothingDropped (sendInLoop .start (ascii "ok") (.takes 2)) := by
  have hrun : Run LinkStep .start [⟨.start, .send (ascii "ok") (.takes 2), _⟩] _ :=
    .next .start rfl
  refine (nothing_dropped hrun).mpr ?_ _ List.mem_cons_self
  intro t ht
  rw [List.mem_singleton] at ht
  rw [ht]
  exact Or.inr ⟨by decide, by decide⟩

/-- Of a payload of two bytes the socket takes one, and the other is lost. -/
theorem nothing_dropped_fails :
    Run LinkStep .start [⟨.start, .send (ascii "ok") (.takes 1),
      sendInLoop .start (ascii "ok") (.takes 1)⟩] (sendInLoop .start (ascii "ok") (.takes 1)) ∧
      ¬ NothingDropped (sendInLoop .start (ascii "ok") (.takes 1)) := by
  refine ⟨.next .start rfl, ?_⟩
  unfold NothingDropped
  decide

end Yedis
