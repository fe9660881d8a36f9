import Yedis.Family
import Yedis.ReplyBuffer

/-!
# Reply buffers are queues of bytes

The abstract model of a reply buffer is the sequence of the bytes that were pushed and
not read yet. Any number of buffers, pushed to, read, cleared, shrunk and exchanged in
any order, behave as such queues, as long as no push asks for more than the largest
size holds.
-/

namespace Yedis
open Runs

inductive ReplyOp
  | pushData (data : Bytes)
  | write (data : Bytes)
  | peekData (pBuf : Bool) (nSize : ℕ)
  | clear
  | shrink (capacity : ℕ) (tight : Bool)

namespace ReplyOp

/-- What the call returns, the bytes it leaves in its target, and the buffer. -/
def run (b : ReplyBuffer) : ReplyOp → Except BufferFault ((ℕ × Bytes) × ReplyBuffer)
  | pushData data => do
    let (nBytes, b) ← b.pushData data
    return ((nBytes, []), b)
  | write data => do
    let (nBytes, b) ← b.write data
    return ((nBytes, []), b)
  | peekData pBuf nSize =>
    let (bytes, b) := b.peekData pBuf nSize
    .ok ((bytes.length, bytes), b)
  | clear => .ok ((0, []), b.clear)
  | shrink capacity tight => do
    let b ← b.shrink capacity tight
    return ((0, []), b)

/-- The size of a push. -/
def pushed : ReplyOp → ℕ
  | pushData data | write data => data.length
  | _ => 0

/-- The bytes not read yet and those of a push are no more than the largest size. -/
def Fits (b : ReplyBuffer) (op : ReplyOp) : Prop := b.readableSize + op.pushed ≤ maxBufferSize

/-- The capacity assertion of `shrink` passes. -/
def CapacityIsSize (b : ReplyBuffer) : ReplyOp → Prop
  | shrink capacity _ => capacity = b.vecBuffer.length
  | _ => True

def Performs (b : ReplyBuffer) (op : ReplyOp) (result : ℕ × Bytes) (b' : ReplyBuffer) : Prop :=
  op.run b = .ok (result, b') ∧ op.Fits b

/-- The queue after the call. -/
def next (q : Bytes) : ReplyOp → Bytes
  | pushData data | write data => q ++ data
  | peekData pBuf nSize => if pBuf then q.drop nSize else q
  | clear => []
  | shrink _ _ => q

/-- What the call returns on a queue. -/
def result (q : Bytes) : ReplyOp → ℕ × Bytes
  | pushData data | write data => (data.length, [])
  | peekData pBuf nSize => if pBuf then ((q.take nSize).length, q.take nSize) else (0, [])
  | _ => (0, [])

/-- The call on a queue of bytes. -/
def Queues (q : Bytes) (op : ReplyOp) (result : ℕ × Bytes) (q' : Bytes) : Prop :=
  result = op.result q ∧ q' = op.next q

/-- No assertion but that on the capacity fails. -/
theorem run_ok (b : ReplyBuffer) (op : ReplyOp) (hfits : op.Fits b) (hcap : op.CapacityIsSize b) :
    ∃ b', op.run b = .ok (op.result b.readable, b') ∧ b'.readable = op.next b.readable := by
  cases op with
  | pushData data =>
      obtain ⟨b', hrun, hread⟩ := b.pushData_run data hfits
      exact ⟨b', by simp only [run, hrun]; rfl, hread⟩
  | write data =>
      obtain ⟨b', hrun, hread⟩ := b.pushData_run data hfits
      exact ⟨b', by simp only [run, ReplyBuffer.write, hrun]; rfl, hread⟩
  | peekData pBuf nSize =>
      cases pBuf with
      | false => exact ⟨b, rfl, rfl⟩
      | true =>
          obtain ⟨hbytes, hread⟩ := b.peekData_run nSize
          refine ⟨(b.peekData true nSize).2, ?_, hread⟩
          simp only [run, result, hbytes, if_true]
  | clear => exact ⟨b.clear, rfl, b.readable_clear⟩
  | shrink capacity tight =>
      obtain ⟨b', hrun, hread⟩ := b.shrink_run hcap tight
      exact ⟨b', by simp only [run, hrun]; rfl, hread⟩

theorem length_next_le (q : Bytes) (op : ReplyOp) : (op.next q).length ≤ q.length + op.pushed := by
  cases op with
  | pushData data => exact (List.length_append).le
  | write data => exact (List.length_append).le
  | peekData pBuf nSize =>
      cases pBuf with
      | false => exact Nat.le_add_right _ _
      | true =>
          change (q.drop nSize).length ≤ q.length + 0
          rw [List.length_drop]
          exact Nat.sub_le _ _
  | clear => exact Nat.zero_le _
  | shrink capacity tight => exact Nat.le_add_right _ _

theorem capacityIsSize_of_run {b b' : ReplyBuffer} {op : ReplyOp} {result : ℕ × Bytes}
    (h : op.run b = .ok (result, b')) : op.CapacityIsSize b := by
  cases op with
  | shrink capacity tight =>
      by_contra hne
      rw [run, ReplyBuffer.shrink, if_pos (show capacity ≠ b.vecBuffer.length from hne)] at h
      cases h
  | _ => trivial

theorem Performs.queues {b b' : ReplyBuffer} {op : ReplyOp} {result : ℕ × Bytes}
    (h : Performs b op result b') :
    result = op.result b.readable ∧ b'.readable = op.next b.readable := by
  obtain ⟨hrun, hfits⟩ := h
  obtain ⟨b'', hrun', hread⟩ := op.run_ok b hfits (capacityIsSize_of_run hrun)
  rw [hrun] at hrun'
  simp only [Except.ok.injEq, Prod.mk.injEq] at hrun'
  exact ⟨hrun'.1, hrun'.2 ▸ hread⟩

end ReplyOp

variable {ι : Type} [DecidableEq ι]

/-- The bytes pushed by a history of calls. -/
def pushedBytes (calls : List (Family.Call ι ReplyOp (ℕ × Bytes))) : ℕ :=
  (calls.map fun
    | .on _ op _ => op.pushed
    | .swap _ _ => 0).sum

/-- A call on one of the buffers, whatever its size. -/
abbrev BufferStep :
    (ι → ReplyBuffer) → Family.Call ι ReplyOp (ℕ × Bytes) → (ι → ReplyBuffer) → Prop :=
  Family.Step fun b op result b' => op.run b = .ok (result, b')

/-- No buffer holds more bytes than have been pushed, so each push fits if all of them together
do. -/
theorem fits_of_pushedBytes {s : ι → ReplyBuffer}
    {trace : List (Transition (ι → ReplyBuffer) (Family.Call ι ReplyOp (ℕ × Bytes)))}
    (run : Run BufferStep (fun _ => {}) trace s) (h : pushedBytes (labels trace) ≤ maxBufferSize) :
    Run (Family.Step ReplyOp.Performs) (fun _ => {}) trace s ∧
      ∀ i, (s i).readableSize ≤ pushedBytes (labels trace) := by
  induction run with
  | start => exact ⟨.start, fun _ => Nat.zero_le _⟩
  | @next trace s s' call run hstep ih =>
      rw [labels_cons, pushedBytes, List.map_cons, List.sum_cons, ← pushedBytes] at h ⊢
      obtain ⟨hrun, hheld⟩ := ih (by omega)
      cases hstep with
      | @on i op result b' hop =>
          have hheld_i := hheld i
          have hfits : op.Fits (s i) := by
            simp only at h
            rw [ReplyOp.Fits]
            omega
          have hperforms : ReplyOp.Performs (s i) op result b' := ⟨hop, hfits⟩
          refine ⟨hrun.next (.on hperforms), fun k => ?_⟩
          by_cases hk : k = i
          · have hnext := ReplyOp.length_next_le (s i).readable op
            rw [← hperforms.queues.2, ReplyBuffer.readable_length, ReplyBuffer.readable_length]
              at hnext
            rw [hk, Function.update_self]
            simp only
            omega
          · rw [Function.update_of_ne hk]
            exact (hheld k).trans (Nat.le_add_left _ _)
      | swap i j =>
          refine ⟨hrun.next (.swap i j), fun k => ?_⟩
          simp only [Nat.zero_add, Function.update_apply]
          split_ifs
          · exact hheld i
          · exact hheld j
          · exact hheld k

end Yedis
