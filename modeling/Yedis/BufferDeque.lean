import Yedis.Buffer
import Yedis.Family
import Yedis.IntToken

/-!
# Network buffers are double-ended sequences of bytes

The operations of `Buffer` with their assertions and in the arithmetic of `size_t`,
over the operations on natural numbers. The abstract model of a buffer is the sequence
of its readable bytes. As long as `makeSpace` is not asked for so many bytes that its
sums pass the largest `size_t`, no assertion fails and buffers behave as such sequences,
where a call for more than a vector can hold throws and leaves the buffer as it was.
-/

namespace Yedis
open Runs

namespace Buffer

inductive Fault
  | assertion
  /-- the storage has become smaller than the write index -/
  | indices
  /-- `std::string` of a negative length -/
  | length
  /-- `resize` throws `length_error`, the storage is as it was -/
  | resize
  deriving DecidableEq, Repr

def sizeT (n : ℕ) : ℕ := n % 2 ^ 64

namespace Checked

def makeSpace (b : Buffer) (len : ℕ) : Except Fault Buffer :=
  if b.writableBytes + b.prependableBytes < sizeT (len + kCheapPrepend) then
    -- the largest size of a vector of `char` is `2 ^ 63 - 1`
    if b.writerIndex + len < 2 ^ 63 then .ok (b.grow len)
    else if b.writerIndex + len < 2 ^ 64 then .error .resize
    -- where the sum wraps around it is less than `writerIndex_`
    else .error .indices
  else if kCheapPrepend < b.readerIndex then
    if b.compact.readableBytes = b.readableBytes then .ok b.compact else .error .assertion
  else .error .assertion

def ensureWritableBytes (b : Buffer) (len : ℕ) : Except Fault Buffer := do
  let b ← if b.writableBytes < len then makeSpace b len else .ok b
  if len ≤ b.writableBytes then .ok b else .error .assertion

/-- `append` with the assertion of `hasWritten`. -/
def append (b : Buffer) (data : Bytes) : Except Fault Buffer := do
  let b ← ensureWritableBytes b data.length
  if h : data.length ≤ b.writableBytes then .ok (b.write data h) else .error .assertion

def sizeofExtrabuf : ℕ := 65536

/-- The space that `readFd` offers to `readv`. -/
def offered (b : Buffer) : ℕ :=
  if b.writableBytes < sizeofExtrabuf then b.writableBytes + sizeofExtrabuf else b.writableBytes

theorem offered_le (b : Buffer) : offered b ≤ b.writableBytes + sizeofExtrabuf := by
  unfold offered
  split_ifs
  · exact le_refl _
  · exact Nat.le_add_right _ _

/-- The extra buffer is only used where there is less room than it has. -/
theorem writableBytes_lt_of_offered {b : Buffer} {n : ℕ} (h : n ≤ offered b)
    (hmore : b.writableBytes < n) : b.writableBytes < sizeofExtrabuf := by
  unfold offered at h
  split_ifs at h with hlt
  · exact hlt
  · omega

theorem take_fits (b : Buffer) (data : Bytes) :
    (data.take b.writableBytes).length ≤ b.writableBytes := List.length_take_le _ _

/-- `readFd` where `readv` delivers some data, or fails. -/
def readFd (b : Buffer) : Option Bytes → Except Fault Buffer
  | none => .ok b
  | some data =>
    if h : data.length ≤ b.writableBytes then .ok (b.write data h)
    else append (b.write (data.take b.writableBytes) (take_fits b data)) (data.drop b.writableBytes)

def retrieve (b : Buffer) (len : ℕ) : Except Fault Buffer :=
  if h : len ≤ b.readableBytes then .ok (b.retrieve len h) else .error .assertion

def retrieveAsString (b : Buffer) (len : ℕ) : Except Fault (Bytes × Buffer) := do
  if len ≤ b.readableBytes then
    let result := (b.buffer.drop b.readerIndex).take len
    let b ← retrieve b len
    return (result, b)
  else .error .assertion

def toStringPiece (b : Buffer) : Except Fault Bytes :=
  let len := wrap32 b.readableBytes
  if len < 0 then .error .length else .ok ((b.buffer.drop b.readerIndex).take len.toNat)

def prepend (b : Buffer) (data : Bytes) : Except Fault Buffer :=
  if h : data.length ≤ b.prependableBytes then .ok (b.prepend data h) else .error .assertion

def unwrite (b : Buffer) (len : ℕ) : Except Fault Buffer :=
  if h : len ≤ b.readableBytes then .ok (b.unwrite len h) else .error .assertion

def shrink (b : Buffer) (reserve : ℕ) : Except Fault Buffer := do
  let other ← ensureWritableBytes Buffer.new (sizeT (b.readableBytes + reserve))
  let piece ← toStringPiece b
  append other piece

/-- The sums of `makeSpace` stay in the range of `size_t` where it is called. -/
def Representable (b : Buffer) (len : ℕ) : Prop :=
  b.writableBytes < len → max kCheapPrepend b.writerIndex + len < 2 ^ 64

/-- `makeSpace` is called, and asks for a storage that is larger than a vector can be. -/
def TooLong (b : Buffer) (len : ℕ) : Prop :=
  b.writableBytes < len ∧ b.writableBytes + b.prependableBytes < len + kCheapPrepend ∧
    2 ^ 63 ≤ b.writerIndex + len

/-- Then about `2 ^ 62` bytes are asked for or in the buffer. -/
theorem TooLong.lt {b : Buffer} {len : ℕ} (h : TooLong b len) :
    2 ^ 63 < b.readableBytes + 2 * len + kCheapPrepend := by
  obtain ⟨-, hgrow, hlong⟩ := h
  have hr := b.reader_le
  have hw := b.writer_le
  rw [writableBytes, prependableBytes] at hgrow
  rw [readableBytes]
  omega

theorem not_tooLong {b : Buffer} {len : ℕ} (hcontent : b.readableBytes < 2 ^ 31)
    (hlen : len < 2 ^ 31) : ¬ TooLong b len := by
  intro hlong
  have hlt := hlong.lt
  have : kCheapPrepend = 8 := rfl
  omega

theorem sizeT_add_kCheapPrepend {b : Buffer} {len : ℕ} (h : Representable b len)
    (hneed : b.writableBytes < len) : sizeT (len + kCheapPrepend) = len + kCheapPrepend := by
  have hsum := h hneed
  exact Nat.mod_eq_of_lt (by omega)

/-- Where there is not enough room at the end, but in front and at the end together, the content
has moved away from the reserved prefix. -/
theorem makeSpace_ok {b : Buffer} {len : ℕ} (h : Representable b len)
    (hneed : b.writableBytes < len) (hshort : ¬ TooLong b len) :
    makeSpace b len = .ok (b.makeSpace len) := by
  unfold makeSpace Buffer.makeSpace
  rw [sizeT_add_kCheapPrepend h hneed]
  by_cases hgrow : b.writableBytes + b.prependableBytes < len + kCheapPrepend
  · have hfits : b.writerIndex + len < 2 ^ 63 := by
      by_contra hlong
      exact hshort ⟨hneed, hgrow, Nat.le_of_not_lt hlong⟩
    rw [if_pos hgrow, if_pos hgrow, if_pos hfits]
  · have hprefix : kCheapPrepend < b.readerIndex := by
      rw [prependableBytes] at hgrow
      omega
    have hreadable : b.compact.readableBytes = b.readableBytes := Nat.add_sub_cancel_left _ _
    rw [if_neg hgrow, if_neg hgrow, if_pos hprefix, if_pos hreadable]

theorem ensureWritableBytes_ok {b : Buffer} {len : ℕ} (h : Representable b len)
    (hshort : ¬ TooLong b len) : ensureWritableBytes b len = .ok (b.ensureWritableBytes len) := by
  have hroom := b.le_writableBytes_ensure len
  unfold ensureWritableBytes
  rw [Buffer.ensureWritableBytes] at hroom ⊢
  by_cases hneed : b.writableBytes < len
  · rw [if_pos hneed] at hroom ⊢
    rw [if_pos hneed, makeSpace_ok h hneed hshort]
    exact if_pos hroom
  · rw [if_neg hneed] at hroom ⊢
    rw [if_neg hneed]
    exact if_pos hroom

theorem ensureWritableBytes_throws {b : Buffer} {len : ℕ} (h : Representable b len)
    (hlong : TooLong b len) : ensureWritableBytes b len = .error .resize := by
  obtain ⟨hneed, hgrow, hsize⟩ := hlong
  have hsum := h hneed
  unfold ensureWritableBytes makeSpace
  rw [if_pos hneed, sizeT_add_kCheapPrepend h hneed, if_pos hgrow, if_neg (by omega),
    if_pos (by omega)]
  rfl

theorem append_ok {b : Buffer} {data : Bytes} (h : Representable b data.length)
    (hshort : ¬ TooLong b data.length) : append b data = .ok (b.append data) := by
  unfold append
  rw [ensureWritableBytes_ok h hshort]
  exact dif_pos (b.le_writableBytes_ensure data.length)

theorem append_throws {b : Buffer} {data : Bytes} (h : Representable b data.length)
    (hlong : TooLong b data.length) : append b data = .error .resize := by
  unfold append
  rw [ensureWritableBytes_throws h hlong]
  rfl

/-- What does not fit is at most the extra buffer, which never makes the storage too long. -/
theorem readFd_ok {b : Buffer} {data : Bytes} (h : Representable b data.length)
    (hoffered : data.length ≤ offered b) (hcontent : b.readableBytes < 2 ^ 31) :
    readFd b (some data) = .ok (b.readFd data) := by
  unfold Buffer.readFd
  rw [readFd]
  by_cases hfits : data.length ≤ b.writableBytes
  · rw [dif_pos hfits, dif_pos hfits]
  · have hsum := h (by omega)
    have hw := b.writer_le
    have hr := b.reader_le
    have hextra := hoffered.trans (offered_le b)
    have hroom := writableBytes_lt_of_offered hoffered (Nat.lt_of_not_le hfits)
    rw [dif_neg hfits, dif_neg hfits]
    refine append_ok (fun _ => ?_) fun hlong => ?_
    · simp only [writableBytes] at hfits
      simp only [write, writableBytes, List.length_take, List.length_drop]
      omega
    · have hlt := hlong.lt
      simp only [sizeofExtrabuf, write, readableBytes, writableBytes, List.length_take,
        List.length_drop, kCheapPrepend] at hextra hroom hcontent hfits hlt
      omega

theorem toStringPiece_ok {b : Buffer} (h : b.readableBytes < 2 ^ 31) :
    toStringPiece b = .ok b.readable := by
  unfold toStringPiece
  rw [wrap32_of_range (by omega) (by omega)]
  exact if_neg (by omega)

/-- Beyond that range the storage is made too small, or one of the assertions fails. -/
theorem ensureWritableBytes_error {b : Buffer} {len : ℕ} (hsize : b.buffer.length < 2 ^ 63)
    (h : ¬ Representable b len) :
    ∃ fault, fault ≠ .resize ∧ ensureWritableBytes b len = .error fault := by
  have hp := b.prepend_le
  have hr := b.reader_le
  have hw := b.writer_le
  have hk : kCheapPrepend = 8 := rfl
  rw [Representable, Classical.not_imp] at h
  obtain ⟨hneed, hover⟩ := h
  unfold ensureWritableBytes makeSpace
  rw [if_pos hneed]
  split_ifs with hgrow hfits hsum hprefix hreadable
  · simp only [writableBytes, prependableBytes, sizeT] at hgrow hneed
    omega
  · simp only [writableBytes, prependableBytes, sizeT] at hgrow hneed
    omega
  · exact ⟨.indices, by decide, rfl⟩
  · have hshort : ¬ len ≤ b.compact.writableBytes := by
      simp only [compact, writableBytes, List.length_append, List.length_take, List.length_drop,
        readable_length, readableBytes]
      omega
    exact ⟨.assertion, by decide, if_neg hshort⟩
  · exact ⟨.assertion, by decide, rfl⟩
  · exact ⟨.assertion, by decide, rfl⟩

theorem writerIndex_ensure_new (len : ℕ) :
    (new.ensureWritableBytes len).writerIndex = kCheapPrepend := by
  unfold Buffer.ensureWritableBytes Buffer.makeSpace
  split_ifs <;> rfl

theorem readableBytes_ensure_new (len : ℕ) : (new.ensureWritableBytes len).readableBytes = 0 := by
  rw [← readable_length, readable_ensureWritableBytes]
  rfl

theorem shrink_ok {b : Buffer} {reserve : ℕ}
    (hspace : Representable new (sizeT (b.readableBytes + reserve)))
    (hshort : b.readableBytes < 2 ^ 31)
    (hnew : ¬ TooLong new (sizeT (b.readableBytes + reserve))) :
    ∃ b', shrink b reserve = .ok b' ∧ b'.readable = b.readable := by
  have happend : Representable (new.ensureWritableBytes (sizeT (b.readableBytes + reserve)))
      b.readable.length := by
    intro _
    rw [writerIndex_ensure_new, max_self, readable_length]
    have : kCheapPrepend = 8 := rfl
    omega
  have hfits : ¬ TooLong (new.ensureWritableBytes (sizeT (b.readableBytes + reserve)))
      b.readable.length := by
    refine not_tooLong ?_ ?_
    · rw [readableBytes_ensure_new]
      decide
    · rwa [readable_length]
  refine ⟨(new.ensureWritableBytes (sizeT (b.readableBytes + reserve))).append b.readable, ?_, ?_⟩
  · unfold shrink
    rw [ensureWritableBytes_ok hspace hnew, toStringPiece_ok hshort]
    exact append_ok happend hfits
  · rw [readable_append, readable_ensureWritableBytes, readable_new, List.nil_append]

end Checked

end Buffer

open Buffer Buffer.Checked

inductive BufferOp
  | append (data : Bytes)
  | readFd (delivered : Option Bytes)
  | retrieve (len : ℕ)
  | retrieveAsString (len : ℕ)
  | retrieveAll
  | prepend (data : Bytes)
  | unwrite (len : ℕ)
  | ensureWritableBytes (len : ℕ)
  | shrink (reserve : ℕ)

namespace BufferOp

/-- The string that the call returns, and the buffer it leaves. -/
def run (b : Buffer) : BufferOp → Except Fault (Bytes × Buffer)
  | append data => do return ([], ← Checked.append b data)
  | readFd delivered => do return ([], ← Checked.readFd b delivered)
  | retrieve len => do return ([], ← Checked.retrieve b len)
  | retrieveAsString len => Checked.retrieveAsString b len
  | retrieveAll => .ok ([], b.retrieveAll)
  | prepend data => do return ([], ← Checked.prepend b data)
  | unwrite len => do return ([], ← Checked.unwrite b len)
  | ensureWritableBytes len => do return ([], ← Checked.ensureWritableBytes b len)
  | shrink reserve => do return ([], ← Checked.shrink b reserve)

/-- The assertions of the operation on its argument, for `readFd` what `readv` may return, and for
`readFd` and `shrink` a content that an `int` can count. -/
def Allowed (b : Buffer) : BufferOp → Prop
  | readFd (some data) => 1 ≤ data.length ∧ data.length ≤ offered b ∧ b.readableBytes < 2 ^ 31
  | retrieve len | retrieveAsString len | unwrite len => len ≤ b.readableBytes
  | prepend data => data.length ≤ b.prependableBytes
  | shrink _ => b.readableBytes < 2 ^ 31
  | _ => True

/-- The space the operation asks `makeSpace` for does not overflow. -/
def InRange (b : Buffer) : BufferOp → Prop
  | append data | readFd (some data) => Representable b data.length
  | ensureWritableBytes len => Representable b len
  | shrink reserve => Representable Buffer.new (sizeT (b.readableBytes + reserve))
  | _ => True

/-- The sequence after the operation. -/
def next (q : Bytes) : BufferOp → Bytes
  | append data | readFd (some data) => q ++ data
  | retrieve len | retrieveAsString len => q.drop len
  | retrieveAll => []
  | prepend data => data ++ q
  | unwrite len => q.take (q.length - len)
  | _ => q

/-- What the operation returns on a sequence. -/
def result (q : Bytes) : BufferOp → Bytes
  | retrieveAsString len => q.take len
  | _ => []

/-- The operation asks for a larger storage than a vector can have. -/
def Throws (b : Buffer) : BufferOp → Prop
  | append data => TooLong b data.length
  | ensureWritableBytes len => TooLong b len
  | shrink reserve => TooLong Buffer.new (sizeT (b.readableBytes + reserve))
  | _ => False

/-- On a sequence only a call for that much space may throw. -/
def MayThrow (q : Bytes) : BufferOp → Prop
  | append data => 2 ^ 63 < q.length + 2 * data.length + kCheapPrepend
  | ensureWritableBytes len => 2 ^ 63 < q.length + 2 * len + kCheapPrepend
  | shrink reserve => 2 ^ 63 < 2 * sizeT (q.length + reserve) + kCheapPrepend
  | _ => False

theorem Throws.mayThrow {b : Buffer} {op : BufferOp} (h : op.Throws b) :
    op.MayThrow b.readable := by
  cases op with
  | append data =>
      rw [MayThrow, readable_length]
      exact TooLong.lt h
  | ensureWritableBytes len =>
      rw [MayThrow, readable_length]
      exact TooLong.lt h
  | shrink reserve =>
      have hlt := TooLong.lt h
      have hnone : Buffer.new.readableBytes = 0 := rfl
      rw [hnone, Nat.zero_add] at hlt
      rwa [MayThrow, readable_length]
  | _ => exact h.elim

/-- The operation on a sequence of bytes, which does nothing where it throws. -/
def Sequences (q : Bytes) (op : BufferOp) (result : Option Bytes) (q' : Bytes) : Prop :=
  result = some (op.result q) ∧ q' = op.next q ∨ result = none ∧ q' = q ∧ op.MayThrow q

theorem run_ok (b : Buffer) (op : BufferOp) (hallowed : op.Allowed b) (hrange : op.InRange b)
    (hshort : ¬ op.Throws b) :
    ∃ b', op.run b = .ok (op.result b.readable, b') ∧ b'.readable = op.next b.readable := by
  cases op with
  | append data =>
      refine ⟨b.append data, ?_, b.readable_append data⟩
      rw [run, append_ok hrange hshort]
      rfl
  | readFd delivered =>
      cases delivered with
      | none => exact ⟨b, rfl, rfl⟩
      | some data =>
          refine ⟨b.readFd data, ?_, b.readable_readFd data⟩
          rw [run, readFd_ok hrange hallowed.2.1 hallowed.2.2]
          rfl
  | retrieve len =>
      refine ⟨b.retrieve len hallowed, ?_, b.readable_retrieve len hallowed⟩
      rw [run, Checked.retrieve, dif_pos (show len ≤ b.readableBytes from hallowed)]
      rfl
  | retrieveAsString len =>
      have hle : len ≤ b.readableBytes := hallowed
      have hfront : (b.buffer.drop b.readerIndex).take len = b.readable.take len := by
        rw [readable, List.take_take, min_eq_left hle]
      refine ⟨b.retrieve len hallowed, ?_, b.readable_retrieve len hallowed⟩
      rw [run, Checked.retrieveAsString, if_pos hle, Checked.retrieve, dif_pos hle, hfront]
      rfl
  | retrieveAll => exact ⟨b.retrieveAll, rfl, b.readable_retrieveAll⟩
  | prepend data =>
      refine ⟨b.prepend data hallowed, ?_, b.readable_prepend data hallowed⟩
      rw [run, Checked.prepend, dif_pos (show data.length ≤ b.prependableBytes from hallowed)]
      rfl
  | unwrite len =>
      refine ⟨b.unwrite len hallowed, ?_, b.readable_unwrite len hallowed⟩
      rw [run, Checked.unwrite, dif_pos (show len ≤ b.readableBytes from hallowed)]
      rfl
  | ensureWritableBytes len =>
      refine ⟨b.ensureWritableBytes len, ?_, b.readable_ensureWritableBytes len⟩
      rw [run, ensureWritableBytes_ok hrange hshort]
      rfl
  | shrink reserve =>
      obtain ⟨b', hrun, hread⟩ := shrink_ok hrange hallowed hshort
      refine ⟨b', ?_, hread⟩
      rw [run, hrun]
      rfl

theorem run_throws {b : Buffer} {op : BufferOp} (hrange : op.InRange b) (hlong : op.Throws b) :
    op.run b = .error .resize := by
  cases op with
  | append data =>
      rw [run, append_throws hrange hlong]
      rfl
  | ensureWritableBytes len =>
      rw [run, ensureWritableBytes_throws hrange hlong]
      rfl
  | shrink reserve =>
      rw [run, Checked.shrink, ensureWritableBytes_throws hrange hlong]
      rfl
  | _ => exact hlong.elim

/-- An operation that is allowed on a storage that a vector can have fails other than by `resize`
exactly when the space it asks for overflows. -/
theorem run_fails_iff {b : Buffer} (op : BufferOp) (hsize : b.buffer.length < 2 ^ 63)
    (hallowed : op.Allowed b) :
    (∃ fault, fault ≠ .resize ∧ op.run b = .error fault) ↔ ¬ op.InRange b := by
  constructor
  · rintro ⟨fault, hfault, herror⟩ hrange
    by_cases hlong : op.Throws b
    · rw [run_throws hrange hlong, Except.error.injEq] at herror
      exact hfault herror.symm
    · obtain ⟨b', hrun, -⟩ := op.run_ok b hallowed hrange hlong
      rw [hrun] at herror
      cases herror
  · intro hrange
    cases op with
    | append data =>
        obtain ⟨fault, hfault, herror⟩ := ensureWritableBytes_error hsize hrange
        refine ⟨fault, hfault, ?_⟩
        rw [run, Checked.append, herror]
        rfl
    | readFd delivered =>
        cases delivered with
        | none => exact absurd trivial hrange
        | some data =>
            have hoffered := hallowed.2.1.trans (offered_le b)
            have hw := b.writer_le
            have hk : kCheapPrepend = 8 := rfl
            have hmax : max kCheapPrepend b.writerIndex ≤ kCheapPrepend + b.writerIndex :=
              max_le (Nat.le_add_right _ _) (Nat.le_add_left _ _)
            refine absurd (fun _ => ?_) hrange
            rw [writableBytes, sizeofExtrabuf] at hoffered
            omega
    | ensureWritableBytes len =>
        obtain ⟨fault, hfault, herror⟩ := ensureWritableBytes_error hsize hrange
        refine ⟨fault, hfault, ?_⟩
        rw [run, herror]
        rfl
    | shrink reserve =>
        have hnew : new.buffer.length < 2 ^ 63 := by
          rw [Buffer.new, List.length_replicate]
          decide
        obtain ⟨fault, hfault, herror⟩ := ensureWritableBytes_error hnew hrange
        refine ⟨fault, hfault, ?_⟩
        rw [run, Checked.shrink, herror]
        rfl
    | _ => exact absurd trivial hrange

/-- The operation is allowed and its space does not overflow. It ends, or `resize` throws and the
buffer is as it was. -/
inductive Performs (b : Buffer) (op : BufferOp) : Option Bytes → Buffer → Prop
  | returns {result : Bytes} {b' : Buffer} (hallowed : op.Allowed b) (hrange : op.InRange b)
      (h : op.run b = .ok (result, b')) : Performs b op (some result) b'
  | throws (hallowed : op.Allowed b) (hrange : op.InRange b) (h : op.run b = .error .resize) :
      Performs b op none b

theorem Performs.sequences {b b' : Buffer} {op : BufferOp} {result : Option Bytes}
    (h : Performs b op result b') : op.Sequences b.readable result b'.readable := by
  cases h with
  | returns hallowed hrange h =>
      left
      by_cases hlong : op.Throws b
      · rw [run_throws hrange hlong] at h
        cases h
      · obtain ⟨b'', hrun, hread⟩ := op.run_ok b hallowed hrange hlong
        rw [h] at hrun
        simp only [Except.ok.injEq, Prod.mk.injEq] at hrun
        exact ⟨congrArg some hrun.1, hrun.2 ▸ hread⟩
  | throws hallowed hrange h =>
      right
      refine ⟨rfl, rfl, Throws.mayThrow ?_⟩
      by_contra hshort
      obtain ⟨b'', hrun, -⟩ := op.run_ok b hallowed hrange hshort
      rw [h] at hrun
      cases hrun

end BufferOp

theorem writableBytes_new : Buffer.new.writableBytes = 1024 := by
  rw [writableBytes, Buffer.new, List.length_replicate]
  rfl

variable {ι : Type} [DecidableEq ι]

/-- Buffers that are new at first and take operations and `swap` in any order are sequences of
bytes, as long as the space they ask for does not overflow: every operation returns what it returns
on the sequences, or throws and changes nothing where it asks for more than a vector can hold. The
readable bytes of a buffer are its sequence, its indices are in order, and no assertion fails. -/
theorem buffers_are_sequences {s : ι → Buffer}
    {trace : List (Transition (ι → Buffer) (Family.Call ι BufferOp (Option Bytes)))}
    (run : Run (Family.Step BufferOp.Performs) (fun _ => Buffer.new) trace s) :
    (∃ trace' q, Run (Family.Step BufferOp.Sequences) (fun _ => []) trace' q ∧
      labels trace' = labels trace ∧ ∀ i, (s i).readable = q i) ∧
    ∀ i, (s i).readerIndex ≤ (s i).writerIndex ∧ (s i).writerIndex ≤ (s i).buffer.length ∧
      ∀ op : BufferOp, op.Allowed (s i) → op.InRange (s i) →
        (op.Throws (s i) → op.run (s i) = .error .resize) ∧
        (¬ op.Throws (s i) → ∃ b', op.run (s i) = .ok (op.result (s i).readable, b')) := by
  refine ⟨?_, fun i => ⟨(s i).reader_le, (s i).writer_le, fun op hallowed hrange => ⟨?_, ?_⟩⟩⟩
  · exact Family.run_simulated BufferOp.Sequences (fun b q => b.readable = q) (fun _ => []) run
      (fun _ => Buffer.readable_new) fun b q op result b' hq h => by
        subst hq
        exact ⟨_, h.sequences, rfl⟩
  · exact BufferOp.run_throws hrange
  · intro hshort
    obtain ⟨b', hrun, -⟩ := op.run_ok (s i) hallowed hrange hshort
    exact ⟨b', hrun⟩

/-- A buffer receives two bytes and gives one back as a string. -/
theorem buffers_are_sequences_read : ∃ (s : Unit → Buffer) (trace : List (Transition _ _)),
    Run (Family.Step BufferOp.Performs) (fun _ => Buffer.new) trace s ∧
      labels trace =
        [.on () (.retrieveAsString 1) (some [97]), .on () (.readFd (some [97, 98])) (some [])] ∧
      ∃ trace' q, Run (Family.Step BufferOp.Sequences) (fun _ => []) trace' q ∧
        labels trace' = labels trace ∧ ∀ i, (s i).readable = q i := by
  have hallowed : BufferOp.Allowed Buffer.new (.readFd (some [97, 98])) := by
    refine ⟨show 1 ≤ 2 by decide, ?_, show 0 < 2 ^ 31 by decide⟩
    rw [offered, writableBytes_new, if_pos (by decide)]
    decide
  have hrange : BufferOp.InRange Buffer.new (.readFd (some [97, 98])) := by
    intro _
    decide
  obtain ⟨b, hreceive, hread⟩ := BufferOp.run_ok Buffer.new _ hallowed hrange not_false
  have hsize : b.readableBytes = 2 := by
    rw [← b.readable_length, hread]
    rfl
  have hallowed' : BufferOp.Allowed b (.retrieveAsString 1) := by
    change 1 ≤ b.readableBytes
    omega
  obtain ⟨b', hretrieve, -⟩ := BufferOp.run_ok b _ hallowed' trivial not_false
  rw [hread] at hretrieve
  have run : Run (Family.Step BufferOp.Performs) (fun _ : Unit => Buffer.new)
      [⟨_, .on () (.readFd (some [97, 98])) (some []), fun _ => b⟩] fun _ => b :=
    Run.start.next (.on (.returns hallowed hrange hreceive))
  have run' := run.next (.on (i := ()) (.returns hallowed' trivial hretrieve))
  exact ⟨_, _, run', rfl, (buffers_are_sequences run').1⟩

/-- On a new buffer `len + kCheapPrepend` wraps around, and the assertion of `makeSpace` fails. -/
theorem makeSpace_assertion_fails :
    BufferOp.Allowed Buffer.new (.ensureWritableBytes (2 ^ 64 - 1)) ∧
      BufferOp.run Buffer.new (.ensureWritableBytes (2 ^ 64 - 1)) = .error .assertion := by
  refine ⟨trivial, ?_⟩
  rw [BufferOp.run, Checked.ensureWritableBytes, Checked.makeSpace, writableBytes_new,
    if_pos (by decide), if_neg (by decide), if_neg (by decide)]
  rfl

end Yedis
