import Yedis.Decimal
import Yedis.Window

/-!
# The reply buffer

`ReplyBuffer` as in ReplyBuffer.cpp: storage with a read and a write position, which
grows by half of its size until the bytes to push fit. Below the largest size every
push comes behind the readable bytes.
-/

namespace Yedis
open Window

/-- `MAX_BUFFER_SIZE`. -/
def maxBufferSize : ℕ := (2 ^ 64 - 1) / 2

structure ReplyBuffer where
  vecBuffer : Bytes := []
  nReadPos : ℕ := 0
  nWritePos : ℕ := 0
  read_le : nReadPos ≤ nWritePos := by exact le_refl _
  write_le : nWritePos ≤ vecBuffer.length := by exact Nat.zero_le _

inductive BufferFault
  | assertion
  deriving DecidableEq, Repr

namespace ReplyBuffer

def readableSize (b : ReplyBuffer) : ℕ := b.nWritePos - b.nReadPos

def writableSize (b : ReplyBuffer) : ℕ := b.vecBuffer.length - b.nWritePos

/-- The bytes from `readAddr()` up to `writeAddr()`. -/
def readable (b : ReplyBuffer) : Bytes := window b.vecBuffer b.nReadPos b.nWritePos

theorem readable_length (b : ReplyBuffer) : b.readable.length = b.readableSize :=
  window_length b.nReadPos b.write_le

/-- `m_vecBuffer.resize(size)` for a size that is not smaller. -/
def resize (b : ReplyBuffer) (size : ℕ) : ReplyBuffer :=
  { b with
    vecBuffer := b.vecBuffer ++ List.replicate (size - b.vecBuffer.length) 0
    write_le := by
      rw [List.length_append]
      exact b.write_le.trans (Nat.le_add_right _ _) }

theorem length_resize {b : ReplyBuffer} {size : ℕ} (h : b.vecBuffer.length ≤ size) :
    (b.resize size).vecBuffer.length = size := by
  rw [resize, List.length_append, List.length_replicate]
  omega

theorem readable_resize (b : ReplyBuffer) (size : ℕ) : (b.resize size).readable = b.readable :=
  window_append b.read_le b.write_le _

/-- The `while` loop of `assureSpace`, at the head of which `maxSize` is the size of the storage. -/
def growLoop (b : ReplyBuffer) (nSize : ℕ) : ReplyBuffer :=
  if nSize > b.writableSize + b.nReadPos then
    if b.vecBuffer.length < 64 then growLoop (b.resize 64) nSize
    else if b.vecBuffer.length ≤ maxBufferSize then
      growLoop (b.resize (b.vecBuffer.length + b.vecBuffer.length / 2)) nSize
    else b
  else b
termination_by maxBufferSize + 1 - b.vecBuffer.length
decreasing_by
  · rw [length_resize (by omega), maxBufferSize]
    omega
  · rw [length_resize (by omega)]
    omega

/-- `memmove` of the readable bytes to the front. -/
def moveToFront (b : ReplyBuffer) : ReplyBuffer where
  vecBuffer := b.readable ++ b.vecBuffer.drop b.readableSize
  nReadPos := 0
  nWritePos := b.readableSize
  read_le := Nat.zero_le _
  write_le := by
    rw [List.length_append, readable_length]
    exact Nat.le_add_right _ _

def assureSpace (b : ReplyBuffer) (nSize : ℕ) : ReplyBuffer :=
  if nSize ≤ b.writableSize then b
  else
    let grown := b.growLoop nSize
    if 0 < grown.nReadPos then grown.moveToFront else grown

/-- The result of `pushDataAt`: room for the bytes it says it has copied. -/
structure Pushed where
  buffer : ReplyBuffer
  nBytes : ℕ
  room : nBytes ≤ buffer.writableSize

/-- `memcpy` behind the write position. -/
def copyAt (b : ReplyBuffer) (data : Bytes) (offset : ℕ)
    (h : data.length + offset ≤ b.writableSize) : Pushed where
  buffer :=
    { b with
      vecBuffer := b.vecBuffer.take (b.nWritePos + offset) ++ data ++
        b.vecBuffer.drop (b.nWritePos + offset + data.length)
      write_le := by
        have := b.write_le
        simp only [List.length_append, List.length_take]
        omega }
  nBytes := data.length
  room := by
    have hfit : data.length + offset ≤ b.vecBuffer.length - b.nWritePos := h
    have := b.write_le
    simp only [writableSize, List.length_append, List.length_take, List.length_drop]
    omega

def pushDataAt (b : ReplyBuffer) (data : Bytes) (offset : ℕ) : Except BufferFault Pushed :=
  if data.length = 0 then .ok ⟨b, 0, Nat.zero_le _⟩
  else if b.readableSize = maxBufferSize then .ok ⟨b, 0, Nat.zero_le _⟩
  else
    let assured := b.assureSpace (data.length + offset)
    if h : data.length + offset ≤ assured.writableSize then .ok (assured.copyAt data offset h)
    else .error .assertion

def adjustWritePtr (p : Pushed) : ReplyBuffer :=
  { p.buffer with
    nWritePos := p.buffer.nWritePos + p.nBytes
    read_le := p.buffer.read_le.trans (Nat.le_add_right _ _)
    write_le := by
      have hroom := p.room
      have hwrite := p.buffer.write_le
      rw [writableSize] at hroom
      omega }

def pushData (b : ReplyBuffer) (data : Bytes) : Except BufferFault (ℕ × ReplyBuffer) := do
  let p ← b.pushDataAt data 0
  return (p.nBytes, adjustWritePtr p)

def write (b : ReplyBuffer) (data : Bytes) : Except BufferFault (ℕ × ReplyBuffer) := b.pushData data

/-- The bytes that `peekDataAt` copies to a target, where `pBuf` says whether there is one. -/
def peekDataAt (b : ReplyBuffer) (pBuf : Bool) (nSize offset : ℕ) : Bytes :=
  let dataSize := b.readableSize
  if pBuf = false ∨ nSize = 0 ∨ dataSize ≤ offset then []
  else
    let nSize := if nSize + offset > dataSize then dataSize - offset else nSize
    (b.vecBuffer.drop (b.nReadPos + offset)).take nSize

/-- `adjustReadPtr` by no more than the readable bytes. -/
def adjustReadPtr (b : ReplyBuffer) (nBytes : ℕ) (h : nBytes ≤ b.readableSize) : ReplyBuffer :=
  { b with
    nReadPos := b.nReadPos + nBytes
    read_le := by
      have := b.read_le
      rw [readableSize] at h
      omega }

theorem peekDataAt_length_le (b : ReplyBuffer) (pBuf : Bool) (nSize offset : ℕ) :
    (b.peekDataAt pBuf nSize offset).length ≤ b.readableSize := by
  unfold peekDataAt
  simp only
  split_ifs with hnone hclip
  · exact Nat.zero_le _
  · exact (List.length_take_le _ _).trans (Nat.sub_le _ _)
  · exact (List.length_take_le _ _).trans (by omega)

/-- The bytes are in the target, and their number is returned. -/
def peekData (b : ReplyBuffer) (pBuf : Bool) (nSize : ℕ) : Bytes × ReplyBuffer :=
  (b.peekDataAt pBuf nSize 0,
    b.adjustReadPtr (b.peekDataAt pBuf nSize 0).length (b.peekDataAt_length_le pBuf nSize 0))

/-- `shrink` of a vector with the given capacity. -/
def shrink (b : ReplyBuffer) (capacity : ℕ) (tight : Bool) : Except BufferFault ReplyBuffer :=
  if capacity ≠ b.vecBuffer.length then .error .assertion
  else if b.vecBuffer = [] then
    if b.nReadPos = 0 ∧ b.nWritePos = 0 then .ok b else .error .assertion
  else
    let oldCap := b.vecBuffer.length
    let dataSize := b.readableSize
    if tight = false ∧ dataSize > oldCap / 2 then .ok b
    else
      .ok
        { vecBuffer := (b.vecBuffer.drop b.nReadPos).take dataSize
          nReadPos := 0
          nWritePos := dataSize
          read_le := Nat.zero_le _
          write_le := (readable_length b).ge }

def clear (b : ReplyBuffer) : ReplyBuffer := { vecBuffer := b.vecBuffer }

/-- The loop ends with room for the bytes, unless the storage has passed its largest size. -/
theorem growLoop_spec (b : ReplyBuffer) (nSize : ℕ) :
    (b.growLoop nSize).readable = b.readable ∧ (b.growLoop nSize).readableSize = b.readableSize ∧
      (nSize ≤ (b.growLoop nSize).writableSize + (b.growLoop nSize).nReadPos ∨
        maxBufferSize < (b.growLoop nSize).vecBuffer.length) := by
  fun_induction growLoop b nSize with
  | case1 b hneed hsmall ih => exact ⟨ih.1.trans (b.readable_resize _), ih.2⟩
  | case2 b hneed hsmall hmax ih => exact ⟨ih.1.trans (b.readable_resize _), ih.2⟩
  | case3 b hneed hsmall hmax => exact ⟨rfl, rfl, Or.inr (by omega)⟩
  | case4 b hfits => exact ⟨rfl, rfl, Or.inl (by omega)⟩

theorem readable_moveToFront (b : ReplyBuffer) : b.moveToFront.readable = b.readable := by
  have hmove := window_move (i := b.nReadPos) b.write_le [] (b.vecBuffer.drop b.readableSize) rfl
  rw [List.length_nil, Nat.zero_add] at hmove
  exact hmove

theorem readable_assureSpace (b : ReplyBuffer) (nSize : ℕ) :
    (b.assureSpace nSize).readable = b.readable := by
  have hgrown := (b.growLoop_spec nSize).1
  unfold assureSpace
  split_ifs with hroom
  · rfl
  · simp only
    split_ifs
    · rw [readable_moveToFront, hgrown]
    · exact hgrown

/-- Below the largest size there is room. -/
theorem le_writableSize_assureSpace {b : ReplyBuffer} {nSize : ℕ}
    (h : b.readableSize + nSize ≤ maxBufferSize) :
    nSize ≤ (b.assureSpace nSize).writableSize := by
  obtain ⟨-, hsize, hroom⟩ := b.growLoop_spec nSize
  have hread := (b.growLoop nSize).read_le
  have hwrite := (b.growLoop nSize).write_le
  unfold assureSpace
  split_ifs with hfits
  · exact hfits
  · simp only
    split_ifs with hmove
    · have hlen := readable_length (b.growLoop nSize)
      simp only [writableSize, moveToFront, List.length_append, List.length_drop] at hroom ⊢
      simp only [readableSize] at hsize h hlen ⊢
      omega
    · simp only [writableSize, readableSize] at hroom hsize h ⊢
      omega

theorem readable_copyAt (b : ReplyBuffer) (data : Bytes) (h : data.length + 0 ≤ b.writableSize) :
    (adjustWritePtr (b.copyAt data 0 h)).readable = b.readable ++ data :=
  window_write b.read_le b.write_le data _

/-- Below the largest size the bytes come behind the readable ones. -/
theorem pushData_run (b : ReplyBuffer) (data : Bytes)
    (h : b.readableSize + data.length ≤ maxBufferSize) :
    ∃ b', b.pushData data = .ok (data.length, b') ∧ b'.readable = b.readable ++ data := by
  by_cases hempty : data = []
  · subst hempty
    exact ⟨b, rfl, (List.append_nil _).symm⟩
  · have hpos := List.length_pos_iff.mpr hempty
    have hroom : data.length + 0 ≤ (b.assureSpace (data.length + 0)).writableSize :=
      le_writableSize_assureSpace h
    refine ⟨adjustWritePtr ((b.assureSpace (data.length + 0)).copyAt data 0 hroom), ?_, ?_⟩
    · rw [pushData, pushDataAt, if_neg (by omega), if_neg (by omega), dif_pos hroom]
      rfl
    · rw [readable_copyAt, readable_assureSpace]

theorem peekDataAt_readable (b : ReplyBuffer) (nSize : ℕ) :
    b.peekDataAt true nSize 0 = b.readable.take nSize := by
  have hlen := b.readable_length
  unfold peekDataAt
  simp only [Bool.true_eq_false, false_or, Nat.add_zero, Nat.sub_zero]
  split_ifs with hnone hclip
  · rcases hnone with hzero | hempty
    · rw [hzero, List.take_zero]
    · rw [List.length_eq_zero_iff.mp (hlen.trans (Nat.le_zero.mp hempty)), List.take_nil]
  · exact (List.take_of_length_le (hlen.trans_le hclip.le)).symm
  · have hle : nSize ≤ b.nWritePos - b.nReadPos := Nat.le_of_not_lt hclip
    rw [readable, window, List.take_take, min_eq_left hle]

theorem readable_adjustReadPtr (b : ReplyBuffer) (nBytes : ℕ) (h : nBytes ≤ b.readableSize) :
    (b.adjustReadPtr nBytes h).readable = b.readable.drop nBytes :=
  window_drop _ _ _ _

/-- With a target the bytes are taken from the front of the readable ones. -/
theorem peekData_run (b : ReplyBuffer) (nSize : ℕ) :
    (b.peekData true nSize).1 = b.readable.take nSize ∧
      (b.peekData true nSize).2.readable = b.readable.drop nSize := by
  refine ⟨b.peekDataAt_readable nSize, ?_⟩
  rw [peekData, readable_adjustReadPtr, peekDataAt_readable, List.length_take]
  rcases Nat.le_total nSize b.readable.length with hle | hle
  · rw [Nat.min_eq_left hle]
  · rw [Nat.min_eq_right hle, List.drop_length, List.drop_of_length_le hle]

theorem peekData_null (b : ReplyBuffer) (nSize : ℕ) : b.peekData false nSize = ([], b) := rfl

theorem readable_clear (b : ReplyBuffer) : b.clear.readable = [] := window_self _ _

/-- Where the assertion on the capacity passes, the others do, and the readable bytes are kept. -/
theorem shrink_run (b : ReplyBuffer) {capacity : ℕ} (h : capacity = b.vecBuffer.length)
    (tight : Bool) : ∃ b', b.shrink capacity tight = .ok b' ∧ b'.readable = b.readable := by
  have hread := b.read_le
  have hwrite := b.write_le
  unfold shrink
  rw [if_neg (not_not.mpr h)]
  by_cases hempty : b.vecBuffer = []
  · rw [hempty, List.length_nil] at hwrite
    rw [if_pos hempty, if_pos (by omega)]
    exact ⟨b, rfl, rfl⟩
  · rw [if_neg hempty]
    simp only
    split_ifs
    · exact ⟨b, rfl, rfl⟩
    · refine ⟨_, rfl, ?_⟩
      change (b.readable.drop 0).take (b.readableSize - 0) = b.readable
      rw [List.drop_zero, Nat.sub_zero, ← readable_length, List.take_length]

end ReplyBuffer

end Yedis
