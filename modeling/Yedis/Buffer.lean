import Yedis.Decimal
import Yedis.Window

/-!
# The network buffer

`Buffer` as in Buffer.h: storage with a read and a write index. `readable` is the
content between the two. Appending and reading from a socket put bytes behind the
content, whether the storage grows, is compacted or has room, and `retrieve` takes
bytes from its front.
-/

namespace Yedis
open Window

def kCheapPrepend : ℕ := 8

def kInitialSize : ℕ := 1024

structure Buffer where
  buffer : Bytes
  readerIndex : ℕ
  writerIndex : ℕ
  prepend_le : kCheapPrepend ≤ buffer.length
  reader_le : readerIndex ≤ writerIndex
  writer_le : writerIndex ≤ buffer.length

namespace Buffer

def new : Buffer where
  buffer := List.replicate (kCheapPrepend + kInitialSize) 0
  readerIndex := kCheapPrepend
  writerIndex := kCheapPrepend
  prepend_le := by
    rw [List.length_replicate]
    exact Nat.le_add_right _ _
  reader_le := le_refl _
  writer_le := by
    rw [List.length_replicate]
    exact Nat.le_add_right _ _

def readableBytes (b : Buffer) : ℕ := b.writerIndex - b.readerIndex

def writableBytes (b : Buffer) : ℕ := b.buffer.length - b.writerIndex

def prependableBytes (b : Buffer) : ℕ := b.readerIndex

/-- The bytes from `peek()` up to `beginWrite()`. -/
def readable (b : Buffer) : Bytes := (b.buffer.drop b.readerIndex).take b.readableBytes

theorem readable_length (b : Buffer) : b.readable.length = b.readableBytes :=
  window_length b.readerIndex b.writer_le

@[simp] theorem readable_new : new.readable = [] := rfl

def retrieveAll (b : Buffer) : Buffer where
  buffer := b.buffer
  readerIndex := kCheapPrepend
  writerIndex := kCheapPrepend
  prepend_le := b.prepend_le
  reader_le := le_refl _
  writer_le := b.prepend_le

/-- `retrieve`, which asserts `len <= readableBytes()`. -/
def retrieve (b : Buffer) (len : ℕ) (h : len ≤ b.readableBytes) : Buffer :=
  if hlt : len < b.readableBytes then
    { b with
      readerIndex := b.readerIndex + len
      reader_le := by
        rw [readableBytes] at h
        have := b.reader_le
        omega }
  else b.retrieveAll

theorem readable_retrieveAll (b : Buffer) : b.retrieveAll.readable = [] :=
  window_self b.buffer kCheapPrepend

theorem readable_retrieve (b : Buffer) (len : ℕ) (h : len ≤ b.readableBytes) :
    (b.retrieve len h).readable = b.readable.drop len := by
  unfold retrieve
  split
  · exact window_drop b.buffer b.readerIndex b.writerIndex len
  · rw [readable_retrieveAll, List.drop_of_length_le (by rw [readable_length]; omega)]

/-- `buffer_.resize(writerIndex_ + len)` where there is no room for `len` bytes. -/
def grow (b : Buffer) (len : ℕ) : Buffer :=
  { b with
    buffer := b.buffer ++ List.replicate (b.writerIndex + len - b.buffer.length) 0
    prepend_le := by
      rw [List.length_append]
      exact b.prepend_le.trans (Nat.le_add_right _ _)
    writer_le := by
      rw [List.length_append]
      exact b.writer_le.trans (Nat.le_add_right _ _) }

/-- The content moved to the place behind the reserved prefix. -/
def compact (b : Buffer) : Buffer where
  buffer := b.buffer.take kCheapPrepend ++ b.readable ++
    b.buffer.drop (kCheapPrepend + b.readableBytes)
  readerIndex := kCheapPrepend
  writerIndex := kCheapPrepend + b.readableBytes
  prepend_le := by
    have := b.prepend_le
    simp only [List.length_append, List.length_take]
    omega
  reader_le := Nat.le_add_right _ _
  writer_le := by
    have := b.prepend_le
    simp only [List.length_append, List.length_take, readable_length]
    omega

/-- `makeSpace`, which grows the storage or moves the content to its front. -/
def makeSpace (b : Buffer) (len : ℕ) : Buffer :=
  if b.writableBytes + b.prependableBytes < len + kCheapPrepend then b.grow len else b.compact

def ensureWritableBytes (b : Buffer) (len : ℕ) : Buffer :=
  if b.writableBytes < len then b.makeSpace len else b

theorem readable_grow (b : Buffer) (len : ℕ) : (b.grow len).readable = b.readable :=
  window_append b.reader_le b.writer_le _

theorem readable_compact (b : Buffer) : b.compact.readable = b.readable := by
  have hpre : (b.buffer.take kCheapPrepend).length = kCheapPrepend := by
    have := b.prepend_le
    rw [List.length_take]
    omega
  exact window_move b.writer_le _ _ hpre

theorem readable_makeSpace (b : Buffer) (len : ℕ) :
    (b.makeSpace len).readable = b.readable := by
  unfold makeSpace
  split
  · exact b.readable_grow len
  · exact b.readable_compact

theorem le_writableBytes_makeSpace (b : Buffer) (len : ℕ) :
    len ≤ (b.makeSpace len).writableBytes := by
  have hp := b.prepend_le
  have hr := b.reader_le
  have hw := b.writer_le
  unfold makeSpace
  split
  · simp only [grow, writableBytes, List.length_append, List.length_replicate]
    omega
  · rename_i hroom
    simp only [compact, writableBytes, List.length_append, List.length_take, List.length_drop,
      readable_length] at hroom ⊢
    simp only [prependableBytes, readableBytes] at hroom ⊢
    omega

theorem readable_ensureWritableBytes (b : Buffer) (len : ℕ) :
    (b.ensureWritableBytes len).readable = b.readable := by
  unfold ensureWritableBytes
  split
  · exact b.readable_makeSpace len
  · rfl

theorem le_writableBytes_ensure (b : Buffer) (len : ℕ) :
    len ≤ (b.ensureWritableBytes len).writableBytes := by
  unfold ensureWritableBytes
  split
  · exact b.le_writableBytes_makeSpace len
  · omega

/-- Bytes copied to `beginWrite()` where there is room for them, and the write index moved. -/
def write (b : Buffer) (data : Bytes) (_h : data.length ≤ b.writableBytes) : Buffer :=
  { b with
    buffer := b.buffer.take b.writerIndex ++ data ++ b.buffer.drop (b.writerIndex + data.length)
    writerIndex := b.writerIndex + data.length
    prepend_le := by
      have := b.prepend_le
      simp only [List.length_append, List.length_take, List.length_drop]
      omega
    reader_le := b.reader_le.trans (Nat.le_add_right _ _)
    writer_le := by
      have := b.writer_le
      simp only [List.length_append, List.length_take]
      omega }

theorem readable_write (b : Buffer) (data : Bytes) (h : data.length ≤ b.writableBytes) :
    (b.write data h).readable = b.readable ++ data :=
  window_write b.reader_le b.writer_le data _

def append (b : Buffer) (data : Bytes) : Buffer :=
  (b.ensureWritableBytes data.length).write data (b.le_writableBytes_ensure data.length)

theorem readable_append (b : Buffer) (data : Bytes) :
    (b.append data).readable = b.readable ++ data := by
  rw [append, readable_write, readable_ensureWritableBytes]

/-- `readFd` where `readv` delivers `data`: what does not fit goes through the extra buffer. -/
def readFd (b : Buffer) (data : Bytes) : Buffer :=
  if h : data.length ≤ b.writableBytes then b.write data h
  else
    (b.write (data.take b.writableBytes) (List.length_take_le _ _)).append
      (data.drop b.writableBytes)

theorem readable_readFd (b : Buffer) (data : Bytes) :
    (b.readFd data).readable = b.readable ++ data := by
  unfold readFd
  split
  · exact b.readable_write data _
  · rw [readable_append, readable_write, List.append_assoc, List.take_append_drop]

/-- `prepend`, which asserts `len <= prependableBytes()`. -/
def prepend (b : Buffer) (data : Bytes) (h : data.length ≤ b.prependableBytes) : Buffer :=
  { b with
    buffer := b.buffer.take (b.readerIndex - data.length) ++ data ++ b.buffer.drop b.readerIndex
    readerIndex := b.readerIndex - data.length
    prepend_le := by
      have hp := b.prepend_le
      rw [prependableBytes] at h
      simp only [List.length_append, List.length_take, List.length_drop]
      omega
    reader_le := (Nat.sub_le _ _).trans b.reader_le
    writer_le := by
      have hw := b.writer_le
      rw [prependableBytes] at h
      simp only [List.length_append, List.length_take, List.length_drop]
      omega }

/-- `unwrite`, which asserts `len <= readableBytes()`. -/
def unwrite (b : Buffer) (len : ℕ) (h : len ≤ b.readableBytes) : Buffer :=
  { b with
    writerIndex := b.writerIndex - len
    reader_le := by
      have := b.reader_le
      rw [readableBytes] at h
      omega
    writer_le := (Nat.sub_le _ _).trans b.writer_le }

theorem readable_prepend (b : Buffer) (data : Bytes) (h : data.length ≤ b.prependableBytes) :
    (b.prepend data h).readable = data ++ b.readable :=
  window_prepend b.writer_le b.reader_le data (Nat.sub_add_cancel h)

theorem readable_unwrite (b : Buffer) (len : ℕ) (h : len ≤ b.readableBytes) :
    (b.unwrite len h).readable = b.readable.take (b.readable.length - len) := by
  rw [readable_length]
  exact window_shorten _ _ _ _

end Buffer

end Yedis
