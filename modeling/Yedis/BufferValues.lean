import Yedis.Buffer
import Yedis.ByteOrder
import Yedis.Fifo
import Yedis.Runs

/-!
# Values in network order

Integers that `Buffer` writes in network order, and texts, from one host to another.
However their bytes arrive, the values that are read are the values that were written,
whatever the byte order of the two hosts.
-/

namespace Yedis
open Fifo Runs

/-! ### The conversions of Endian.h -/

def hostToNetwork64 (o : ByteOrder) (host64 : ℕ) : ℕ := o.convert 8 host64

def hostToNetwork32 (o : ByteOrder) (host32 : ℕ) : ℕ := o.convert 4 host32

def hostToNetwork16 (o : ByteOrder) (host16 : ℕ) : ℕ := o.convert 2 host16

def networkToHost64 (o : ByteOrder) (net64 : ℕ) : ℕ := o.convert 8 net64

def networkToHost32 (o : ByteOrder) (net32 : ℕ) : ℕ := o.convert 4 net32

def networkToHost16 (o : ByteOrder) (net16 : ℕ) : ℕ := o.convert 2 net16

namespace Buffer

/-! ### Writing -/

section Writing
variable (o : ByteOrder) (b : Buffer)

def appendInt64 (x : Int64) : Buffer :=
  let be64 := hostToNetwork64 o x.toUInt64.toNat
  b.append (o.store 8 be64)

def appendInt32 (x : Int32) : Buffer :=
  let be32 := hostToNetwork32 o x.toUInt32.toNat
  b.append (o.store 4 be32)

def appendInt16 (x : Int16) : Buffer :=
  let be16 := hostToNetwork16 o x.toUInt16.toNat
  b.append (o.store 2 be16)

def appendInt8 (x : Int8) : Buffer := b.append [x.toUInt8]

/-- The prepending of a value, whose assertion fails where there is no room for it. -/
def prependBytes (data : Bytes) : Option Buffer :=
  if h : data.length ≤ b.prependableBytes then some (b.prepend data h) else none

def prependInt64 (x : Int64) : Option Buffer :=
  let be64 := hostToNetwork64 o x.toUInt64.toNat
  b.prependBytes (o.store 8 be64)

def prependInt32 (x : Int32) : Option Buffer :=
  let be32 := hostToNetwork32 o x.toUInt32.toNat
  b.prependBytes (o.store 4 be32)

def prependInt16 (x : Int16) : Option Buffer :=
  let be16 := hostToNetwork16 o x.toUInt16.toNat
  b.prependBytes (o.store 2 be16)

def prependInt8 (x : Int8) : Option Buffer := b.prependBytes [x.toUInt8]

end Writing

/-! ### Reading -/

section Reading
variable (o : ByteOrder) (b : Buffer)

/-- The first `n` readable bytes, which are asserted to be there. -/
def peekBytes (n : ℕ) : Option Bytes :=
  if n ≤ b.readableBytes then some (b.readable.take n) else none

def peekInt64 : Option Int64 := do
  let be64 ← b.peekBytes 8
  return (UInt64.ofNat (networkToHost64 o (o.load be64))).toInt64

def peekInt32 : Option Int32 := do
  let be32 ← b.peekBytes 4
  return (UInt32.ofNat (networkToHost32 o (o.load be32))).toInt32

def peekInt16 : Option Int16 := do
  let be16 ← b.peekBytes 2
  return (UInt16.ofNat (networkToHost16 o (o.load be16))).toInt16

def peekInt8 : Option Int8 := do
  let x ← b.peekBytes 1
  return (x.headD 0).toInt8

/-- `retrieve` with its assertion. -/
def retrieveBytes (len : ℕ) : Option Buffer :=
  if h : len ≤ b.readableBytes then some (b.retrieve len h) else none

def retrieveInt64 : Option Buffer := b.retrieveBytes 8

def retrieveInt32 : Option Buffer := b.retrieveBytes 4

def retrieveInt16 : Option Buffer := b.retrieveBytes 2

def retrieveInt8 : Option Buffer := b.retrieveBytes 1

def readInt64 : Option (Int64 × Buffer) := do
  let result ← b.peekInt64 o
  let b ← b.retrieveInt64
  return (result, b)

def readInt32 : Option (Int32 × Buffer) := do
  let result ← b.peekInt32 o
  let b ← b.retrieveInt32
  return (result, b)

def readInt16 : Option (Int16 × Buffer) := do
  let result ← b.peekInt16 o
  let b ← b.retrieveInt16
  return (result, b)

def readInt8 : Option (Int8 × Buffer) := do
  let result ← b.peekInt8
  let b ← b.retrieveInt8
  return (result, b)

def retrieveString (len : ℕ) : Option (Bytes × Buffer) := do
  let result ← b.peekBytes len
  let b ← b.retrieveBytes len
  return (result, b)

end Reading

end Buffer

/-! ### Values -/

inductive Value
  | int64 (x : Int64)
  | int32 (x : Int32)
  | int16 (x : Int16)
  | int8 (x : Int8)
  | text (data : Bytes)

/-- What is to be read: an integer of some width, or a text of some length. -/
inductive ValueKind
  | int64
  | int32
  | int16
  | int8
  | text (len : ℕ)

namespace ValueKind

def size : ValueKind → ℕ
  | int64 => 8
  | int32 => 4
  | int16 => 2
  | int8 => 1
  | text len => len

end ValueKind

namespace Value
open ByteOrder

def kind : Value → ValueKind
  | int64 _ => .int64
  | int32 _ => .int32
  | int16 _ => .int16
  | int8 _ => .int8
  | text data => .text data.length

/-- The value in network order, the highest byte of an integer first. -/
def bytes : Value → Bytes
  | int64 x => (lowBytes 8 x.toUInt64.toNat).reverse
  | int32 x => (lowBytes 4 x.toUInt32.toNat).reverse
  | int16 x => (lowBytes 2 x.toUInt16.toNat).reverse
  | int8 x => [x.toUInt8]
  | text data => data

@[simp] theorem length_bytes (v : Value) : v.bytes.length = v.kind.size := by
  cases v with
  | text data => rfl
  | _ => simp [bytes, kind, ValueKind.size]

end Value

/-- The value of a kind with the bytes. -/
def ValueKind.decode (bs : Bytes) : ValueKind → Value
  | int64 => .int64 (UInt64.ofNat (ByteOrder.value bs.reverse)).toInt64
  | int32 => .int32 (UInt32.ofNat (ByteOrder.value bs.reverse)).toInt32
  | int16 => .int16 (UInt16.ofNat (ByteOrder.value bs.reverse)).toInt16
  | int8 => .int8 (bs.headD 0).toInt8
  | text _ => .text bs

namespace Value
open ByteOrder

theorem decode_bytes (v : Value) : v.kind.decode v.bytes = v := by
  cases v with
  | int64 x =>
      have hvalue : value (lowBytes 8 x.toUInt64.toNat) = x.toUInt64.toNat :=
        (value_lowBytes _ _).trans (Nat.mod_eq_of_lt x.toUInt64.toNat_lt)
      rw [bytes, kind, ValueKind.decode, List.reverse_reverse, hvalue, UInt64.ofNat_toNat,
        Int64.toInt64_toUInt64]
  | int32 x =>
      have hvalue : value (lowBytes 4 x.toUInt32.toNat) = x.toUInt32.toNat :=
        (value_lowBytes _ _).trans (Nat.mod_eq_of_lt x.toUInt32.toNat_lt)
      rw [bytes, kind, ValueKind.decode, List.reverse_reverse, hvalue, UInt32.ofNat_toNat,
        Int32.toInt32_toUInt32]
  | int16 x =>
      have hvalue : value (lowBytes 2 x.toUInt16.toNat) = x.toUInt16.toNat :=
        (value_lowBytes _ _).trans (Nat.mod_eq_of_lt x.toUInt16.toNat_lt)
      rw [bytes, kind, ValueKind.decode, List.reverse_reverse, hvalue, UInt16.ofNat_toNat,
        Int16.toInt16_toUInt16]
  | int8 x => rfl
  | text data => rfl

theorem bytes_decode (k : ValueKind) {bs : Bytes} (h : bs.length = k.size) :
    (k.decode bs).bytes = bs ∧ (k.decode bs).kind = k := by
  have hlow : (lowBytes k.size (value bs.reverse)).reverse = bs := by
    have hvalue := lowBytes_value bs.reverse
    rw [List.length_reverse, h] at hvalue
    rw [hvalue, List.reverse_reverse]
  have hlt : value bs.reverse < 256 ^ k.size := by
    have hlt := value_lt bs.reverse
    rwa [List.length_reverse, h] at hlt
  cases k with
  | int64 =>
      rw [ValueKind.decode, bytes, UInt64.toUInt64_toInt64, UInt64.toNat_ofNat_of_lt' hlt]
      exact ⟨hlow, rfl⟩
  | int32 =>
      rw [ValueKind.decode, bytes, UInt32.toUInt32_toInt32, UInt32.toNat_ofNat_of_lt' hlt]
      exact ⟨hlow, rfl⟩
  | int16 =>
      rw [ValueKind.decode, bytes, UInt16.toUInt16_toInt16, UInt16.toNat_ofNat_of_lt' hlt]
      exact ⟨hlow, rfl⟩
  | int8 =>
      obtain ⟨c, rfl⟩ := List.length_eq_one_iff.mp h
      exact ⟨rfl, rfl⟩
  | text len => exact ⟨rfl, by rw [ValueKind.decode, kind, h]; rfl⟩

/-- Where the kinds are those of the first of other values, and the bytes their first bytes, the
values are the first of them. -/
theorem prefix_of_bytes {vs ws : List Value} (hkinds : vs.map kind <+: ws.map kind)
    (h : vs.flatMap bytes <+: ws.flatMap bytes) : vs <+: ws := by
  induction vs generalizing ws with
  | nil => exact List.nil_prefix
  | cons v vs ih =>
      cases ws with
      | nil =>
          have hle := hkinds.length_le
          rw [List.map_nil, List.map_cons, List.length_cons] at hle
          exact absurd hle (Nat.not_succ_le_zero _)
      | cons w ws =>
          rw [List.map_cons, List.map_cons, List.cons_prefix_cons] at hkinds
          obtain ⟨rest, hrest⟩ := h
          rw [List.flatMap_cons, List.flatMap_cons, List.append_assoc] at hrest
          have hlen : v.bytes.length = w.bytes.length := by
            rw [length_bytes, length_bytes, hkinds.1]
          obtain ⟨hbytes, htail⟩ := List.append_inj hrest hlen
          have hvalue : v = w := by rw [← decode_bytes v, ← decode_bytes w, hkinds.1, hbytes]
          exact List.cons_prefix_cons.mpr ⟨hvalue, ih hkinds.2 ⟨rest, htail⟩⟩

end Value

namespace Buffer

def appendValue (o : ByteOrder) (b : Buffer) : Value → Buffer
  | .int64 x => b.appendInt64 o x
  | .int32 x => b.appendInt32 o x
  | .int16 x => b.appendInt16 o x
  | .int8 x => b.appendInt8 x
  | .text data => b.append data

def prependValue (o : ByteOrder) (b : Buffer) : Value → Option Buffer
  | .int64 x => b.prependInt64 o x
  | .int32 x => b.prependInt32 o x
  | .int16 x => b.prependInt16 o x
  | .int8 x => b.prependInt8 x
  | .text data => b.prependBytes data

def readValue (o : ByteOrder) (b : Buffer) : ValueKind → Option (Value × Buffer)
  | .int64 => (b.readInt64 o).map fun r => (.int64 r.1, r.2)
  | .int32 => (b.readInt32 o).map fun r => (.int32 r.1, r.2)
  | .int16 => (b.readInt16 o).map fun r => (.int16 r.1, r.2)
  | .int8 => b.readInt8.map fun r => (.int8 r.1, r.2)
  | .text len => (b.retrieveString len).map fun r => (.text r.1, r.2)

section Values
variable {o : ByteOrder} {b : Buffer}

theorem readable_appendValue (v : Value) :
    (b.appendValue o v).readable = b.readable ++ v.bytes := by
  cases v with
  | int64 x =>
      rw [appendValue, appendInt64, readable_append, hostToNetwork64, ByteOrder.store_convert]
      rfl
  | int32 x =>
      rw [appendValue, appendInt32, readable_append, hostToNetwork32, ByteOrder.store_convert]
      rfl
  | int16 x =>
      rw [appendValue, appendInt16, readable_append, hostToNetwork16, ByteOrder.store_convert]
      rfl
  | int8 x => rw [appendValue, appendInt8, readable_append, Value.bytes]
  | text data => rw [appendValue, readable_append, Value.bytes]

/-- A value is prepended where there is room for it. -/
theorem prependValue_eq (v : Value) :
    b.prependValue o v = b.prependBytes v.bytes := by
  cases v with
  | int64 x =>
      rw [prependValue, prependInt64, hostToNetwork64, ByteOrder.store_convert]
      rfl
  | int32 x =>
      rw [prependValue, prependInt32, hostToNetwork32, ByteOrder.store_convert]
      rfl
  | int16 x =>
      rw [prependValue, prependInt16, hostToNetwork16, ByteOrder.store_convert]
      rfl
  | int8 x => rfl
  | text data => rfl

/-- The value is that of the first bytes, which are retrieved. -/
theorem readValue_eq (k : ValueKind) (h : k.size ≤ b.readableBytes) :
    b.readValue o k = some (k.decode (b.readable.take k.size), b.retrieve k.size h) := by
  have hlen : (b.readable.take k.size).length = k.size := by
    rw [List.length_take, readable_length, min_eq_left h]
  have hpeek : b.peekBytes k.size = some (b.readable.take k.size) := if_pos h
  have hretrieve : b.retrieveBytes k.size = some (b.retrieve k.size h) := dif_pos h
  have hload : o.convert k.size (o.load (b.readable.take k.size)) =
      ByteOrder.value (b.readable.take k.size).reverse := by
    have hconvert := o.convert_load (b.readable.take k.size)
    rwa [hlen] at hconvert
  cases k with
  | int64 =>
      change o.convert 8 _ = _ at hload
      simp only [readValue, readInt64, peekInt64, retrieveInt64, networkToHost64,
        show b.peekBytes 8 = _ from hpeek, show b.retrieveBytes 8 = _ from hretrieve,
        Option.bind_eq_bind, Option.bind_some, hload]
      rfl
  | int32 =>
      change o.convert 4 _ = _ at hload
      simp only [readValue, readInt32, peekInt32, retrieveInt32, networkToHost32,
        show b.peekBytes 4 = _ from hpeek, show b.retrieveBytes 4 = _ from hretrieve,
        Option.bind_eq_bind, Option.bind_some, hload]
      rfl
  | int16 =>
      change o.convert 2 _ = _ at hload
      simp only [readValue, readInt16, peekInt16, retrieveInt16, networkToHost16,
        show b.peekBytes 2 = _ from hpeek, show b.retrieveBytes 2 = _ from hretrieve,
        Option.bind_eq_bind, Option.bind_some, hload]
      rfl
  | int8 =>
      simp only [readValue, readInt8, peekInt8, retrieveInt8,
        show b.peekBytes 1 = _ from hpeek, show b.retrieveBytes 1 = _ from hretrieve,
        Option.bind_eq_bind, Option.bind_some]
      rfl
  | text len =>
      simp only [readValue, retrieveString, show b.peekBytes len = _ from hpeek,
        show b.retrieveBytes len = _ from hretrieve, Option.bind_eq_bind, Option.bind_some]
      rfl

theorem readValue_eq_none (k : ValueKind) (h : ¬ k.size ≤ b.readableBytes) :
    b.readValue o k = none := by
  have hpeek : b.peekBytes k.size = none := if_neg h
  cases k with
  | int64 => simp only [readValue, readInt64, peekInt64, show b.peekBytes 8 = _ from hpeek]; rfl
  | int32 => simp only [readValue, readInt32, peekInt32, show b.peekBytes 4 = _ from hpeek]; rfl
  | int16 => simp only [readValue, readInt16, peekInt16, show b.peekBytes 2 = _ from hpeek]; rfl
  | int8 => simp only [readValue, readInt8, peekInt8, show b.peekBytes 1 = _ from hpeek]; rfl
  | text len => simp only [readValue, retrieveString, show b.peekBytes len = _ from hpeek]; rfl

/-- What is read is of the kind asked for, and its bytes were in front. -/
theorem readValue_sound {k : ValueKind} {v : Value} {b' : Buffer}
    (h : b.readValue o k = some (v, b')) : v.kind = k ∧ b.readable = v.bytes ++ b'.readable := by
  by_cases hsize : k.size ≤ b.readableBytes
  · have hlen : (b.readable.take k.size).length = k.size := by
      rw [List.length_take, readable_length, min_eq_left hsize]
    obtain ⟨hbytes, hkind⟩ := Value.bytes_decode k hlen
    rw [readValue_eq k hsize, Option.some.injEq, Prod.mk.injEq] at h
    rw [← h.1, ← h.2, hbytes, readable_retrieve, List.take_append_drop]
    exact ⟨hkind, rfl⟩
  · rw [readValue_eq_none k hsize] at h
    cases h

/-- A value whose bytes are in front is read. -/
theorem readValue_complete {v : Value} {rest : Bytes} (h : b.readable = v.bytes ++ rest) :
    ∃ b', b.readValue o v.kind = some (v, b') ∧ b'.readable = rest := by
  have hsize : v.kind.size ≤ b.readableBytes := by
    rw [← readable_length, h, List.length_append, Value.length_bytes]
    exact Nat.le_add_right _ _
  refine ⟨b.retrieve v.kind.size hsize, ?_, ?_⟩
  · rw [readValue_eq v.kind hsize, h, List.take_left' v.length_bytes, Value.decode_bytes]
  · rw [readable_retrieve, h, List.drop_left' v.length_bytes]

/-- A value that was prepended is the next one to read. -/
theorem readValue_prependValue {o' : ByteOrder} {b' : Buffer} {v : Value}
    (h : b.prependValue o v = some b') :
    ∃ b'', b'.readValue o' v.kind = some (v, b'') ∧ b''.readable = b.readable := by
  rw [prependValue_eq, prependBytes] at h
  split_ifs at h with hroom
  apply readValue_complete
  rw [← Option.some.inj h, readable_prepend]

end Values

end Buffer

/-! ### Two hosts -/

/-- The buffers of the host that writes and of the host that reads. -/
structure Exchange where
  writer : Buffer := .new
  reader : Buffer := .new

inductive ExchangeEvent
  | writes (v : Value)
  | delivers (n : ℕ)
  | reads (v : Value)

namespace ExchangeEvent

def written : ExchangeEvent → List Value
  | writes v => [v]
  | _ => []

def read : ExchangeEvent → List Value
  | reads v => [v]
  | _ => []

end ExchangeEvent

inductive ExchangeStep (o o' : ByteOrder) (s : Exchange) : ExchangeEvent → Exchange → Prop
  | writes (v : Value) :
      ExchangeStep o o' s (.writes v) { s with writer := s.writer.appendValue o v }
  | delivers (n : ℕ) (h : n ≤ s.writer.readableBytes) :
      ExchangeStep o o' s (.delivers n)
        { writer := s.writer.retrieve n h
          reader := s.reader.readFd (s.writer.readable.take n) }
  | reads {k : ValueKind} {v : Value} {reader : Buffer}
      (h : s.reader.readValue o' k = some (v, reader)) :
      ExchangeStep o o' s (.reads v) { s with reader := reader }

section Exchanges
variable {o o' : ByteOrder} {s s' : Exchange} {e : ExchangeEvent} {history : List ExchangeEvent}
  {trace : List (Transition Exchange ExchangeEvent)}

/-- The bytes of what was written are those of what was read and of what is in the buffers. -/
def Exchange.Follows (history : List ExchangeEvent) (s : Exchange) : Prop :=
  (moved ExchangeEvent.written history).flatMap Value.bytes =
    (moved ExchangeEvent.read history).flatMap Value.bytes ++ s.reader.readable ++ s.writer.readable

theorem ExchangeStep.follows (hstep : ExchangeStep o o' s e s') (h : s.Follows history) :
    s'.Follows (e :: history) := by
  unfold Exchange.Follows at *
  rw [moved_cons, moved_cons, List.flatMap_append, List.flatMap_append, h]
  cases hstep with
  | writes v =>
      simp [ExchangeEvent.written, ExchangeEvent.read, Buffer.readable_appendValue]
  | delivers n hn =>
      simp [ExchangeEvent.written, ExchangeEvent.read, Buffer.readable_readFd,
        Buffer.readable_retrieve]
  | @reads k v reader hread =>
      obtain ⟨-, hbytes⟩ := Buffer.readValue_sound hread
      simp [ExchangeEvent.written, ExchangeEvent.read, hbytes]

theorem follows_exchange (run : Run (ExchangeStep o o') {} trace s) : s.Follows (labels trace) :=
  run.invariant_labels (P := fun history s => Exchange.Follows history s) rfl
    fun _ _ _ _ h hstep => hstep.follows h

/-- In every run, as long as the kinds of the values read are those of the values written, in their
order, the values read are the values written. The next value can be read as soon as all of its
bytes have arrived, which is the case at the latest when the writer's buffer is empty. -/
theorem values_cross_hosts (run : Run (ExchangeStep o o') {} trace s) :
    ((moved ExchangeEvent.read (labels trace)).map Value.kind <+:
        (moved ExchangeEvent.written (labels trace)).map Value.kind →
      moved ExchangeEvent.read (labels trace) <+: moved ExchangeEvent.written (labels trace)) ∧
    ∀ v, moved ExchangeEvent.read (labels trace) ++ [v] <+:
        moved ExchangeEvent.written (labels trace) →
      ((∃ reader, s.reader.readValue o' v.kind = some (v, reader)) ↔
        v.kind.size ≤ s.reader.readableBytes) ∧
      (s.writer.readable = [] → v.kind.size ≤ s.reader.readableBytes) := by
  have hbytes := follows_exchange run
  unfold Exchange.Follows at hbytes
  constructor
  · intro hkinds
    apply Value.prefix_of_bytes hkinds
    rw [hbytes, List.append_assoc]
    exact List.prefix_append _ _
  · rintro v ⟨later, hlater⟩
    rw [← hlater, List.flatMap_append, List.flatMap_append, List.append_assoc, List.append_assoc,
      List.append_cancel_left_eq, List.flatMap_singleton] at hbytes
    constructor
    · constructor
      · rintro ⟨reader, hread⟩
        by_contra hsize
        rw [Buffer.readValue_eq_none v.kind hsize] at hread
        cases hread
      · intro hsize
        rw [← v.length_bytes, ← Buffer.readable_length] at hsize
        obtain ⟨rest, hrest⟩ : v.bytes <+: s.reader.readable :=
          List.prefix_of_prefix_length_le ⟨_, hbytes⟩ (List.prefix_append _ _) hsize
        obtain ⟨reader, hread, -⟩ := Buffer.readValue_complete (o := o') hrest.symm
        exact ⟨reader, hread⟩
    · intro hempty
      rw [hempty, List.append_nil] at hbytes
      rw [← Buffer.readable_length, ← hbytes, List.length_append, v.length_bytes]
      exact Nat.le_add_right _ _

/-- A value can be written and delivered at once. -/
theorem exchange_delivered (o o' : ByteOrder) (v : Value) :
    ∃ (trace : List (Transition Exchange ExchangeEvent)) (s : Exchange),
      Run (ExchangeStep o o') {} trace s ∧
        labels trace = [.delivers v.kind.size, .writes v] ∧ s.writer.readable = [] := by
  have hreadable : (Buffer.new.appendValue o v).readable = v.bytes := by
    rw [Buffer.readable_appendValue, Buffer.readable_new, List.nil_append]
  have hsize : v.kind.size ≤ (Buffer.new.appendValue o v).readableBytes := by
    rw [← Buffer.readable_length, hreadable, v.length_bytes]
  have run₁ : Run (ExchangeStep o o') {} _ _ := .next .start (.writes v)
  refine ⟨_, _, run₁.next (.delivers v.kind.size hsize), rfl, ?_⟩
  rw [Buffer.readable_retrieve]
  exact List.drop_of_length_le (by rw [hreadable, v.length_bytes])

/-- A number goes from a host that stores the lowest byte first to one that stores it last. -/
theorem values_cross_hosts_int32 : ∃ (trace : List (Transition Exchange ExchangeEvent))
    (s : Exchange), Run (ExchangeStep .littleEndian .bigEndian) {} trace s ∧
      labels trace = [.delivers 4, .writes (.int32 258)] ∧
      ∃ reader, s.reader.readValue .bigEndian .int32 = some (.int32 258, reader) := by
  obtain ⟨trace, s, run, hlabels, hempty⟩ :=
    exchange_delivered .littleEndian .bigEndian (.int32 258)
  obtain ⟨hread, harrived⟩ := (values_cross_hosts run).2 (.int32 258) (by
    rw [hlabels]
    exact List.prefix_rfl)
  exact ⟨trace, s, run, hlabels, hread.mpr (harrived hempty)⟩

end Exchanges

end Yedis
