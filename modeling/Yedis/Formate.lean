import Yedis.Encoding
import Yedis.Exec
import Yedis.ReplyBuffer

/-!
# Formatting into a reply buffer

The functions of YedisFormate push their text piece by piece and answer by how much
the readable bytes have grown. Below the largest size they append the reply formats.
A request formatted this way is read back by a fresh parser, whatever follows it.
-/

namespace Yedis

namespace ReplyBuffer

/-- A chain of `pushData`. -/
def pushPieces : List Bytes → ReplyBuffer → Except BufferFault ReplyBuffer
  | [], b => .ok b
  | piece :: pieces, b => do
    let (_, b) ← b.pushData piece
    pushPieces pieces b

theorem pushPieces_run (pieces : List Bytes) (b : ReplyBuffer)
    (h : b.readableSize + pieces.flatten.length ≤ maxBufferSize) :
    ∃ b', pushPieces pieces b = .ok b' ∧ b'.readable = b.readable ++ pieces.flatten := by
  induction pieces generalizing b with
  | nil => exact ⟨b, rfl, (List.append_nil _).symm⟩
  | cons piece pieces ih =>
      rw [List.flatten_cons, List.length_append] at h
      obtain ⟨b₁, hpush, hread⟩ := b.pushData_run piece (by omega)
      have hsize : b₁.readableSize = b.readableSize + piece.length := by
        rw [← readable_length, hread, List.length_append, readable_length]
      obtain ⟨b₂, hrest, hread₂⟩ := ih b₁ (by omega)
      refine ⟨b₂, ?_, by rw [hread₂, hread, List.flatten_cons, List.append_assoc]⟩
      simp only [pushPieces, bind, Except.bind, hpush]
      exact hrest

end ReplyBuffer

namespace YedisFormate
open ReplyBuffer

/-- The pieces of a reply, and by how much the readable bytes have grown. -/
def format (pieces : List Bytes) (reply : ReplyBuffer) : Except BufferFault (ℕ × ReplyBuffer) := do
  let oldSize := reply.readableSize
  let reply ← pushPieces pieces reply
  return (reply.readableSize - oldSize, reply)

def formatInt (value : ℤ) : ReplyBuffer → Except BufferFault (ℕ × ReplyBuffer) :=
  format [ascii ":", signedDecimal value ++ crlf]

def preFormatMultiBulk (nBulk : ℕ) : ReplyBuffer → Except BufferFault (ℕ × ReplyBuffer) :=
  format [ascii "*", decimal nBulk ++ crlf]

def formatBulk (str : Bytes) : ReplyBuffer → Except BufferFault (ℕ × ReplyBuffer) :=
  format ([ascii "$", decimal str.length ++ crlf] ++ (if 0 < str.length then [str] else []) ++
    [crlf])

def formatNull : ReplyBuffer → Except BufferFault (ℕ × ReplyBuffer) := format [ascii "$-1\r\n"]

def format0 : ReplyBuffer → Except BufferFault (ℕ × ReplyBuffer) := format [ascii ":0\r\n"]

/-- A formatting function appends `text` and answers its length. -/
def Appends (f : ReplyBuffer → Except BufferFault (ℕ × ReplyBuffer)) (text : Bytes) : Prop :=
  ∀ reply : ReplyBuffer, reply.readableSize + text.length ≤ maxBufferSize →
    ∃ reply', f reply = .ok (text.length, reply') ∧ reply'.readable = reply.readable ++ text

theorem format_appends (pieces : List Bytes) : Appends (format pieces) pieces.flatten := by
  intro reply h
  obtain ⟨reply', hrun, hread⟩ := pushPieces_run pieces reply h
  refine ⟨reply', ?_, hread⟩
  have hsize : reply'.readableSize - reply.readableSize = pieces.flatten.length := by
    rw [← readable_length, hread, List.length_append, readable_length, Nat.add_sub_cancel_left]
  rw [format, hrun, ← hsize]
  rfl

theorem formatInt_appends (value : ℤ) : Appends (formatInt value) (Yedis.formatInt value) := by
  have htext : [ascii ":", signedDecimal value ++ crlf].flatten = Yedis.formatInt value := by
    simp [Yedis.formatInt]
  rw [← htext]
  exact format_appends _

theorem preFormatMultiBulk_appends (nBulk : ℕ) :
    Appends (preFormatMultiBulk nBulk) (Yedis.preFormatMultiBulk nBulk) := by
  have htext : [ascii "*", decimal nBulk ++ crlf].flatten = Yedis.preFormatMultiBulk nBulk := by
    simp [Yedis.preFormatMultiBulk]
  rw [← htext]
  exact format_appends _

theorem formatBulk_appends (str : Bytes) : Appends (formatBulk str) (Yedis.formatBulk str) := by
  have hbody : (if 0 < str.length then [str] else []).flatten = str := by
    split_ifs with hlen
    · exact List.append_nil str
    · exact (List.eq_nil_of_length_eq_zero (by omega)).symm
  have htext : ([ascii "$", decimal str.length ++ crlf] ++
      (if 0 < str.length then [str] else []) ++ [crlf]).flatten = Yedis.formatBulk str := by
    rw [List.flatten_append, List.flatten_append, hbody]
    simp [Yedis.formatBulk]
  rw [← htext]
  exact format_appends _

theorem formatNull_appends : Appends formatNull Yedis.formatNull := format_appends _

theorem format0_appends : Appends format0 Yedis.format0 := format_appends _

def formatBulks : List Bytes → ReplyBuffer → Except BufferFault ReplyBuffer
  | [], reply => .ok reply
  | str :: strs, reply => do
    let (_, reply) ← formatBulk str reply
    formatBulks strs reply

/-- An array of bulk strings: its length and then each of them. -/
def formatArray (strs : List Bytes) (reply : ReplyBuffer) : Except BufferFault ReplyBuffer := do
  let (_, reply) ← preFormatMultiBulk strs.length reply
  formatBulks strs reply

theorem formatBulks_run (strs : List Bytes) (reply : ReplyBuffer)
    (h : reply.readableSize + (strs.flatMap Yedis.formatBulk).length ≤ maxBufferSize) :
    ∃ reply', formatBulks strs reply = .ok reply' ∧
      reply'.readable = reply.readable ++ strs.flatMap Yedis.formatBulk := by
  induction strs generalizing reply with
  | nil => exact ⟨reply, rfl, (List.append_nil _).symm⟩
  | cons str strs ih =>
      rw [List.flatMap_cons, List.length_append] at h
      obtain ⟨reply₁, hrun, hread⟩ := formatBulk_appends str reply (by omega)
      have hsize : reply₁.readableSize = reply.readableSize + (Yedis.formatBulk str).length := by
        rw [← readable_length, hread, List.length_append, readable_length]
      obtain ⟨reply₂, hrest, hread₂⟩ := ih reply₁ (by omega)
      refine ⟨reply₂, ?_, by rw [hread₂, hread, List.flatMap_cons, List.append_assoc]⟩
      simp only [formatBulks, bind, Except.bind, hrun]
      exact hrest

theorem formatArray_run (strs : List Bytes) (reply : ReplyBuffer)
    (h : reply.readableSize +
      (Yedis.preFormatMultiBulk strs.length ++ strs.flatMap Yedis.formatBulk).length ≤
        maxBufferSize) :
    ∃ reply', formatArray strs reply = .ok reply' ∧ reply'.readable = reply.readable ++
      (Yedis.preFormatMultiBulk strs.length ++ strs.flatMap Yedis.formatBulk) := by
  rw [List.length_append] at h
  obtain ⟨reply₁, hrun, hread⟩ := preFormatMultiBulk_appends strs.length reply (by omega)
  have hsize : reply₁.readableSize =
      reply.readableSize + (Yedis.preFormatMultiBulk strs.length).length := by
    rw [← readable_length, hread, List.length_append, readable_length]
  obtain ⟨reply₂, hrest, hread₂⟩ := formatBulks_run strs reply₁ (by omega)
  refine ⟨reply₂, ?_, by rw [hread₂, hread, List.append_assoc]⟩
  simp only [formatArray, bind, Except.bind, hrun]
  exact hrest

end YedisFormate

theorem encodeCommand_eq_format (ps : List Bytes) :
    encodeCommand ps = preFormatMultiBulk ps.length ++ ps.flatMap formatBulk := by
  have hbulk : encodeBulk = formatBulk := by
    funext v
    simp [encodeBulk, formatBulk, ascii]
  rw [encodeCommand, hbulk]
  simp [preFormatMultiBulk, ascii]

/-- Whatever an array of bulk strings holds, a fresh parser reads it back from the reply buffer it
was formatted into, also when other bytes follow. -/
theorem formatArray_parses_back (strs : List Bytes) (r : Bytes) (reply : ReplyBuffer)
    (hempty : reply.readable = [])
    (hsize : (preFormatMultiBulk strs.length ++ strs.flatMap formatBulk ++ r).length < 2147483648) :
    ∃ (reply' : ReplyBuffer) (self : YProtoParse),
      YedisFormate.formatArray strs reply = .ok reply' ∧
      ({} : YProtoParse).parseRequest (reply'.readable ++ r) 0 =
        .ok ⟨.ok, reply'.readableSize, self⟩ ∧
      self.getParams = strs := by
  have hzero : reply.readableSize = 0 := by rw [← reply.readable_length, hempty, List.length_nil]
  have hmax : reply.readableSize + (preFormatMultiBulk strs.length ++
      strs.flatMap formatBulk).length ≤ maxBufferSize := by
    rw [List.length_append] at hsize
    rw [hzero, maxBufferSize]
    omega
  obtain ⟨reply', hrun, hread⟩ := YedisFormate.formatArray_run strs reply hmax
  rw [hempty, List.nil_append, ← encodeCommand_eq_format] at hread
  have hlen : (reply'.readable ++ r).length < 2147483648 := by
    rwa [hread, encodeCommand_eq_format]
  have hbuf : reply'.readable ++ r = encodeCommand strs ++ r := by rw [hread]
  have hparse := parseRequest_encodeCommand hbuf hlen
  rw [← hread, reply'.readable_length] at hparse
  exact ⟨reply', _, hrun, hparse, rfl⟩

/-- A payload that looks like a request, an empty one, and a request behind them. -/
theorem formatArray_parses_back_two :
    ∃ (reply' : ReplyBuffer) (self : YProtoParse),
      YedisFormate.formatArray [ascii "*1\r\n$0\r\n", []] {} = .ok reply' ∧
      ({} : YProtoParse).parseRequest (reply'.readable ++ ascii "*1\r\n") 0 =
        .ok ⟨.ok, reply'.readableSize, self⟩ ∧
      self.getParams = [ascii "*1\r\n$0\r\n", []] :=
  formatArray_parses_back [ascii "*1\r\n$0\r\n", []] (ascii "*1\r\n") {} rfl (by decide)

end Yedis
