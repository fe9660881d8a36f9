import Yedis.CText
import Yedis.IntToken

/-!
# Dumping bytes into the log

`outputBinary` cuts its buffer into chunks of 512 bytes. `formLog` writes each of them into a
scratch array, in rows of 32 bytes with a number in front, and what the array holds then is
added to the line. The index of the array is kept apart from the text that `strcat` looks
for the end of; they agree because no byte of the text is a NUL.
-/

namespace Yedis

namespace CAsyncLog
open CText

/-- `%06u` of an `int`. -/
def ullto4Str (n : ℤ) : Bytes :=
  let digits := decimal (n % 4294967296).toNat
  List.replicate (6 - digits.length) 48 ++ digits

def szchar (i : UInt8) : UInt8 := (ascii "0123456789abcdef").getD i.toNat 0

/-- The variables of `formLog`. -/
structure FormLog where
  index : ℤ
  szbuf : Bytes
  len : ℕ := 0
  lsize : ℕ := 0
  headlen : ℕ := 0

namespace FormLog

/-- `szbuf[len++] = c`. -/
def append (c : UInt8) (s : FormLog) : Except Fault FormLog := do
  return { s with szbuf := ← put s.szbuf s.len c, len := s.len + 1 }

/-- The end of the row before, if there is one. -/
def lineBreak (s : FormLog) : Except Fault FormLog :=
  if s.headlen ≠ 0 then s.append 10 else pure s

/-- The number of a row, behind the row before it. -/
def newRow (s : FormLog) : Except Fault FormLog := do
  let s ← s.lineBreak
  let szhead := ullto4Str s.index ++ ascii " "
  return { s with
    index := wrap32 (s.index + 1)
    headlen := szhead.length
    szbuf := ← strcat s.szbuf szhead
    len := s.len + szhead.length }

def number (s : FormLog) : Except Fault FormLog :=
  if s.lsize % 32 = 0 then s.newRow else pure s

/-- The space in front of a group of sixteen bytes. -/
def space (s : FormLog) : Except Fault FormLog :=
  if s.lsize % 16 = 0 ∧ s.headlen ≠ 0 then s.append 32 else pure s

/-- One round of the loop. -/
def round (byte : UInt8) (s : FormLog) : Except Fault FormLog := do
  let s ← s.number
  let s ← s.space
  let s ← s.append (szchar ((byte >>> 4) &&& 0xf))
  let s ← s.append (szchar (byte &&& 0xf))
  return { s with lsize := s.lsize + 1 }

/-- The `while` loop over the bytes that are left. -/
def loop (size_buf : ℕ) : Bytes → FormLog → Except Fault FormLog
  | [], s => .ok s
  | byte :: rest, s => do
    if s.len + 10 < size_buf then
      loop size_buf rest (← s.round byte)
    else
      return s

end FormLog

/-- `formLog`, with the index that it leaves behind. -/
def formLog (index : ℤ) (szbuf : Bytes) (size_buf : ℕ) (buffer : Bytes) :
    Except Fault (ℤ × Bytes) := do
  let s ← FormLog.loop size_buf buffer { index := index, szbuf := szbuf }
  let s ← s.append 10
  let s ← s.append 0
  return (s.index, s.szbuf)

def PRINTSIZE : ℕ := 512

theorem length_drop_chunk {buffer : Bytes} (h : buffer ≠ []) :
    (buffer.drop PRINTSIZE).length < buffer.length := by
  have hpos := List.length_pos_of_ne_nil h
  rw [List.length_drop, PRINTSIZE]
  omega

/-- The loop of `outputBinary`, with what it adds to the line. -/
def dumpLoop (index : ℤ) : Bytes → Except Fault Bytes
  | [] => .ok []
  | byte :: rest => do
    let size_buf := PRINTSIZE * 3 + 8
    let (index, szbuf) ← formLog index (List.replicate size_buf 0) size_buf
      ((byte :: rest).take PRINTSIZE)
    let behind ← dumpLoop index ((byte :: rest).drop PRINTSIZE)
    return cstr szbuf ++ behind
termination_by buffer => buffer.length
decreasing_by exact length_drop_chunk (List.cons_ne_nil byte rest)

def addressLine (address : ℤ) (size : ℕ) : Bytes :=
  ascii "address[" ++ signedDecimal address ++ ascii "] size[" ++ decimal size ++ ascii "] \n"

/-- The line that `outputBinary` queues. -/
def outputBinary (address : ℤ) (buffer : Bytes) : Except Fault Bytes := do
  return addressLine address buffer.length ++ (← dumpLoop 0 buffer)

/-! ### What `formLog` writes -/

theorem ullto4Str_digits (n : ℤ) : ∀ c ∈ ullto4Str n, isDigit c = true := by
  intro c hc
  rcases List.mem_append.mp hc with hzero | hdigit
  · rw [(List.mem_replicate.mp hzero).2]
    rfl
  · exact decimal_digits _ c hdigit

theorem ullto4Str_length (n : ℤ) : (ullto4Str n).length ≤ 10 := by
  have hlen : (decimal (n % 4294967296).toNat).length ≤ 10 :=
    (decimal_length_le (by norm_num)).mpr (by omega)
  simp only [ullto4Str, List.length_append, List.length_replicate]
  omega

theorem ne_zero_of_isDigit {c : UInt8} (h : isDigit c = true) : c ≠ 0 := by
  rintro rfl
  exact absurd h (by decide)

/-- A lowercase hexadecimal digit. -/
def hexDigit (d : ℕ) : UInt8 := if d < 10 then digit d else UInt8.ofNat (87 + d)

/-- The two hexadecimal digits of a byte. -/
def hexByte (byte : UInt8) : Bytes := [hexDigit (byte.toNat / 16), hexDigit (byte.toNat % 16)]

theorem szchar_eq {i : UInt8} (h : i.toNat < 16) : szchar i = hexDigit i.toNat := by
  have hall : ∀ d < 16, (ascii "0123456789abcdef").getD d 0 = hexDigit d := by decide
  exact hall i.toNat h

theorem szchar_high (byte : UInt8) : szchar ((byte >>> 4) &&& 0xf) = hexDigit (byte.toNat / 16) := by
  have hlt := byte.toNat_lt
  have hvalue : ((byte >>> 4) &&& 0xf).toNat = byte.toNat / 16 := by
    rw [UInt8.toNat_and, UInt8.toNat_shiftRight]
    change byte.toNat >>> 4 &&& 2 ^ 4 - 1 = _
    rw [Nat.and_two_pow_sub_one_eq_mod, Nat.shiftRight_eq_div_pow]
    omega
  rw [szchar_eq (by omega), hvalue]

theorem szchar_low (byte : UInt8) : szchar (byte &&& 0xf) = hexDigit (byte.toNat % 16) := by
  have hvalue : (byte &&& 0xf).toNat = byte.toNat % 16 := by
    rw [UInt8.toNat_and]
    exact Nat.and_two_pow_sub_one_eq_mod _ 4
  rw [szchar_eq (by omega), hvalue]

theorem hexByte_digits (byte : UInt8) : ∀ c ∈ hexByte byte, c ≠ 0 ∧ c ≠ 10 ∧ c ≠ 32 := by
  have hall : ∀ d < 16, hexDigit d ≠ 0 ∧ hexDigit d ≠ 10 ∧ hexDigit d ≠ 32 := by decide
  have hlt := byte.toNat_lt
  intro c hc
  simp only [hexByte, List.mem_cons, List.not_mem_nil, or_false] at hc
  rcases hc with rfl | rfl
  · exact hall _ (by omega)
  · exact hall _ (by omega)

/-- The number in front of the byte at the position `lsize` of a chunk. -/
def rowNumber (index : ℤ) (lsize : ℕ) : Bytes :=
  if lsize % 32 = 0 then (if lsize = 0 then [] else [10]) ++ (ullto4Str index ++ [32]) else []

def groupSpace (lsize : ℕ) : Bytes := if lsize % 16 = 0 then [32] else []

theorem rowNumber_length (index : ℤ) (lsize : ℕ) :
    (rowNumber index lsize).length ≤ if lsize % 32 = 0 then 12 else 0 := by
  have hnumber := ullto4Str_length index
  unfold rowNumber
  split_ifs
  · simp only [List.nil_append, List.length_append, List.length_singleton]
    omega
  · simp only [List.length_append, List.length_singleton]
    omega
  · exact le_rfl

theorem groupSpace_length (lsize : ℕ) :
    (groupSpace lsize).length = if lsize % 16 = 0 then 1 else 0 := by
  unfold groupSpace
  split_ifs
  · rfl
  · rfl

def nextIndex (index : ℤ) (lsize : ℕ) : ℤ := if lsize % 32 = 0 then wrap32 (index + 1) else index

/-- The text of the bytes from the position `lsize` on, and the index afterwards. -/
def rowsText (index : ℤ) (lsize : ℕ) : Bytes → Bytes × ℤ
  | [] => ([], index)
  | byte :: rest =>
    let (text, last) := rowsText (nextIndex index lsize) (lsize + 1) rest
    (rowNumber index lsize ++ groupSpace lsize ++ hexByte byte ++ text, last)

namespace FormLog

/-- The array holds `text`, whose end is `len`, at the row `index` and the byte `lsize`. -/
structure Formed (size : ℕ) (index : ℤ) (lsize : ℕ) (text : Bytes) (s : FormLog) : Prop where
  holds : Holds size s.szbuf text
  len : s.len = text.length
  index : s.index = index
  lsize : s.lsize = lsize

namespace Formed
variable {size lsize : ℕ} {index : ℤ} {s : FormLog} {text : Bytes}

theorem append (h : Formed size index lsize text s) {c : UInt8} (hc : c ≠ 0)
    (hroom : text.length < size) :
    ∃ s', s.append c = .ok s' ∧ Formed size index lsize (text ++ [c]) s' ∧
      s'.headlen = s.headlen := by
  obtain ⟨a, hput, ha⟩ := h.holds.put hc hroom
  refine ⟨{ s with szbuf := a, len := s.len + 1 }, ?_, ⟨ha, ?_, h.index, h.lsize⟩, rfl⟩
  · rw [FormLog.append, h.len, hput]
    rfl
  · rw [List.length_append, h.len]
    rfl

theorem lineBreak (h : Formed size index lsize text s) (hhead : s.headlen = 0 ↔ lsize = 0)
    (hroom : text.length < size) :
    ∃ s', s.lineBreak = .ok s' ∧
      Formed size index lsize (text ++ if lsize = 0 then [] else [10]) s' := by
  rw [FormLog.lineBreak]
  by_cases hfirst : lsize = 0
  · rw [if_neg (not_not.mpr (hhead.mpr hfirst)), if_pos hfirst, List.append_nil]
    exact ⟨s, rfl, h⟩
  · rw [if_pos fun hzero => hfirst (hhead.mp hzero), if_neg hfirst]
    obtain ⟨s', happend, h', -⟩ := h.append (c := 10) (by decide) hroom
    exact ⟨s', happend, h'⟩

theorem newRow (h : Formed size index lsize text s) (hhead : s.headlen = 0 ↔ lsize = 0)
    (hroom : text.length + 12 < size) :
    ∃ s', s.newRow = .ok s' ∧
      Formed size (wrap32 (index + 1)) lsize
        (text ++ ((if lsize = 0 then [] else [10]) ++ (ullto4Str index ++ [32]))) s' ∧
      s'.headlen ≠ 0 := by
  have hnumber : ∀ c ∈ ullto4Str index ++ [32], c ≠ 0 := by
    intro c hc
    rcases List.mem_append.mp hc with hdigit | hspace
    · exact ne_zero_of_isDigit (ullto4Str_digits _ c hdigit)
    · rw [List.mem_singleton.mp hspace]
      decide
  have hnumlen : (ullto4Str index ++ [32]).length ≤ 11 := by
    rw [List.length_append, List.length_singleton]
    exact Nat.succ_le_succ (ullto4Str_length index)
  have hbefore : (text ++ if lsize = 0 then [] else [10]).length ≤ text.length + 1 := by
    rw [List.length_append]
    split_ifs
    · exact Nat.le_succ _
    · exact le_rfl
  obtain ⟨s₁, hbreak, h₁⟩ := h.lineBreak hhead (by omega)
  obtain ⟨a, hcat, ha⟩ := h₁.holds.strcat hnumber (by omega)
  refine ⟨⟨wrap32 (index + 1), a, s₁.len + (ullto4Str index ++ [32]).length, s₁.lsize,
    (ullto4Str index ++ [32]).length⟩, ?_, ⟨?_, ?_, rfl, h₁.lsize⟩, ?_⟩
  · have hblank : ascii " " = [32] := rfl
    rw [FormLog.newRow, hbreak]
    simp only [bind, Except.bind, h₁.index, hblank, hcat]
    rfl
  · rw [← List.append_assoc]
    exact ha
  · simp only [h₁.len, List.length_append]
    omega
  · rw [List.length_append]
    exact Nat.succ_ne_zero _

theorem number (h : Formed size index lsize text s) (hhead : s.headlen = 0 ↔ lsize = 0)
    (hroom : text.length + 12 < size) :
    ∃ s', s.number = .ok s' ∧
      Formed size (nextIndex index lsize) lsize (text ++ rowNumber index lsize) s' ∧
      s'.headlen ≠ 0 := by
  rw [FormLog.number, nextIndex, rowNumber, h.lsize]
  by_cases hrow : lsize % 32 = 0
  · simp only [if_pos hrow]
    exact h.newRow hhead hroom
  · simp only [if_neg hrow, List.append_nil]
    refine ⟨s, rfl, h, fun hzero => hrow ?_⟩
    rw [hhead.mp hzero]

theorem space (h : Formed size index lsize text s) (hhead : s.headlen ≠ 0)
    (hroom : text.length < size) :
    ∃ s', s.space = .ok s' ∧ Formed size index lsize (text ++ groupSpace lsize) s' ∧
      s'.headlen ≠ 0 := by
  rw [FormLog.space, groupSpace, h.lsize]
  by_cases hgroup : lsize % 16 = 0
  · rw [if_pos ⟨hgroup, hhead⟩, if_pos hgroup]
    obtain ⟨s', happend, h', hkept⟩ := h.append (c := 32) (by decide) hroom
    refine ⟨s', happend, h', ?_⟩
    rw [hkept]
    exact hhead
  · rw [if_neg fun hboth => hgroup hboth.1, if_neg hgroup, List.append_nil]
    exact ⟨s, rfl, h, hhead⟩

theorem round (h : Formed size index lsize text s) (hhead : s.headlen = 0 ↔ lsize = 0)
    (hroom : text.length + 15 < size) (byte : UInt8) :
    ∃ s', s.round byte = .ok s' ∧
      Formed size (nextIndex index lsize) (lsize + 1)
        (text ++ (rowNumber index lsize ++ groupSpace lsize ++ hexByte byte)) s' ∧
      s'.headlen ≠ 0 := by
  have hhigh := (hexByte_digits byte _ List.mem_cons_self).1
  have hlow := (hexByte_digits byte _ (List.mem_cons_of_mem _ List.mem_cons_self)).1
  have hnumber : (rowNumber index lsize).length ≤ 12 := by
    refine (rowNumber_length index lsize).trans ?_
    split_ifs
    · exact le_rfl
    · exact Nat.zero_le _
  have hspace : (groupSpace lsize).length ≤ 1 := by
    rw [groupSpace_length]
    split_ifs
    · exact le_rfl
    · exact Nat.zero_le _
  obtain ⟨s₁, hs₁, h₁, hhead₁⟩ := h.number hhead (by omega)
  obtain ⟨s₂, hs₂, h₂, hhead₂⟩ := h₁.space hhead₁ (by
    rw [List.length_append]
    omega)
  obtain ⟨s₃, hs₃, h₃, hhead₃⟩ := h₂.append hhigh (by
    rw [List.length_append, List.length_append]
    omega)
  obtain ⟨s₄, hs₄, h₄, hhead₄⟩ := h₃.append hlow (by
    rw [List.length_append, List.length_append, List.length_append, List.length_singleton]
    omega)
  have htext : text ++ rowNumber index lsize ++ groupSpace lsize ++ [hexDigit (byte.toNat / 16)] ++
      [hexDigit (byte.toNat % 16)] =
      text ++ (rowNumber index lsize ++ groupSpace lsize ++ hexByte byte) := by
    simp only [hexByte, List.append_assoc, List.cons_append, List.nil_append]
  rw [htext] at h₄
  refine ⟨{ s₄ with lsize := s₄.lsize + 1 }, ?_, ⟨h₄.holds, h₄.len, h₄.index, ?_⟩, ?_⟩
  · rw [FormLog.round, szchar_high, szchar_low]
    simp only [hs₁, hs₂, hs₃, hs₄, bind, Except.bind]
    rfl
  · rw [h₄.lsize]
  · rw [hhead₄, hhead₃]
    exact hhead₂

end Formed

/-- A bound on the text of the first `lsize` bytes of a chunk. -/
def textBound (lsize : ℕ) : ℕ := 12 * ((lsize + 31) / 32) + (lsize + 15) / 16 + 2 * lsize

theorem textBound_succ (index : ℤ) (lsize : ℕ) (byte : UInt8) :
    textBound lsize + (rowNumber index lsize ++ groupSpace lsize ++ hexByte byte).length ≤
      textBound (lsize + 1) := by
  have hnumber := rowNumber_length index lsize
  have hhex : (hexByte byte).length = 2 := rfl
  rw [List.length_append, List.length_append, groupSpace_length, hhex]
  unfold textBound
  by_cases hrow : lsize % 32 = 0
  · rw [if_pos hrow] at hnumber
    rw [if_pos (by omega)]
    omega
  · rw [if_neg hrow] at hnumber
    by_cases hgroup : lsize % 16 = 0
    · rw [if_pos hgroup]
      omega
    · rw [if_neg hgroup]
      omega

/-- The guard on the room that is left never ends the loop. -/
theorem loop_formed {rest text : Bytes} {index : ℤ} {lsize : ℕ} {s : FormLog}
    (h : Formed (PRINTSIZE * 3 + 8) index lsize text s) (hhead : s.headlen = 0 ↔ lsize = 0)
    (htext : text.length ≤ textBound lsize) (hrest : lsize + rest.length ≤ PRINTSIZE) :
    ∃ s', loop (PRINTSIZE * 3 + 8) rest s = .ok s' ∧
      Formed (PRINTSIZE * 3 + 8) (rowsText index lsize rest).2 (lsize + rest.length)
        (text ++ (rowsText index lsize rest).1) s' ∧
      (text ++ (rowsText index lsize rest).1).length ≤ textBound (lsize + rest.length) := by
  induction rest generalizing text index lsize s with
  | nil =>
      refine ⟨s, rfl, ?_, ?_⟩
      · rw [rowsText, List.append_nil]
        exact h
      · rw [rowsText, List.append_nil]
        exact htext
  | cons byte rest ih =>
      rw [List.length_cons] at hrest
      have hroom : text.length + 15 < PRINTSIZE * 3 + 8 := by
        unfold textBound at htext
        rw [PRINTSIZE] at hrest ⊢
        omega
      obtain ⟨s₁, hround, h₁, hhead₁⟩ := h.round hhead hroom byte
      have hgrow := textBound_succ index lsize byte
      obtain ⟨s', hloop, h', htext'⟩ := ih h₁ (iff_of_false hhead₁ (Nat.succ_ne_zero lsize)) (by
        rw [List.length_append]
        omega) (by omega)
      rw [List.append_assoc, Nat.add_assoc, Nat.add_comm 1] at h' htext'
      refine ⟨s', ?_, h', htext'⟩
      rw [loop, if_pos (by rw [h.len]; omega), hround]
      exact hloop

end FormLog

/-- Of a chunk `formLog` writes every byte, and only inside the array. -/
theorem formLog_holds {chunk : Bytes} (hchunk : chunk.length ≤ PRINTSIZE) (index : ℤ) :
    ∃ szbuf, formLog index (List.replicate (PRINTSIZE * 3 + 8) 0) (PRINTSIZE * 3 + 8) chunk =
        .ok ((rowsText index 0 chunk).2, szbuf) ∧
      Holds (PRINTSIZE * 3 + 8) szbuf ((rowsText index 0 chunk).1 ++ [10]) := by
  have hstart : FormLog.Formed (PRINTSIZE * 3 + 8) index 0 []
      { index := index, szbuf := List.replicate (PRINTSIZE * 3 + 8) 0 } :=
    ⟨Holds.zeros _, rfl, rfl, rfl⟩
  obtain ⟨s₁, hloop, h₁, htext⟩ := FormLog.loop_formed hstart Iff.rfl (Nat.zero_le _) (by
    rw [Nat.zero_add]
    exact hchunk)
  rw [List.nil_append, Nat.zero_add] at h₁ htext
  have hroom : (rowsText index 0 chunk).1.length + 2 < PRINTSIZE * 3 + 8 := by
    unfold FormLog.textBound at htext
    rw [PRINTSIZE] at hchunk ⊢
    omega
  obtain ⟨s₂, hbreak, h₂, -⟩ := h₁.append (c := 10) (by decide) (by omega)
  have hnul : s₂.append 0 = .ok { s₂ with len := s₂.len + 1 } := by
    rw [FormLog.append, h₂.len, h₂.holds.put_nul (by
      rw [List.length_append, List.length_singleton]
      omega)]
    rfl
  refine ⟨s₂.szbuf, ?_, h₂.holds⟩
  rw [formLog]
  simp only [hloop, hbreak, hnul, bind, Except.bind, h₂.index]
  rfl

/-! ### Reading the dump -/

/-- The row numbers of a dump, and its text without them and without spaces and newlines. The
number of a row runs up to the first space; `number` is what was read of it. -/
def readRows : Option Bytes → Bytes → List ℕ × Bytes
  | _, [] => ([], [])
  | some number, c :: rest =>
    if c = 32 then
      (numeral 10 number :: (readRows none rest).1, (readRows none rest).2)
    else
      readRows (some (number ++ [c])) rest
  | none, c :: rest =>
    if c = 10 then
      readRows (some []) rest
    else if c = 32 then
      readRows none rest
    else
      ((readRows none rest).1, c :: (readRows none rest).2)

theorem readRows_number {ds : Bytes} (hds : ∀ c ∈ ds, isDigit c = true) (number rest : Bytes) :
    readRows (some number) (ds ++ 32 :: rest) =
      (numeral 10 (number ++ ds) :: (readRows none rest).1, (readRows none rest).2) := by
  induction ds generalizing number with
  | nil => rw [List.nil_append, readRows, if_pos rfl, List.append_nil]
  | cons d ds ih =>
      rw [List.forall_mem_cons] at hds
      have hspace : d ≠ 32 := by
        rintro rfl
        exact absurd hds.1 (by decide)
      rw [List.cons_append, readRows, if_neg hspace, ih hds.2, List.append_assoc]
      rfl

theorem readRows_space (rest : Bytes) : readRows none (32 :: rest) = readRows none rest := by
  rw [readRows, if_neg (by decide), if_pos rfl]

theorem readRows_break (rest : Bytes) : readRows none (10 :: rest) = readRows (some []) rest := by
  rw [readRows, if_pos rfl]

theorem readRows_hexByte (byte : UInt8) (rest : Bytes) :
    readRows none (hexByte byte ++ rest) =
      ((readRows none rest).1, hexByte byte ++ (readRows none rest).2) := by
  have hhigh := hexByte_digits byte _ List.mem_cons_self
  have hlow := hexByte_digits byte _ (List.mem_cons_of_mem _ List.mem_cons_self)
  change readRows none (_ :: _ :: rest) = _
  rw [readRows, if_neg hhigh.2.1, if_neg hhigh.2.2, readRows, if_neg hlow.2.1, if_neg hlow.2.2]
  rfl

theorem numeral_ullto4Str (k : ℕ) : numeral 10 (ullto4Str (wrap32 k)) = k % 4294967296 := by
  have hvalue : (wrap32 k % 4294967296).toNat = k % 4294967296 := by
    unfold wrap32
    omega
  rw [ullto4Str, numeral_append, numeral_zeros, Nat.zero_mul, Nat.zero_add, numeral_decimal,
    hvalue]

/-- The rows of a chunk from the byte `lsize` on. -/
def rowsLeft (lsize size : ℕ) : ℕ := (lsize + size + 31) / 32 - (lsize + 31) / 32

theorem rowsLeft_succ (lsize size : ℕ) :
    rowsLeft lsize (size + 1) = (if lsize % 32 = 0 then 1 else 0) + rowsLeft (lsize + 1) size := by
  unfold rowsLeft
  split_ifs with hrow
  · omega
  · omega

theorem nextIndex_wrap32 (k lsize : ℕ) :
    nextIndex (wrap32 k) lsize = wrap32 (k + if lsize % 32 = 0 then 1 else 0 : ℕ) := by
  unfold nextIndex wrap32
  split_ifs
  · push_cast
    omega
  · rfl

/-- Reading one byte of a chunk, at the start of the chunk or behind the byte before. -/
theorem readRows_round (k lsize : ℕ) (byte : UInt8) (rest : Bytes) :
    readRows (if lsize = 0 then some [] else none)
        (rowNumber (wrap32 k) lsize ++ groupSpace lsize ++ hexByte byte ++ rest) =
      ((if lsize % 32 = 0 then [k % 4294967296] else []) ++ (readRows none rest).1,
        hexByte byte ++ (readRows none rest).2) := by
  rw [List.append_assoc, List.append_assoc]
  unfold rowNumber groupSpace
  by_cases hrow : lsize % 32 = 0
  · have hgroup : lsize % 16 = 0 := by omega
    have hread : readRows (some []) (ullto4Str (wrap32 k) ++ 32 :: 32 :: (hexByte byte ++ rest)) =
        (k % 4294967296 :: (readRows none rest).1, hexByte byte ++ (readRows none rest).2) := by
      rw [readRows_number (ullto4Str_digits _), readRows_space, readRows_hexByte, List.nil_append,
        numeral_ullto4Str]
    rw [if_pos hrow, if_pos hrow, if_pos hgroup]
    simp only [List.append_assoc, List.cons_append, List.nil_append]
    by_cases hfirst : lsize = 0
    · rw [if_pos hfirst, if_pos hfirst, List.nil_append, hread]
    · rw [if_neg hfirst, if_neg hfirst, List.cons_append, readRows_break, List.nil_append, hread]
  · have hfirst : lsize ≠ 0 := by
      rintro rfl
      exact hrow rfl
    rw [if_neg hrow, if_neg hrow, if_neg hfirst, List.nil_append, List.nil_append]
    by_cases hgroup : lsize % 16 = 0
    · rw [if_pos hgroup, List.cons_append, List.nil_append, readRows_space, readRows_hexByte]
    · rw [if_neg hgroup, List.nil_append, readRows_hexByte]

theorem readRows_rowsText {chunk : Bytes} (k lsize : ℕ) (behind : Bytes)
    (hsome : lsize = 0 → chunk ≠ []) :
    readRows (if lsize = 0 then some [] else none)
        ((rowsText (wrap32 k) lsize chunk).1 ++ 10 :: behind) =
      ((List.range' k (rowsLeft lsize chunk.length)).map (· % 4294967296) ++
        (readRows (some []) behind).1,
        chunk.flatMap hexByte ++ (readRows (some []) behind).2) := by
  induction chunk generalizing k lsize with
  | nil =>
      have hlater : lsize ≠ 0 := fun hzero => hsome hzero rfl
      have hnone : rowsLeft lsize 0 = 0 := Nat.sub_self _
      rw [if_neg hlater, rowsText, List.nil_append, readRows_break, List.length_nil, hnone]
      rfl
  | cons byte chunk ih =>
      have hrest := ih (k + if lsize % 32 = 0 then 1 else 0) (lsize + 1)
        (fun hzero => absurd hzero (Nat.succ_ne_zero lsize))
      rw [if_neg (Nat.succ_ne_zero lsize), ← nextIndex_wrap32] at hrest
      rw [rowsText, List.append_assoc, readRows_round, hrest, List.length_cons, rowsLeft_succ,
        List.flatMap_cons]
      split_ifs with hrow
      · rw [Nat.add_comm 1, List.range'_succ, List.append_assoc]
        rfl
      · rw [Nat.zero_add, List.nil_append, Nat.add_zero, List.append_assoc]

theorem rowsText_last (chunk : Bytes) (k lsize : ℕ) :
    (rowsText (wrap32 k) lsize chunk).2 = wrap32 (k + rowsLeft lsize chunk.length : ℕ) := by
  induction chunk generalizing k lsize with
  | nil =>
      have hnone : rowsLeft lsize 0 = 0 := Nat.sub_self _
      rw [rowsText, List.length_nil, hnone, Nat.add_zero]
  | cons byte chunk ih =>
      rw [rowsText, nextIndex_wrap32, List.length_cons, rowsLeft_succ, ← Nat.add_assoc]
      exact ih _ _

theorem rowsLeft_chunk (size : ℕ) :
    (size + 31) / 32 = rowsLeft 0 (min PRINTSIZE size) + (size - PRINTSIZE + 31) / 32 := by
  unfold rowsLeft PRINTSIZE
  omega

theorem dumpLoop_reads (k : ℕ) (buffer : Bytes) :
    ∃ text, dumpLoop (wrap32 k) buffer = .ok text ∧
      readRows (some []) text =
        ((List.range' k ((buffer.length + 31) / 32)).map (· % 4294967296),
          buffer.flatMap hexByte) := by
  induction hsize : buffer.length using Nat.strong_induction_on generalizing buffer k with
  | h size ih =>
      cases buffer with
      | nil =>
          subst hsize
          refine ⟨[], ?_, rfl⟩
          rw [dumpLoop]
      | cons byte rest =>
          have hne : byte :: rest ≠ [] := List.cons_ne_nil byte rest
          have hchunk : ((byte :: rest).take PRINTSIZE).length = min PRINTSIZE size := by
            rw [List.length_take, hsize]
          have hshorter := length_drop_chunk hne
          rw [hsize] at hshorter
          obtain ⟨szbuf, hformLog, hholds⟩ := formLog_holds
            (hchunk.trans_le (Nat.min_le_left _ _)) (wrap32 k)
          obtain ⟨behind, hbehind, hread⟩ := ih _ hshorter
            (k + rowsLeft 0 (min PRINTSIZE size)) ((byte :: rest).drop PRINTSIZE) rfl
          rw [rowsText_last, hchunk] at hformLog
          have htake : (byte :: rest).take PRINTSIZE ≠ [] := by
            rw [Ne, List.take_eq_nil_iff, not_or]
            exact ⟨by rw [PRINTSIZE]; decide, hne⟩
          have hrows := readRows_rowsText k 0 behind fun _ => htake
          rw [if_pos rfl, hread, hchunk, List.length_drop, hsize] at hrows
          refine ⟨cstr szbuf ++ behind, ?_, ?_⟩
          · rw [dumpLoop, hformLog]
            change Except.bind (dumpLoop _ _) _ = _
            rw [hbehind]
            rfl
          · rw [hholds.cstr_eq, List.append_assoc]
            refine hrows.trans (Prod.ext ?_ ?_)
            · rw [← List.map_append, List.range'_append_1, ← rowsLeft_chunk]
            · rw [← List.flatMap_append, List.take_append_drop]

/-- What a dump shows, read back from its rows, is every byte of the buffer in order, with rows
counted from 0; and no chunk makes `formLog` write behind its array. -/
theorem binary_dump_complete (address : ℤ) (buffer : Bytes) :
    ∃ text, outputBinary address buffer = .ok (addressLine address buffer.length ++ text) ∧
      (readRows (some []) text).2 = buffer.flatMap hexByte ∧
      ((buffer.length + 31) / 32 ≤ 2147483648 →
        (readRows (some []) text).1 = List.range ((buffer.length + 31) / 32)) ∧
      ∀ (index : ℤ) (chunk : Bytes), chunk.length ≤ PRINTSIZE →
        ∃ last szbuf, formLog index (List.replicate 1544 0) 1544 chunk = .ok (last, szbuf) := by
  obtain ⟨text, hloop, hread⟩ := dumpLoop_reads 0 buffer
  refine ⟨text, ?_, ?_, fun hrows => ?_, fun index chunk hchunk => ?_⟩
  · rw [outputBinary]
    change dumpLoop 0 buffer = .ok text at hloop
    rw [hloop]
    rfl
  · rw [hread]
  · have hmod : ∀ k ∈ List.range ((buffer.length + 31) / 32), k % 4294967296 = id k := by
      intro k hk
      have hlt := List.mem_range.mp hk
      exact Nat.mod_eq_of_lt (by omega)
    rw [hread, ← List.range_eq_range', List.map_congr_left hmod, List.map_id]
  · obtain ⟨szbuf, hformLog, -⟩ := formLog_holds hchunk index
    exact ⟨_, szbuf, hformLog⟩

theorem binary_dump_complete_row :
    ∃ text, outputBinary 0 [0, 171] = .ok (addressLine 0 2 ++ text) ∧
      (readRows (some []) text).2 = ascii "00ab" ∧ (readRows (some []) text).1 = [0] ∧
      ∃ last szbuf, formLog 7 (List.replicate 1544 0) 1544 [255] = .ok (last, szbuf) := by
  obtain ⟨text, hline, hhex, hrows, hbounds⟩ := binary_dump_complete 0 [0, 171]
  exact ⟨text, hline, hhex, hrows (by decide), hbounds 7 [255] (by decide)⟩

end CAsyncLog

end Yedis
