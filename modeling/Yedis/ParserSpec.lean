import Yedis.Parser

/-!
# What each parser function reads

The digit loop of `getIntUntilCRLF` is the token scanner run on the unread bytes,
and `parseMulti` and `parseStrlen` are that scanner behind a leading `'*'` or
`'$'`. `parseStr_eq` and `parseStrval_cases` say everything one item can do; later
modules use them and do not unfold the parser.
-/

namespace Yedis
open IntToken

theorem readByte_eq_ok {buf : Bytes} {i : ℕ} {c : UInt8} {r : Bytes} (h : buf.drop i = c :: r) :
    readByte buf i = .ok c := by
  have hget : buf[i]? = some c := by
    have := congrArg List.head? h
    simpa [List.head?_drop] using this
  rw [readByte, hget]

theorem readByte_eq_fault {buf : Bytes} {i : ℕ} (h : buf.length ≤ i) :
    readByte buf i = .error .outOfRange := by
  rw [readByte, List.getElem?_eq_none h]

theorem drop_succ_of_cons {buf : Bytes} {i : ℕ} {c : UInt8} {r : Bytes} (h : buf.drop i = c :: r) :
    buf.drop (i + 1) = r := by
  rw [← List.tail_drop, h]
  rfl

theorem drop_add_of_append {buf s r : Bytes} {i : ℕ} (h : buf.drop i = s ++ r) :
    buf.drop (i + s.length) = r := by
  rw [← List.drop_drop, h, List.drop_left]

theorem length_of_drop_cons {buf : Bytes} {i : ℕ} {c : UInt8} {r : Bytes}
    (h : buf.drop i = c :: r) : buf.length = i + 1 + r.length := by
  have := congrArg List.length h
  simp only [List.length_drop, List.length_cons] at this
  omega

theorem digitLoop_eq (buf : Bytes) (ptr nBytes : ℕ)
    (body : Bytes) (i v : ℕ) (hbody : buf.drop (ptr + i) = body) (hi : i + body.length = nBytes) :
    digitLoop buf ptr nBytes body.length i (wrap32 v) = .ok (IntRead.ofRest
      (body.dropWhile isDigit)
      (wrap32 ((body.takeWhile isDigit).foldl (fun v c => v * 10 + digitVal c) v : ℕ))
      (i + (body.takeWhile isDigit).length)) := by
  induction body generalizing i v with
  | nil => simp [digitLoop, IntRead.ofRest]
  | cons c r ih =>
      have hread := readByte_eq_ok hbody
      have hnext := drop_succ_of_cons hbody
      simp only [List.length_cons] at hi
      rw [List.length_cons, digitLoop, hread]
      simp only [bind, Except.bind]
      by_cases hc : isDigit c = true
      · have hstep : wrap32 (wrap32 (wrap32 (v : ℤ) * 10) + (c.toNat - 48 : ℕ)) =
            wrap32 ((v * 10 + digitVal c : ℕ) : ℤ) := by
          rw [wrap32_accumulate, digitVal_of_isDigit hc]
          push_cast
          rfl
        have hih := ih (i + 1) (v * 10 + digitVal c) (by rw [← Nat.add_assoc]; exact hnext)
          (by omega)
        rw [if_pos hc, hstep, hih, List.takeWhile_cons_of_pos hc, List.dropWhile_cons_of_pos hc,
          List.foldl_cons, List.length_cons, Nat.add_right_comm, Nat.add_assoc]
      · rw [if_neg hc, List.takeWhile_cons_of_neg hc, List.dropWhile_cons_of_neg hc]
        cases r with
        | nil =>
            simp only [List.length_nil] at hi
            by_cases h13 : c = 13
            · simp [h13, show ¬ i + 1 < nBytes by omega, pure, Except.pure, IntRead.ofRest]
            · simp [h13, pure, Except.pure, IntRead.ofRest]
        | cons d r =>
            have hread2 := readByte_eq_ok hnext
            simp only [List.length_cons] at hi
            by_cases h13 : c = 13
            · by_cases h10 : d = 10 <;>
                simp [h13, h10, show i + 1 < nBytes by omega, hread2, pure, Except.pure,
                  IntRead.ofRest]
            · simp [h13, pure, Except.pure, IntRead.ofRest]

theorem finishInt_ofRest (neg : Bool) (after : Bytes) (w : ℤ) (i ptr : ℕ) :
    finishInt neg ptr (IntRead.ofRest after w i) =
      IntRead.ofRest after (if neg then wrap32 (w * -1) else w) (ptr + i + 2) := by
  unfold IntRead.ofRest
  split
  · rfl
  · split <;> rfl
  · split <;> rfl

theorem getIntUntilCRLF_eq (buf : Bytes) (ptr : ℕ) :
    getIntUntilCRLF buf ptr (buf.length - ptr) = .ok ((scanToken (buf.drop ptr)).shift ptr) := by
  have hlen : (buf.drop ptr).length = buf.length - ptr := List.length_drop
  by_cases h3 : buf.length - ptr < 3
  · rw [getIntUntilCRLF, if_pos h3, scanToken, if_pos (by omega)]
    rfl
  · cases hs : buf.drop ptr with
    | nil =>
        rw [hs, List.length_nil] at hlen
        omega
    | cons c r =>
        rw [hs, List.length_cons] at hlen
        have hw0 : (0 : ℤ) = wrap32 ((0 : ℕ) : ℤ) := by decide
        rw [getIntUntilCRLF, if_neg h3, readByte_eq_ok hs, scanToken,
          if_neg (by rw [List.length_cons]; omega), IntRead.ofRest_shift, hw0]
        simp only [bind, Except.bind, pure, Except.pure]
        by_cases hsign : c = 45 ∨ c = 43
        · have hbody : (takeSign (c :: r)).2 = r := by
            rcases hsign with rfl | rfl <;> simp [takeSign]
          have hloop := digitLoop_eq buf ptr (buf.length - ptr) r 1 0 (drop_succ_of_cons hs)
            (by omega)
          rw [if_pos hsign, show buf.length - ptr - 1 = r.length by omega, hloop]
          simp only [finishInt_ofRest, rest, hbody]
          refine congrArg Except.ok (congrArg₂ (IntRead.ofRest _) ?_ ?_)
          · rcases hsign with rfl | rfl
            · simp [lead, takeSign, value, numeral, wrap32_negate]
            · simp [lead, takeSign, value, numeral]
          · rcases hsign with rfl | rfl <;>
              simp [lead, takeSign, text, bare, signText] <;> omega
        · have hm : c ≠ 45 := fun h => hsign (Or.inl h)
          have hp : c ≠ 43 := fun h => hsign (Or.inr h)
          have hbody : takeSign (c :: r) = (none, c :: r) := by simp [takeSign, hm, hp]
          have hloop := digitLoop_eq buf ptr (buf.length - ptr) (c :: r) 0 0 hs
            (by rw [List.length_cons]; omega)
          rw [if_neg hsign, show buf.length - ptr - 0 = (c :: r).length by
            rw [List.length_cons]; omega, hloop]
          simp only [finishInt_ofRest, rest, lead, hbody]
          refine congrArg Except.ok (congrArg₂ (IntRead.ofRest _) ?_ ?_)
          · simp [hm, value, numeral]
          · simp [text, bare, signText]
            omega

/-- A token behind one leading byte, as in a count line or a length line. -/
def scanLine (mark : UInt8) (s : Bytes) : IntRead :=
  match s with
  | [] => .wait
  | c :: r => if r.length < 2 then .wait else if c ≠ mark then .error else (scanToken r).shift 1

theorem scanLine_ok {mark : UInt8} {s : Bytes} {v : ℤ} {n : ℕ} (h : scanLine mark s = .ok v n) :
    ∃ t : IntToken, v = wrap32 t.value ∧ n = 1 + t.text.length ∧ 4 ≤ s.length ∧
      ((∃ r, s = mark :: t.text ++ r) ∨ s = mark :: t.bare) := by
  match s with
  | [] => cases h
  | c :: r =>
      rw [scanLine] at h
      split_ifs at h with h2 hc
      cases hr : scanToken r with
      | wait => simp [hr, IntRead.shift] at h
      | error => simp [hr, IntRead.shift] at h
      | ok val pos =>
          simp only [hr, IntRead.shift, IntRead.ok.injEq] at h
          obtain ⟨t, hv, hn, hlen, ⟨q, hq⟩ | hq⟩ := scanToken_ok hr
          · exact ⟨t, by rw [← h.1, hv], by rw [← h.2, hn], by simpa using hlen,
              Or.inl ⟨q, by rw [not_not.mp hc, hq]; rfl⟩⟩
          · exact ⟨t, by rw [← h.1, hv], by rw [← h.2, hn], by simpa using hlen,
              Or.inr (by rw [not_not.mp hc, hq])⟩

theorem scanLine_text (mark : UInt8) (t : IntToken) (r : Bytes) (h : 3 ≤ (t.text ++ r).length) :
    scanLine mark (mark :: t.text ++ r) = .ok (wrap32 t.value) (1 + t.text.length) := by
  rw [List.cons_append, scanLine, if_neg (by omega), if_neg (by simp), scanToken_text t r h]
  rfl

theorem scanLine_bare (mark : UInt8) (t : IntToken) (h : 3 ≤ t.bare.length) :
    scanLine mark (mark :: t.bare) = .ok (wrap32 t.value) (1 + t.text.length) := by
  rw [scanLine, if_neg (by omega), if_neg (by simp), scanToken_bare t h]
  rfl

theorem scanLine_error_append {mark : UInt8} {s : Bytes} (h : scanLine mark s = .error)
    (q : Bytes) : scanLine mark (s ++ q) = .error := by
  match s with
  | [] => cases h
  | c :: r =>
      rw [scanLine] at h
      rw [List.cons_append, scanLine]
      split_ifs at h with h2 hc
      · rw [if_neg (by rw [List.length_append]; omega), if_pos hc]
      · have hr : scanToken r = .error := by
          cases hr : scanToken r <;> simp [hr, IntRead.shift] at h ⊢
        rw [if_neg (by rw [List.length_append]; omega), if_neg hc, scanToken_error_append hr]
        rfl

theorem scanLine_ok_append {mark : UInt8} {s : Bytes} {v : ℤ} {n : ℕ}
    (h : scanLine mark s = .ok v n) (hn : n ≤ s.length) (q : Bytes) :
    scanLine mark (s ++ q) = .ok v n := by
  obtain ⟨t, rfl, rfl, hlen, ⟨r, rfl⟩ | rfl⟩ := scanLine_ok h
  · rw [List.append_assoc]
    apply scanLine_text
    simp only [List.cons_append, List.length_cons, List.length_append] at hlen ⊢
    omega
  · rw [List.length_cons, text_length] at hn
    omega

theorem IntRead.shift_shift (r : IntRead) (m n : ℕ) : (r.shift m).shift n = r.shift (n + m) := by
  cases r <;> simp [IntRead.shift, Nat.add_assoc]

theorem parseStrlen_eq (buf : Bytes) (ptr : ℕ) :
    parseStrlen buf ptr = .ok ((scanLine 36 (buf.drop ptr)).shift ptr) := by
  have hlen : (buf.drop ptr).length = buf.length - ptr := List.length_drop
  cases hs : buf.drop ptr with
  | nil =>
      rw [hs, List.length_nil] at hlen
      rw [parseStrlen, if_pos (by omega)]
      rfl
  | cons c r =>
      rw [hs, List.length_cons] at hlen
      by_cases h3 : r.length < 2
      · rw [parseStrlen, if_pos (by omega), scanLine, if_pos h3]
        rfl
      · rw [parseStrlen, if_neg (by omega), scanLine, if_neg h3, readByte_eq_ok hs]
        simp only [bind, Except.bind]
        by_cases hc : c = 36
        · rw [if_neg (by simp [hc]), if_neg (by simp [hc]), getIntUntilCRLF_eq,
            drop_succ_of_cons hs, IntRead.shift_shift]
        · rw [if_pos hc, if_pos hc]
          rfl

/-- The cursor after `parseMulti`. -/
def multiCursor (s : Bytes) (ptr : ℕ) : ℕ :=
  match scanLine 42 s with
  | .ok _ n => ptr + n
  | _ => if 3 ≤ s.length ∧ s.head? = some 42 then ptr + 1 else ptr

theorem parseMulti_eq (buf : Bytes) (ptr : ℕ) :
    parseMulti buf ptr =
      .ok ((scanLine 42 (buf.drop ptr)).shift ptr, multiCursor (buf.drop ptr) ptr) := by
  have hlen : (buf.drop ptr).length = buf.length - ptr := List.length_drop
  cases hs : buf.drop ptr with
  | nil =>
      rw [hs, List.length_nil] at hlen
      rw [parseMulti, if_pos (by omega)]
      rfl
  | cons c r =>
      rw [hs, List.length_cons] at hlen
      by_cases h3 : r.length < 2
      · rw [parseMulti, if_pos (by omega), multiCursor, scanLine, if_pos h3]
        simp only [List.length_cons, show ¬ 3 ≤ r.length + 1 by omega, false_and, if_false]
        rfl
      · rw [parseMulti, if_neg (by omega), multiCursor, scanLine, if_neg h3, readByte_eq_ok hs]
        simp only [bind, Except.bind]
        by_cases hc : c = 42
        · rw [if_neg (by simp [hc]), if_neg (by simp [hc]), getIntUntilCRLF_eq,
            drop_succ_of_cons hs, IntRead.shift_shift]
          cases scanToken r with
          | ok val pos => simp [IntRead.shift, pure, Except.pure, Nat.add_assoc]
          | wait => simp [IntRead.shift, pure, Except.pure, hc]; omega
          | error => simp [IntRead.shift, pure, Except.pure, hc]; omega
        · rw [if_pos hc, if_pos hc]
          simp [IntRead.shift, pure, Except.pure, hc]

theorem parseStr_eq (buf : Bytes) (ptr : ℕ) (result : Bytes) :
    parseStr (-1) buf ptr result =
      match scanLine 36 (buf.drop ptr) with
      | .error => .ok ⟨.error, ptr, -1, result⟩
      | .wait => .ok ⟨.wait, ptr, -1, result⟩
      | .ok len n =>
          if len < -1 then .ok ⟨.error, ptr + n, len, result⟩
          else if len = -1 then .ok ⟨.ok, ptr + n, -1, []⟩
          else parseStrval len buf (ptr + n) result := by
  rw [parseStr, if_pos rfl, parseStrlen_eq]
  cases scanLine 36 (buf.drop ptr) with
  | wait => rfl
  | error => rfl
  | ok val pos =>
      simp only [bind, Except.bind, IntRead.shift, pure, Except.pure]

theorem parseStr_pending {nParamLen : ℤ} (h : nParamLen ≠ -1) (buf : Bytes) (ptr : ℕ)
    (result : Bytes) : parseStr nParamLen buf ptr result = parseStrval nParamLen buf ptr result := by
  rw [parseStr, if_neg h]

/-- The guard of `parseStrval`: fewer bytes are left than the payload and its CRLF need. -/
def Short (buf : Bytes) (ptr : ℕ) (len : ℤ) : Prop :=
  wrap32 (buf.length - ptr) < wrap32 (len + 2)

instance (buf : Bytes) (ptr : ℕ) (len : ℤ) : Decidable (Short buf ptr len) :=
  inferInstanceAs (Decidable (_ < _))

/-- Where the range and the length fit in an `int`, the guard does what it is for. -/
theorem short_iff {buf : Bytes} {ptr len : ℕ} (hbuf : buf.length < 2147483648)
    (hptr : ptr ≤ buf.length + 2) (hlen : len < 2147483646) :
    Short buf ptr len ↔ buf.length < ptr + len + 2 := by
  rw [Short, wrap32_of_range (by omega) (by omega), wrap32_of_range (by omega) (by omega)]
  omega

/-- The sum in the guard wraps for the two largest lengths, and the guard is off. -/
theorem not_short_of_large {buf : Bytes} {ptr : ℕ} {len : ℤ} (hbuf : buf.length < 2147483648)
    (hptr : ptr ≤ buf.length + 2) (hlen : 2147483646 ≤ len) (hmax : len < 2147483648) :
    ¬ Short buf ptr len := by
  have hwrap : wrap32 (len + 2) = len + 2 - 4294967296 := by
    unfold wrap32
    omega
  rw [Short, hwrap, wrap32_of_range (by omega) (by omega)]
  omega

theorem parseStrval_short {buf : Bytes} {ptr len : ℕ} (h : Short buf ptr len) (result : Bytes) :
    parseStrval len buf ptr result = .ok ⟨.wait, ptr, len, result⟩ := by
  rw [parseStrval, if_neg (by omega)]
  rw [Short] at h
  simp only [bind, Except.bind, pure, Except.pure, if_pos h]

/-- `parseStrval` once its guard has passed. -/
theorem parseStrval_guarded {buf : Bytes} {ptr len : ℕ} (h : ¬ Short buf ptr len) (result : Bytes) :
    parseStrval len buf ptr result = (do
      let c ← readByte buf (ptr + len)
      if c ≠ 13 then
        return ⟨.error, ptr, len, result⟩
      let d ← readByte buf (ptr + len + 1)
      if d ≠ 10 then
        return ⟨.error, ptr, len, result⟩
      let payload ← copyRange buf ptr len
      return ⟨.ok, ptr + len + 2, -1, payload⟩) := by
  rw [Short] at h
  rw [parseStrval, if_neg (by omega)]
  simp only [bind, Except.bind, pure, Except.pure, if_neg h, Int.toNat_natCast]

theorem parseStrval_payload {buf payload r : Bytes} {ptr : ℕ} (h : ¬ Short buf ptr payload.length)
    (hs : buf.drop ptr = payload ++ crlf ++ r) (result : Bytes) :
    parseStrval payload.length buf ptr result =
      .ok ⟨.ok, ptr + payload.length + 2, -1, payload⟩ := by
  have htail : buf.drop (ptr + payload.length) = 13 :: 10 :: r :=
    drop_add_of_append (hs.trans (List.append_assoc _ _ _))
  have hlen := length_of_drop_cons htail
  rw [parseStrval_guarded h]
  simp only [bind, Except.bind, pure, Except.pure, readByte_eq_ok htail,
    readByte_eq_ok (drop_succ_of_cons htail), copyRange]
  rw [if_pos (show ptr + payload.length ≤ buf.length by omega)]
  simp [hs]

/-- A parser that has not seen a count reads the count line first. -/
theorem parseRequest_eq {self : YProtoParse} (h : self.nMulti = -1) (buf : Bytes) (ptr : ℕ) :
    self.parseRequest buf ptr =
      match scanLine 42 (buf.drop ptr) with
      | .error => .ok ⟨.error, multiCursor (buf.drop ptr) ptr, self⟩
      | .wait => .ok ⟨.wait, multiCursor (buf.drop ptr) ptr, self⟩
      | .ok count n =>
          if count < -1 then .ok ⟨.error, ptr + n, { self with nMulti := count }⟩
          else ({ self with nMulti := count } : YProtoParse).parseStrlist buf (ptr + n) := by
  rw [YProtoParse.parseRequest, if_pos h, parseMulti_eq]
  cases scanLine 42 (buf.drop ptr) with
  | wait => rfl
  | error => rfl
  | ok count n =>
      simp only [bind, Except.bind, IntRead.shift, pure, Except.pure]

theorem parseRequest_resumed {self : YProtoParse} (h : self.nMulti ≠ -1) (buf : Bytes) (ptr : ℕ) :
    self.parseRequest buf ptr = self.parseStrlist buf ptr := by
  rw [YProtoParse.parseRequest, if_neg h]

/-- Behind a payload comes CRLF, also when a continuation brings it. -/
theorem drop_behind_payload {buf q payload r : Bytes} {ptr : ℕ}
    (hle : ptr + payload.length ≤ buf.length) (h : buf.drop ptr ++ q = payload ++ crlf ++ r) :
    buf.drop (ptr + payload.length) ++ q = 13 :: 10 :: r := by
  have hd := congrArg (List.drop payload.length) h
  rw [List.drop_append_of_le_length (by rw [List.length_drop]; omega), List.drop_drop,
    List.append_assoc, List.drop_left] at hd
  exact hd

/-- Everything `parseStrval` can do once its guard has passed. -/
theorem parseStrval_cases (buf : Bytes) (ptr len : ℕ) (result : Bytes) (h : ¬ Short buf ptr len) :
    (parseStrval len buf ptr result = .error .outOfRange ∧ buf.length < ptr + len + 2) ∨
    (parseStrval len buf ptr result = .ok ⟨.error, ptr, len, result⟩ ∧ ptr + len < buf.length ∧
      ∀ q payload r : Bytes, payload.length = len → buf.drop ptr ++ q ≠ payload ++ crlf ++ r) ∨
    (∃ payload r : Bytes, payload.length = len ∧ buf.drop ptr = payload ++ crlf ++ r ∧
      parseStrval len buf ptr result = .ok ⟨.ok, ptr + len + 2, -1, payload⟩) := by
  rw [parseStrval_guarded h]
  simp only [bind, Except.bind, pure, Except.pure]
  cases htail : buf.drop (ptr + len) with
  | nil =>
      have hle : buf.length ≤ ptr + len := List.drop_eq_nil_iff.mp htail
      exact Or.inl ⟨by rw [readByte_eq_fault hle], by omega⟩
  | cons c t =>
      have hlen := length_of_drop_cons htail
      rw [readByte_eq_ok htail]
      by_cases hc : c = 13
      · simp only [hc, ne_eq, not_true_eq_false, if_false]
        cases t with
        | nil =>
            simp only [List.length_nil] at hlen
            exact Or.inl ⟨by rw [readByte_eq_fault (by omega)], by omega⟩
        | cons d r =>
            simp only [List.length_cons] at hlen
            rw [readByte_eq_ok (drop_succ_of_cons htail)]
            by_cases hd : d = 10
            · refine Or.inr (Or.inr ⟨(buf.drop ptr).take len, r, ?_, ?_, ?_⟩)
              · rw [List.length_take, List.length_drop]
                omega
              · conv_lhs => rw [← List.take_append_drop len (buf.drop ptr)]
                rw [List.drop_drop, htail, hc, hd, List.append_assoc]
                rfl
              · rw [copyRange, if_pos (by omega)]
                simp [hd]
            · refine Or.inr (Or.inl ⟨by simp [hd], by omega, ?_⟩)
              rintro q payload r' rfl heq
              have hne := drop_behind_payload (by omega) heq
              rw [htail] at hne
              simp [hd] at hne
      · refine Or.inr (Or.inl ⟨by simp [hc], by omega, ?_⟩)
        rintro q payload r' rfl heq
        have hne := drop_behind_payload (by omega) heq
        rw [htail] at hne
        simp [hc] at hne

end Yedis
