import Yedis.FreshParse

/-!
# Which reads leave the range

The guard of `parseStrval` compares in `int`, and `m_nParamLen + 2` wraps for the
two largest lengths. The parser reads outside its range exactly when it reaches a
length line with one of these values; a length it keeps from one call to the next
is never so large.
-/

namespace Yedis
open IntToken

/-- A complete length line, or one the end of the range cuts off, whose value is one of the two
largest that an `int` holds. -/
def HugeLength (s : Bytes) : Prop :=
  ∃ t : IntToken, 2147483646 ≤ wrap32 t.value ∧
    ((∃ r, s = 36 :: t.text ++ r) ∨ 3 ≤ t.bare.length ∧ s = 36 :: t.bare)

/-- Fewer than `k` complete items, and then a huge length. -/
def HugeAhead (k : ℕ) (s : Bytes) : Prop :=
  ∃ (is : List Item) (r : Bytes), s = itemsText is ++ r ∧ is.length < k ∧ HugeLength r

/-- The parser reaches a huge length in `buf` from `ptr`: behind the count line, behind the items
still to come, or behind the rest of the item it waits for. -/
inductive ReachesHuge (self : YProtoParse) (buf : Bytes) (ptr : ℕ) : Prop
  | counted (hmulti : self.nMulti = -1) (h : IntToken) (s : Bytes)
      (hs : buf.drop ptr = 42 :: h.text ++ s) (hahead : HugeAhead (wrap32 h.value).toNat s)
  | items (hmulti : self.nMulti ≠ -1) (hlen : self.nParamLen = -1)
      (hahead : HugeAhead (self.nMulti - self.nNumOfParam).toNat (buf.drop ptr))
  | pending (hmulti : self.nMulti ≠ -1) (payload s : Bytes)
      (hlen : self.nParamLen = payload.length) (hs : buf.drop ptr = payload ++ crlf ++ s)
      (hahead : HugeAhead ((self.nMulti - self.nNumOfParam).toNat - 1) s)

theorem hugeAhead_zero (s : Bytes) : ¬ HugeAhead 0 s := by
  rintro ⟨is, r, -, hk, -⟩
  omega

theorem hugeAhead_nil (k : ℕ) : ¬ HugeAhead k [] := by
  rintro ⟨is, r, hs, -, t, -, ht⟩
  obtain ⟨-, rfl⟩ := List.append_eq_nil_iff.mp hs.symm
  rcases ht with ⟨q, hq⟩ | ⟨-, hq⟩ <;> simp at hq

/-- A huge length takes the guard out, and the byte behind the payload is out of range. -/
theorem parseStr_of_huge {buf : Bytes} {ptr : ℕ} (hbuf : buf.length < 2147483648)
    (h : HugeLength (buf.drop ptr)) (slot : Bytes) :
    parseStr (-1) buf ptr slot = .error .outOfRange := by
  obtain ⟨t, hhuge, hline⟩ := h
  have hmax := wrap32_range t.value
  have hbare := bare_length_of_wrap_ne (t := t) (by omega)
  obtain ⟨hscan, hend⟩ : scanLine 36 (buf.drop ptr) = .ok (wrap32 t.value) (1 + t.text.length) ∧
      ptr + (1 + t.text.length) ≤ buf.length + 2 := by
    rcases hline with ⟨r, hr⟩ | ⟨h3, hr⟩
    · have hlen := congrArg List.length hr
      simp only [List.length_drop, List.length_append, List.length_cons] at hlen
      rw [hr, scanLine_text 36 t r (by rw [List.length_append, text_length]; omega)]
      exact ⟨rfl, by omega⟩
    · have hcut := end_of_cut_line hr
      rw [hr, scanLine_bare 36 t h3]
      exact ⟨rfl, by omega⟩
  obtain ⟨len, hlen⟩ : ∃ len : ℕ, wrap32 t.value = len := ⟨(wrap32 t.value).toNat, by omega⟩
  rw [parseStr_eq, hscan]
  simp only [if_neg (show ¬ wrap32 t.value < -1 by omega),
    if_neg (show ¬ wrap32 t.value = -1 by omega)]
  rw [hlen]
  have hshort : ¬ Short buf (ptr + (1 + t.text.length)) len :=
    not_short_of_large hbuf hend (by omega) (by omega)
  rcases parseStrval_cases buf _ len slot hshort with
    ⟨hf, -⟩ | ⟨-, hin, -⟩ | ⟨payload, r, hp, hs, -⟩
  · exact hf
  · omega
  · have hdrop := congrArg List.length hs
    simp only [List.length_drop, List.length_append, crlf_length] at hdrop
    omega

/-- The guard holds for every other length. -/
theorem huge_of_parseStrval_fault {buf : Bytes} {ptr len : ℕ} {slot : Bytes}
    (hbuf : buf.length < 2147483648) (hptr : ptr ≤ buf.length + 2)
    (h : parseStrval len buf ptr slot = .error .outOfRange) : 2147483646 ≤ len := by
  by_contra hlt
  by_cases hshort : Short buf ptr len
  · rw [parseStrval_short hshort] at h
    cases h
  · rcases parseStrval_cases buf ptr len slot hshort with
      ⟨-, hin⟩ | ⟨he, -, -⟩ | ⟨payload, r, -, -, hok⟩
    · exact hshort ((short_iff hbuf hptr (by omega)).mpr hin)
    · rw [he] at h
      cases h
    · rw [hok] at h
      cases h

theorem huge_of_parseStr_fault {buf : Bytes} {ptr : ℕ} {slot : Bytes}
    (hbuf : buf.length < 2147483648)
    (h : parseStr (-1) buf ptr slot = .error .outOfRange) : HugeLength (buf.drop ptr) := by
  rw [parseStr_eq] at h
  cases hscan : scanLine 36 (buf.drop ptr) with
  | wait =>
      rw [hscan] at h
      cases h
  | error =>
      rw [hscan] at h
      cases h
  | ok v n =>
      obtain ⟨t, rfl, rfl, h4, hline⟩ := scanLine_ok hscan
      simp only [hscan] at h
      split_ifs at h with hlt hnull
      obtain ⟨len, hlen⟩ : ∃ len : ℕ, wrap32 t.value = len := ⟨(wrap32 t.value).toNat, by omega⟩
      rw [hlen] at h
      rcases hline with ⟨r, hr⟩ | hr
      · have hcount := congrArg List.length hr
        simp only [List.length_drop, List.length_append, List.length_cons] at hcount
        have hhuge := huge_of_parseStrval_fault hbuf (by omega) h
        exact ⟨t, by omega, Or.inl ⟨r, hr⟩⟩
      · have hhuge := huge_of_parseStrval_fault hbuf (by rw [end_of_cut_line hr]) h
        rw [hr, List.length_cons] at h4
        exact ⟨t, by omega, Or.inr ⟨by omega, hr⟩⟩

theorem hugeAhead_succ (k : ℕ) (s : Bytes) : HugeAhead (k + 1) s ↔
    HugeLength s ∨ ∃ (i : Item) (r : Bytes), s = i.text ++ r ∧ HugeAhead k r := by
  constructor
  · rintro ⟨is, r, hs, hk, hr⟩
    cases is with
    | nil => exact Or.inl (by rw [hs]; exact hr)
    | cons i is =>
        rw [itemsText_cons, List.append_assoc] at hs
        exact Or.inr ⟨i, _, hs, is, r, rfl, by simpa using hk, hr⟩
  · rintro (hhuge | ⟨i, r, hs, is, q, hr, hk, hq⟩)
    · exact ⟨[], s, rfl, Nat.succ_pos k, hhuge⟩
    · refine ⟨i :: is, q, ?_, by simpa using hk, hq⟩
      rw [hs, hr, itemsText_cons, List.append_assoc]

/-- The loop reads outside the range exactly when a huge length lies ahead of it. -/
theorem strlistLoop_fault_iff {buf : Bytes} (hbuf : buf.length < 2147483648) {k : ℕ}
    {self : YProtoParse} {ptr : ℕ} (hlen : self.nParamLen = -1) :
    strlistLoop buf k self ptr = .error .outOfRange ↔ HugeAhead k (buf.drop ptr) := by
  induction k generalizing self ptr with
  | zero =>
      refine iff_of_false ?_ (hugeAhead_zero _)
      rw [strlistLoop]
      simp
  | succ k ih =>
      rw [hugeAhead_succ, strlistLoop]
      simp only [YProtoParse.growParams_nParamLen, hlen, bind, Except.bind]
      generalize self.growParams.vecParams.getD self.growParams.nNumOfParam [] = slot
      cases hr : parseStr (-1) buf ptr slot with
      | error f =>
          constructor
          · intro hf
            cases hf
            exact Or.inl (huge_of_parseStr_fault hbuf hr)
          · rintro (hhuge | ⟨i, s, hs, -⟩)
            · rw [parseStr_of_huge hbuf hhuge] at hr
              cases hr
              rfl
            · rw [parseStr_item hbuf hs] at hr
              cases hr
      | ok r =>
          have hno : ¬ HugeLength (buf.drop ptr) := by
            intro hhuge
            rw [parseStr_of_huge hbuf hhuge] at hr
            cases hr
          rw [or_iff_right hno]
          by_cases hv : r.verdict = .ok
          · simp only [hv, if_true]
            rcases parseStr_ok_inv hr hv with ⟨i, s, hs, -, rfl⟩ | ⟨t, ht, h3, -, rfl⟩
            · have hat : buf.drop (ptr + i.text.length) = s := drop_add_of_append hs
              rw [ih rfl, hat]
              constructor
              · exact fun hahead => ⟨i, s, hs, hahead⟩
              · rintro ⟨j, s', hs', hahead⟩
                rw [hs] at hs'
                obtain ⟨-, rfl⟩ := Item.text_append_inj hs'
                exact hahead
            · rw [ih rfl, List.drop_of_length_le (show buf.length ≤ buf.length + 2 by omega)]
              apply iff_of_false (hugeAhead_nil k)
              rintro ⟨i, s, hs, -⟩
              rw [ht, Item.text, List.append_assoc, List.cons_append, List.cons.injEq] at hs
              exact bare_ne_text_append _ _ _ hs.2
          · simp only [if_neg hv, pure, Except.pure, reduceCtorEq, false_iff]
            rintro ⟨i, s, hs, -⟩
            rw [parseStr_item hbuf hs] at hr
            cases hr
            exact hv rfl

/-- What a parser keeps between calls: a pending length that the guard can handle, and nothing
pending before the count line. -/
structure Settled (y : YProtoParse) : Prop where
  small : y.nParamLen < 2147483646
  fresh : y.nMulti = -1 → y.nParamLen = -1 ∧ y.nNumOfParam = 0

theorem parseStrval_small {buf : Bytes} {ptr : ℕ} {n : ℤ} {slot : Bytes} {r : StrParsed}
    (hbuf : buf.length < 2147483648) (hptr : ptr ≤ buf.length + 2) (hn : n < 2147483648)
    (hfit : n < 2147483646 ∨ 2 ≤ ptr) (h : parseStrval n buf ptr slot = .ok r) :
    r.nParamLen < 2147483646 ∧ r.ptr ≤ buf.length + 2 := by
  by_cases hneg : n < 0
  · rw [parseStrval, if_pos hneg] at h
    cases h
  · obtain ⟨len, rfl⟩ := Int.eq_ofNat_of_zero_le (not_lt.mp hneg)
    by_cases hshort : Short buf ptr len
    · rw [parseStrval_short hshort] at h
      cases h
      refine ⟨?_, hptr⟩
      by_contra hge
      exact not_short_of_large hbuf hptr (not_lt.mp hge) hn hshort
    · rcases parseStrval_cases buf ptr len slot hshort with
        ⟨hf, -⟩ | ⟨he, hin, -⟩ | ⟨payload, s, hp, hs, hok⟩
      · rw [hf] at h
        cases h
      · rw [he] at h
        cases h
        refine ⟨?_, hptr⟩
        change (len : ℤ) < 2147483646
        omega
      · rw [hok] at h
        cases h
        have hlen := congrArg List.length hs
        simp only [List.length_drop, List.length_append, crlf_length] at hlen
        refine ⟨by simp, ?_⟩
        change ptr + len + 2 ≤ buf.length + 2
        omega

/-- The cursor behind a line is at most two past the end. -/
theorem cursor_of_line {buf : Bytes} {ptr : ℕ} {mark : UInt8} {t : IntToken}
    (h : (∃ r, buf.drop ptr = mark :: t.text ++ r) ∨ buf.drop ptr = mark :: t.bare) :
    ptr + (1 + t.text.length) ≤ buf.length + 2 := by
  rcases h with ⟨s, hs⟩ | hs
  · have hlen := congrArg List.length hs
    simp only [List.length_drop, List.length_append, List.length_cons] at hlen
    omega
  · rw [end_of_cut_line hs]

theorem parseStr_small {buf : Bytes} {ptr : ℕ} {n : ℤ} {slot : Bytes} {r : StrParsed}
    (hbuf : buf.length < 2147483648) (hptr : ptr ≤ buf.length + 2) (hn : n < 2147483646)
    (h : parseStr n buf ptr slot = .ok r) :
    r.nParamLen < 2147483646 ∧ r.ptr ≤ buf.length + 2 := by
  by_cases hpend : n = -1
  · subst hpend
    rw [parseStr_eq] at h
    cases hscan : scanLine 36 (buf.drop ptr) with
    | wait =>
        rw [hscan] at h
        cases h
        exact ⟨hn, hptr⟩
    | error =>
        rw [hscan] at h
        cases h
        exact ⟨hn, hptr⟩
    | ok v m =>
        obtain ⟨t, rfl, rfl, -, hline⟩ := scanLine_ok hscan
        have hmax := wrap32_range t.value
        have hend := cursor_of_line hline
        simp only [hscan] at h
        split_ifs at h with hlt hnull
        · cases h
          refine ⟨?_, hend⟩
          change wrap32 t.value < 2147483646
          omega
        · cases h
          exact ⟨by simp, hend⟩
        · have hwide := text_length t
          exact parseStrval_small hbuf hend (by omega) (Or.inr (by omega)) h
  · rw [parseStr_pending hpend] at h
    exact parseStrval_small hbuf hptr (by omega) (Or.inl hn) h

theorem strlistLoop_small {buf : Bytes} (hbuf : buf.length < 2147483648) {k : ℕ}
    {self : YProtoParse} {ptr : ℕ} {res : Parsed} (hptr : ptr ≤ buf.length + 2)
    (hlen : self.nParamLen < 2147483646) (h : strlistLoop buf k self ptr = .ok res) :
    res.self.nParamLen < 2147483646 ∧ res.self.nMulti = self.nMulti := by
  induction k generalizing self ptr with
  | zero =>
      cases h
      exact ⟨hlen, rfl⟩
  | succ k ih =>
      have hmulti : self.growParams.nMulti = self.nMulti := by
        unfold YProtoParse.growParams
        split <;> rfl
      rw [strlistLoop] at h
      simp only [YProtoParse.growParams_nParamLen, bind, Except.bind] at h
      cases hr : parseStr self.nParamLen buf ptr
          (self.growParams.vecParams.getD self.growParams.nNumOfParam []) with
      | error f =>
          rw [hr] at h
          cases h
      | ok r =>
          obtain ⟨hsmall, hend⟩ := parseStr_small hbuf hptr hlen hr
          simp only [hr] at h
          split_ifs at h with hv
          · have hnext := ih hend hsmall h
            exact ⟨hnext.1, hnext.2.trans hmulti⟩
          · cases h
            exact ⟨hsmall, hmulti⟩

/-- Parser states that calls on a fresh parser lead to. -/
inductive Reachable : YProtoParse → Prop
  | fresh : Reachable {}
  | parseRequest {self : YProtoParse} {buf : Bytes} {ptr : ℕ} {res : Parsed} (h : Reachable self)
      (hbuf : buf.length < 2147483648) (hptr : ptr ≤ buf.length)
      (hres : self.parseRequest buf ptr = .ok res) : Reachable res.self
  | reset {self : YProtoParse} (h : Reachable self) : Reachable self.reset
  | setParams {self : YProtoParse} (h : Reachable self) (p : List Bytes) :
      Reachable (self.setParams p)

theorem settled_parseRequest {self : YProtoParse} {buf : Bytes} {ptr : ℕ} {res : Parsed}
    (h : Settled self) (hbuf : buf.length < 2147483648) (hptr : ptr ≤ buf.length)
    (hres : self.parseRequest buf ptr = .ok res) : Settled res.self := by
  by_cases hmulti : self.nMulti = -1
  · obtain ⟨hlen, hnum⟩ := h.fresh hmulti
    rw [parseRequest_eq hmulti] at hres
    cases hscan : scanLine 42 (buf.drop ptr) with
    | wait =>
        rw [hscan] at hres
        cases hres
        exact h
    | error =>
        rw [hscan] at hres
        cases hres
        exact h
    | ok count n =>
        obtain ⟨t, rfl, rfl, -, hline⟩ := scanLine_ok hscan
        have hend := cursor_of_line hline
        simp only [hscan] at hres
        split_ifs at hres with hlt
        · cases hres
          exact ⟨h.small, fun hm => absurd hm (by change wrap32 t.value ≠ -1; omega)⟩
        · rw [YProtoParse.parseStrlist] at hres
          obtain ⟨hsmall, hkeep⟩ := strlistLoop_small hbuf hend (show
            ({ self with nMulti := wrap32 t.value } : YProtoParse).nParamLen < _ from h.small) hres
          refine ⟨hsmall, fun hm => ?_⟩
          have hcount : wrap32 t.value = -1 := hkeep.symm.trans hm
          simp only [hcount, hnum] at hres
          cases hres
          exact ⟨hlen, rfl⟩
  · rw [parseRequest_resumed hmulti] at hres
    obtain ⟨hsmall, hkeep⟩ := strlistLoop_small hbuf (by omega) h.small hres
    exact ⟨hsmall, fun hm => absurd (hkeep.symm.trans hm) hmulti⟩

theorem Reachable.settled {self : YProtoParse} (h : Reachable self) : Settled self := by
  induction h with
  | fresh => exact ⟨by decide, fun _ => ⟨rfl, rfl⟩⟩
  | parseRequest h hbuf hptr hres ih => exact settled_parseRequest ih hbuf hptr hres
  | reset h ih => exact ⟨by simp [YProtoParse.reset], fun _ => ⟨rfl, rfl⟩⟩
  | setParams h p ih => exact ⟨ih.small, ih.fresh⟩

theorem reachesHuge_counted {self : YProtoParse} {buf : Bytes} {ptr : ℕ} (hmulti : self.nMulti = -1) :
    ReachesHuge self buf ptr ↔ ∃ (t : IntToken) (s : Bytes),
      buf.drop ptr = 42 :: t.text ++ s ∧ HugeAhead (wrap32 t.value).toNat s := by
  constructor
  · intro h
    cases h with
    | counted hm t s hs hahead => exact ⟨t, s, hs, hahead⟩
    | items hm hl hahead => exact absurd hmulti hm
    | pending hm payload s hl hs hahead => exact absurd hmulti hm
  · rintro ⟨t, s, hs, hahead⟩
    exact .counted hmulti t s hs hahead

theorem reachesHuge_items {self : YProtoParse} {buf : Bytes} {ptr : ℕ} (hmulti : self.nMulti ≠ -1)
    (hlen : self.nParamLen = -1) : ReachesHuge self buf ptr ↔
      HugeAhead (self.nMulti - self.nNumOfParam).toNat (buf.drop ptr) := by
  constructor
  · intro h
    cases h with
    | counted hm => exact absurd hm hmulti
    | items hm hl hahead => exact hahead
    | pending hm payload s hl hs hahead => omega
  · exact .items hmulti hlen

theorem reachesHuge_pending {self : YProtoParse} {buf : Bytes} {ptr : ℕ} (hmulti : self.nMulti ≠ -1)
    (hlen : self.nParamLen ≠ -1) : ReachesHuge self buf ptr ↔
      ∃ payload s : Bytes, self.nParamLen = payload.length ∧ buf.drop ptr = payload ++ crlf ++ s ∧
        HugeAhead ((self.nMulti - self.nNumOfParam).toNat - 1) s := by
  constructor
  · intro h
    cases h with
    | counted hm => exact absurd hm hmulti
    | items hm hl hahead => exact absurd hl hlen
    | pending hm payload s hl hs hahead => exact ⟨payload, s, hl, hs, hahead⟩
  · rintro ⟨payload, s, hl, hs, hahead⟩
    exact .pending hmulti payload s hl hs hahead

/-- A pending payload is read inside the range, and then the loop goes on as from a fresh item. -/
theorem strlistLoop_pending_fault_iff {self : YProtoParse} {buf : Bytes} {ptr k : ℕ}
    (hsmall : self.nParamLen < 2147483646) (hlen : self.nParamLen ≠ -1)
    (hbuf : buf.length < 2147483648) (hptr : ptr ≤ buf.length) :
    strlistLoop buf k self ptr = .error .outOfRange ↔
      ∃ payload s : Bytes, self.nParamLen = payload.length ∧ buf.drop ptr = payload ++ crlf ++ s ∧
        HugeAhead (k - 1) s := by
  cases k with
  | zero =>
      apply iff_of_false (by rw [strlistLoop]; simp)
      rintro ⟨payload, s, -, -, hahead⟩
      exact hugeAhead_zero s hahead
  | succ k =>
      rw [strlistLoop]
      simp only [YProtoParse.growParams_nParamLen, bind, Except.bind, Nat.add_sub_cancel]
      generalize self.growParams.vecParams.getD self.growParams.nNumOfParam [] = slot
      rw [parseStr_pending hlen]
      by_cases hneg : self.nParamLen < 0
      · rw [parseStrval, if_pos hneg]
        apply iff_of_false (by simp [throw, throwThe, MonadExceptOf.throw, bind, Except.bind])
        rintro ⟨payload, s, hl, -, -⟩
        omega
      · obtain ⟨len, hval⟩ := Int.eq_ofNat_of_zero_le (not_lt.mp hneg)
        rw [hval] at hsmall ⊢
        have hroom : ∀ payload s : Bytes, (len : ℤ) = payload.length →
            buf.drop ptr = payload ++ crlf ++ s → ptr + len + 2 ≤ buf.length := by
          intro payload s hl hs
          have hcount := congrArg List.length hs
          simp only [List.length_drop, List.length_append, crlf_length] at hcount
          omega
        have hguard := @short_iff buf ptr len hbuf (by omega) (by omega)
        by_cases hshort : Short buf ptr len
        · rw [parseStrval_short hshort]
          apply iff_of_false (by simp [pure, Except.pure])
          rintro ⟨payload, s, hl, hs, -⟩
          have := hroom payload s hl hs
          have := hguard.mp hshort
          omega
        · rcases parseStrval_cases buf ptr len slot hshort with
            ⟨-, hin⟩ | ⟨he, -, hnone⟩ | ⟨payload, s, hp, hs, hok⟩
          · exact absurd (hguard.mpr hin) hshort
          · rw [he]
            apply iff_of_false (by simp [pure, Except.pure])
            rintro ⟨payload, s, hl, hs, -⟩
            exact hnone [] payload s (by omega) (by rw [List.append_nil, hs])
          · have hat : buf.drop (ptr + len + 2) = s := by
              have hpre : (payload ++ crlf).length = len + 2 := by simp [hp]
              rw [Nat.add_assoc, ← hpre]
              exact drop_add_of_append hs
            rw [hok]
            simp only [if_true]
            rw [strlistLoop_fault_iff hbuf rfl, hat]
            constructor
            · exact fun hahead => ⟨payload, s, by omega, hs, hahead⟩
            · rintro ⟨payload', s', hl', hs', hahead⟩
              rw [hs, List.append_assoc, List.append_assoc] at hs'
              obtain ⟨-, hrest⟩ := List.append_inj hs' (by omega)
              rwa [List.append_cancel_left hrest]

/-- A count line with a huge length ahead is read as one. -/
theorem HugeAhead.scan {p s : Bytes} {t : IntToken} (hs : p = 42 :: t.text ++ s)
    (hahead : HugeAhead (wrap32 t.value).toNat s) :
    scanLine 42 p = .ok (wrap32 t.value) (1 + t.text.length) := by
  have hbare : 1 ≤ t.bare.length := by
    apply bare_length_of_wrap_ne
    intro hz
    rw [hz] at hahead
    exact hugeAhead_zero s hahead
  rw [hs, scanLine_text 42 t s (by rw [List.length_append, text_length]; omega)]

/-- Behind a count line the loop works on a fresh item, or on nothing where the line is cut off. -/
theorem strlistLoop_counted_fault_iff {self : YProtoParse} {buf : Bytes} {ptr : ℕ} {u : IntToken}
    (hbuf : buf.length < 2147483648) (hlen : self.nParamLen = -1)
    (hu : (∃ r, buf.drop ptr = 42 :: u.text ++ r) ∨ buf.drop ptr = 42 :: u.bare) :
    strlistLoop buf (wrap32 u.value).toNat self (ptr + (1 + u.text.length)) =
        .error .outOfRange ↔
      ∃ (t : IntToken) (s : Bytes), buf.drop ptr = 42 :: t.text ++ s ∧
        HugeAhead (wrap32 t.value).toNat s := by
  rw [strlistLoop_fault_iff hbuf hlen]
  rcases hu with ⟨r, hr⟩ | hcut
  · rw [drop_line hr]
    constructor
    · exact fun hahead => ⟨u, r, hr, hahead⟩
    · rintro ⟨t, s, hs, hahead⟩
      rw [hr, List.cons_append, List.cons_append, List.cons.injEq] at hs
      obtain ⟨rfl, rfl⟩ := text_append_inj hs.2
      exact hahead
  · rw [end_of_cut_line hcut, List.drop_of_length_le (by omega)]
    apply iff_of_false (hugeAhead_nil _)
    rintro ⟨t, s, hs, -⟩
    rw [hcut, List.cons_append, List.cons.injEq] at hs
    exact bare_ne_text_append u t s hs.2

/-- A parser that has not seen a count reads outside its range exactly when a huge length lies
behind a count line. -/
theorem parseRequest_count_fault_iff {self : YProtoParse} {buf : Bytes} {ptr : ℕ}
    (hbuf : buf.length < 2147483648) (hmulti : self.nMulti = -1) (hlen : self.nParamLen = -1)
    (hnum : self.nNumOfParam = 0) : self.parseRequest buf ptr = .error .outOfRange ↔
      ∃ (t : IntToken) (s : Bytes), buf.drop ptr = 42 :: t.text ++ s ∧
        HugeAhead (wrap32 t.value).toNat s := by
  rw [parseRequest_eq hmulti]
  cases hscan : scanLine 42 (buf.drop ptr) with
  | wait =>
      apply iff_of_false (by simp)
      rintro ⟨t, s, hs, hahead⟩
      rw [hahead.scan hs] at hscan
      cases hscan
  | error =>
      apply iff_of_false (by simp)
      rintro ⟨t, s, hs, hahead⟩
      rw [hahead.scan hs] at hscan
      cases hscan
  | ok count n =>
      obtain ⟨u, rfl, rfl, -, hu⟩ := scanLine_ok hscan
      by_cases hlt : wrap32 u.value < -1
      · simp only [if_pos hlt]
        apply iff_of_false (by simp)
        rintro ⟨t, s, hs, hahead⟩
        have hsame := (hahead.scan hs).symm.trans hscan
        rw [IntRead.ok.injEq] at hsame
        rw [hsame.1, show (wrap32 u.value).toNat = 0 by omega] at hahead
        exact hugeAhead_zero s hahead
      · simp only [if_neg hlt, YProtoParse.parseStrlist, hnum]
        rw [show wrap32 u.value - ((0 : ℕ) : ℤ) = wrap32 u.value by omega]
        exact strlistLoop_counted_fault_iff hbuf hlen hu

/-- From every reachable state the parser stays inside its range exactly when it reaches no length
line with one of the two largest values. -/
theorem parser_reads_inside {self : YProtoParse} (h : Reachable self) {buf : Bytes} {ptr : ℕ}
    (hbuf : buf.length < 2147483648) (hptr : ptr ≤ buf.length) :
    self.parseRequest buf ptr ≠ .error .outOfRange ↔ ¬ ReachesHuge self buf ptr := by
  rw [not_iff_not]
  have hsettled := h.settled
  by_cases hmulti : self.nMulti = -1
  · obtain ⟨hlen, hnum⟩ := hsettled.fresh hmulti
    rw [reachesHuge_counted hmulti, parseRequest_count_fault_iff hbuf hmulti hlen hnum]
  · rw [parseRequest_resumed hmulti, YProtoParse.parseStrlist]
    by_cases hlen : self.nParamLen = -1
    · rw [reachesHuge_items hmulti hlen, strlistLoop_fault_iff hbuf hlen]
    · rw [reachesHuge_pending hmulti hlen,
        strlistLoop_pending_fault_iff hsettled.small hlen hbuf hptr]

theorem parser_reads_inside_ping : ¬ ReachesHuge {} (ascii "*1\r\n$4\r\nPING\r\n") 0 :=
  (parser_reads_inside .fresh (by decide) (by decide)).mp (by decide)

/-- Seventeen bytes of a client take the first read behind the payload two gigabytes out of range. -/
theorem parser_reads_outside :
    ({} : YProtoParse).parseRequest (ascii "*1\r\n$2147483647\r\n") 0 = .error .outOfRange := by
  decide

end Yedis
