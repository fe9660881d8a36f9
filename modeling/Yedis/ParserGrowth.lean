import Yedis.ResetParser

/-!
# What a declared count can cost

The loop of `parseStrlist` runs up to a count that the client declares. Every item that it completes
takes four bytes at least, so that the bytes of the range bound its rounds and what they leave in
`m_vecParams`. The rounds are counted by a copy of the loop that gives the same answers.
-/

namespace Yedis

/-- `strlistLoop` with the number of its rounds. -/
def strlistCounted (buf : Bytes) : ℕ → YProtoParse → ℕ → Except ParseFault Parsed × ℕ
  | 0, self, ptr => (strlistLoop buf 0 self ptr, 0)
  | rounds + 1, self, ptr =>
    let grown := self.growParams
    match parseStr grown.nParamLen buf ptr (grown.vecParams.getD grown.nNumOfParam []) with
    | .error fault => (.error fault, 1)
    | .ok r =>
      let stored := grown.storeParam r
      if r.verdict = .ok then
        let (answer, count) :=
          strlistCounted buf rounds { stored with nNumOfParam := stored.nNumOfParam + 1 } r.ptr
        (answer, count + 1)
      else
        (.ok ⟨r.verdict, r.ptr, stored⟩, 1)

namespace YProtoParse

def parseStrlistCounted (self : YProtoParse) (buf : Bytes) (ptr : ℕ) :
    Except ParseFault Parsed × ℕ :=
  strlistCounted buf (self.nMulti - self.nNumOfParam).toNat self ptr

/-- `parseRequest` with the number of rounds of its loop. -/
def parseRequestCounted (self : YProtoParse) (buf : Bytes) (ptr : ℕ) :
    Except ParseFault Parsed × ℕ :=
  if self.nMulti = -1 then
    match parseMulti buf ptr with
    | .error fault => (.error fault, 0)
    | .ok (.error, ptr) => (.ok ⟨.error, ptr, self⟩, 0)
    | .ok (.wait, ptr) => (.ok ⟨.wait, ptr, self⟩, 0)
    | .ok (.ok count ptr, _) =>
      let self := { self with nMulti := count }
      if count < -1 then (.ok ⟨.error, ptr, self⟩, 0) else self.parseStrlistCounted buf ptr
  else
    self.parseStrlistCounted buf ptr

end YProtoParse

theorem strlistCounted_fst (buf : Bytes) (rounds : ℕ) (self : YProtoParse) (ptr : ℕ) :
    (strlistCounted buf rounds self ptr).1 = strlistLoop buf rounds self ptr := by
  induction rounds generalizing self ptr with
  | zero => rfl
  | succ rounds ih =>
      rw [strlistCounted, strlistLoop]
      simp only [bind, Except.bind]
      cases parseStr self.growParams.nParamLen buf ptr
          (self.growParams.vecParams.getD self.growParams.nNumOfParam []) with
      | error fault => rfl
      | ok r =>
          simp only
          split_ifs
          · exact ih _ _
          · rfl

theorem parseRequestCounted_fst (self : YProtoParse) (buf : Bytes) (ptr : ℕ) :
    (self.parseRequestCounted buf ptr).1 = self.parseRequest buf ptr := by
  unfold YProtoParse.parseRequestCounted YProtoParse.parseRequest
  by_cases hmulti : self.nMulti = -1
  · rw [if_pos hmulti, if_pos hmulti, parseMulti_eq]
    simp only [bind, Except.bind]
    cases (scanLine 42 (buf.drop ptr)).shift ptr with
    | wait => rfl
    | error => rfl
    | ok count ptr =>
        simp only
        split_ifs
        · rfl
        · exact strlistCounted_fst _ _ _ _
  · rw [if_neg hmulti, if_neg hmulti]
    exact strlistCounted_fst _ _ _ _

/-- A completed item has moved the cursor by four bytes of the range at least, and its payload lies
in the range. -/
theorem parseStr_advances {buf slot : Bytes} {ptr : ℕ} {r : StrParsed}
    (h : parseStr (-1) buf ptr slot = .ok r) (hv : r.verdict = .ok) :
    r.nParamLen = -1 ∧ buf.length - r.ptr + 4 ≤ buf.length - ptr ∧
      r.result.length ≤ buf.length - ptr := by
  rcases parseStr_ok_inv h hv with ⟨i, s, hs, -, rfl⟩ | ⟨t, hs, h3, -, rfl⟩
  · have hlen := congrArg List.length hs
    rw [List.length_drop, List.length_append] at hlen
    have hitem : 4 ≤ i.text.length ∧ i.payload.length ≤ i.text.length := by
      rw [Item.text_length]
      cases i with
      | null t ht =>
          have hbare := bare_length_of_wrap_ne (t := t) (by omega)
          simp only [Item.len, Item.payload, IntToken.text_length, List.length_nil]
          omega
      | bulk t payload ht =>
          simp only [Item.len, Item.payload, Item.body, IntToken.text_length, List.length_append,
            crlf_length]
          omega
    refine ⟨rfl, ?_, ?_⟩
    · change buf.length - (ptr + i.text.length) + 4 ≤ buf.length - ptr
      omega
    · change i.payload.length ≤ buf.length - ptr
      omega
  · have hlen := congrArg List.length hs
    rw [List.length_drop, List.length_cons] at hlen
    refine ⟨rfl, ?_, Nat.zero_le _⟩
    change buf.length - (buf.length + 2) + 4 ≤ buf.length - ptr
    omega

theorem result_of_stopped {n : ℤ} {buf slot : Bytes} {ptr : ℕ} {r : StrParsed}
    (h : parseStr n buf ptr slot = .ok r) (hv : r.verdict ≠ .ok) : r.result = slot := by
  have hsame := parseStr_slot n buf ptr slot slot
  rw [h, Except.map, if_neg hv] at hsame
  injection hsame with hsame
  rw [hsame]

/-- The bytes that are left bound the rounds. -/
theorem strlistCounted_le {buf : Bytes} {rounds : ℕ} {self : YProtoParse} {ptr : ℕ}
    (hlen : self.nParamLen = -1) :
    (strlistCounted buf rounds self ptr).2 ≤ (buf.length - ptr) / 4 + 1 := by
  induction rounds generalizing self ptr with
  | zero => exact Nat.zero_le _
  | succ rounds ih =>
      rw [strlistCounted]
      simp only [YProtoParse.growParams_nParamLen, hlen]
      cases hr : parseStr (-1) buf ptr
          (self.growParams.vecParams.getD self.growParams.nNumOfParam []) with
      | error fault => exact Nat.le_add_left _ _
      | ok r =>
          simp only
          split_ifs with hv
          · obtain ⟨hdone, hmoved, -⟩ := parseStr_advances hr hv
            refine (Nat.succ_le_succ (ih hdone)).trans ?_
            omega
          · exact Nat.le_add_left _ _

theorem putParam_last (vec : List Bytes) (v : Bytes) : putParam vec vec.length v = vec ++ [v] := by
  rw [putParam, List.take_length, List.drop_of_length_le (Nat.le_succ _)]

/-- What the loop adds to the vector, with the bytes that are left as bounds. -/
theorem strlistLoop_growth {buf : Bytes} {rounds : ℕ} {self : YProtoParse} {ptr : ℕ} {res : Parsed}
    (hlen : self.nParamLen = -1) (hnum : self.nNumOfParam = self.vecParams.length)
    (h : strlistLoop buf rounds self ptr = .ok res) :
    ∃ added, res.self.vecParams = self.vecParams ++ added ∧
      added.length ≤ (buf.length - ptr) / 4 + 1 ∧ ∀ p ∈ added, p.length ≤ buf.length - ptr := by
  induction rounds generalizing self ptr with
  | zero =>
      rw [strlistLoop] at h
      cases h
      refine ⟨[], ?_, Nat.zero_le _, by simp⟩
      change resize self.vecParams self.nNumOfParam = _
      rw [hnum, resize_of_le le_rfl, List.take_length, List.append_nil]
  | succ rounds ih =>
      rw [strlistLoop_succ buf rounds self ptr hnum.le, hlen] at h
      cases hr : parseStr (-1) buf ptr (self.vecParams.getD self.nNumOfParam []) with
      | error fault =>
          rw [hr] at h
          cases h
      | ok r =>
          have hvec : (self.withParam r).vecParams = self.vecParams ++ [r.result] := by
            rw [YProtoParse.withParam, hnum, putParam_last]
          simp only [hr] at h
          split_ifs at h with hv
          · obtain ⟨hdone, hmoved, hresult⟩ := parseStr_advances hr hv
            have hnext : self.nNumOfParam + 1 = (self.withParam r).vecParams.length := by
              rw [hvec, List.length_append, hnum]
              rfl
            obtain ⟨added, hadded, hcount, hsizes⟩ :=
              @ih { self.withParam r with nNumOfParam := self.nNumOfParam + 1 } r.ptr hdone hnext h
            refine ⟨r.result :: added, ?_, ?_, List.forall_mem_cons.mpr ⟨hresult, fun p hp => ?_⟩⟩
            · rw [hadded]
              change (self.withParam r).vecParams ++ added = _
              rw [hvec, List.append_assoc]
              rfl
            · rw [List.length_cons]
              omega
            · have hsize := hsizes p hp
              omega
          · cases h
            have hempty : r.result = [] := by
              rw [result_of_stopped hr hv, hnum, List.getD_eq_getElem?_getD,
                List.getElem?_eq_none le_rfl]
              rfl
            refine ⟨[r.result], hvec, Nat.le_add_left _ _, ?_⟩
            intro p hp
            rw [List.mem_singleton.mp hp, hempty]
            exact Nat.zero_le _

theorem parseRequestCounted_le (buf : Bytes) (ptr : ℕ) :
    (({} : YProtoParse).parseRequestCounted buf ptr).2 ≤ (buf.length - ptr) / 4 + 1 := by
  rw [YProtoParse.parseRequestCounted, if_pos rfl, parseMulti_eq]
  cases scanLine 42 (buf.drop ptr) with
  | wait => exact Nat.zero_le _
  | error => exact Nat.zero_le _
  | ok count n =>
      simp only [IntRead.shift]
      split_ifs
      · exact Nat.zero_le _
      · refine (strlistCounted_le rfl).trans ?_
        omega

theorem parseRequest_growth {buf : Bytes} {ptr : ℕ} {res : Parsed}
    (hres : ({} : YProtoParse).parseRequest buf ptr = .ok res) :
    res.self.vecParams.length ≤ (buf.length - ptr) / 4 + 1 ∧
      ∀ p ∈ res.self.vecParams, p.length ≤ buf.length - ptr := by
  rw [parseRequest_eq rfl] at hres
  cases hscan : scanLine 42 (buf.drop ptr) with
  | wait =>
      rw [hscan] at hres
      cases hres
      exact ⟨Nat.zero_le _, by simp⟩
  | error =>
      rw [hscan] at hres
      cases hres
      exact ⟨Nat.zero_le _, by simp⟩
  | ok count n =>
      simp only [hscan] at hres
      split_ifs at hres with hlow
      · cases hres
        exact ⟨Nat.zero_le _, by simp⟩
      · obtain ⟨added, hadded, hcount, hsizes⟩ := strlistLoop_growth rfl rfl hres
        change res.self.vecParams = [] ++ added at hadded
        rw [List.nil_append] at hadded
        rw [hadded]
        refine ⟨hcount.trans (by omega), fun p hp => ?_⟩
        have hsize := hsizes p hp
        omega

/-- Whatever a client declares, the bytes of the range bound the rounds of the loop and what they
leave in the vector. -/
theorem parser_growth_bounded (buf : Bytes) (ptr : ℕ) :
    (({} : YProtoParse).parseRequestCounted buf ptr).1 = ({} : YProtoParse).parseRequest buf ptr ∧
    (({} : YProtoParse).parseRequestCounted buf ptr).2 ≤ (buf.length - ptr) / 4 + 1 ∧
    ∀ res, ({} : YProtoParse).parseRequest buf ptr = .ok res →
      res.self.vecParams.length ≤ (buf.length - ptr) / 4 + 1 ∧
      ∀ p ∈ res.self.vecParams, p.length ≤ buf.length - ptr := by
  refine ⟨parseRequestCounted_fst _ _ _, parseRequestCounted_le buf ptr, fun res hres => ?_⟩
  exact parseRequest_growth hres

/-- A count of 300 over one item. -/
theorem parser_growth_bounded_item :
    (({} : YProtoParse).parseRequestCounted (ascii "*300\r\n$4\r\nquit\r\n") 0).2 ≤ 5 ∧
      ∃ res, ({} : YProtoParse).parseRequest (ascii "*300\r\n$4\r\nquit\r\n") 0 = .ok res ∧
        res.verdict = .wait ∧ res.self.vecParams.length ≤ 5 := by
  obtain ⟨-, hrounds, hsizes⟩ := parser_growth_bounded (ascii "*300\r\n$4\r\nquit\r\n") 0
  have hparsed : ({} : YProtoParse).parseRequest (ascii "*300\r\n$4\r\nquit\r\n") 0 =
      .ok ⟨.wait, 16, { nMulti := 300, nNumOfParam := 1, vecParams := [ascii "quit", []] }⟩ := by
    decide
  exact ⟨hrounds, _, hparsed, rfl, (hsizes _ hparsed).1⟩

end Yedis
