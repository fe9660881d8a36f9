import Yedis.ParserResume

/-!
# Cuts that the parser does not survive

Behind every cut that is not clean some continuation gets another verdict from the
resumed parser than from a fresh one: two zero bytes, one byte, or nothing. With
`resume_eq` this gives the exact set of cuts after which incremental parsing agrees
with parsing all at once, and by induction over the calls it agrees after any
number of clean cuts.
-/

namespace Yedis
open IntToken

/-- A parser with items to come, whose pending length its guard can handle. -/
structure Awaiting (y : YProtoParse) : Prop where
  more : y.nNumOfParam < y.nMulti
  slots : y.nNumOfParam ≤ y.vecParams.length
  pending : y.nParamLen = -1 ∨ 0 ≤ y.nParamLen ∧ y.nParamLen < 2147483646

theorem Awaiting.wait_at_end {self : YProtoParse} (h : Awaiting self) (buf : Bytes)
    (hbuf : buf.length < 2147483648) :
    ∃ r, self.parseRequest buf buf.length = .ok r ∧ r.verdict = .wait := by
  have hmore := h.more
  obtain ⟨k, hk⟩ : ∃ k, (self.nMulti - self.nNumOfParam).toNat = k + 1 :=
    ⟨(self.nMulti - self.nNumOfParam).toNat - 1, by omega⟩
  rw [parseRequest_resumed (by omega), YProtoParse.parseStrlist, hk]
  rcases h.pending with hnone | ⟨hnonneg, hlt⟩
  · exact ⟨_, strlistLoop_past_end hnone h.slots (le_refl _), rfl⟩
  · obtain ⟨len, hlen⟩ := Int.eq_ofNat_of_zero_le hnonneg
    have hshort : Short buf buf.length len :=
      (short_iff hbuf (by omega) (by omega)).mpr (by omega)
    rw [strlistLoop_succ _ _ _ _ h.slots, hlen, parseStr_pending (by omega),
      parseStrval_short hshort]
    exact ⟨_, rfl, rfl⟩

theorem scanToken_bare_zeros {t : IntToken} (h : 1 ≤ t.bare.length) :
    scanToken (t.bare ++ [0, 0]) = .error := by
  obtain ⟨-, hr⟩ := lead_bare_append t [0, 0] (by simp; decide)
  rw [scanToken, if_neg (by rw [List.length_append]; simp; omega), hr]
  rfl

theorem scanLine_bare_zeros (mark : UInt8) {t : IntToken} (h : 1 ≤ t.bare.length) :
    scanLine mark (mark :: t.bare ++ [0, 0]) = .error := by
  rw [List.cons_append, scanLine, if_neg (by rw [List.length_append]; simp), if_neg (by simp),
    scanToken_bare_zeros h]
  rfl

theorem parseStrval_past_end {buf slot : Bytes} {len : ℕ} {r : StrParsed}
    (h : parseStrval len buf (buf.length + 2) slot = .ok r) : r.verdict ≠ .ok := by
  intro hok
  obtain ⟨payload, s, -, hs, -⟩ := parseStrval_ok_inv h hok
  rw [List.drop_of_length_le (by omega)] at hs
  simp [crlf] at hs

/-- At a length that the end of the range cuts off, the loop waits with its cursor past the end. -/
theorem strlistLoop_cut_length {buf : Bytes} {self : YProtoParse} {ptr k : ℕ} {t : IntToken}
    {res : Parsed} (hbuf : buf.length < 2147483648) (hat : buf.drop ptr = 36 :: t.bare)
    (h3 : 3 ≤ t.bare.length) (hlen : self.nParamLen = -1)
    (hslots : self.nNumOfParam ≤ self.vecParams.length)
    (hmore : self.nMulti = self.nNumOfParam + (k + 1))
    (hres : strlistLoop buf (k + 1) self ptr = .ok res) (hwait : res.verdict = .wait) :
    Awaiting res.self ∧ res.ptr = buf.length + 2 := by
  have hend := end_of_cut_line hat
  have hstr := parseStr_eq buf ptr (self.vecParams.getD self.nNumOfParam [])
  rw [hat, scanLine_bare 36 t h3] at hstr
  simp only [hend] at hstr
  split_ifs at hstr with hlt hnull
  · rw [strlistLoop_succ _ _ _ _ hslots, hlen, hstr] at hres
    cases hres
    cases hwait
  · rw [strlistLoop_round k hslots (by rw [hlen]; exact hstr)] at hres
    cases k with
    | zero =>
        cases hres
        cases hwait
    | succ k =>
        rw [strlistLoop_past_end rfl (self.withItems_bound _ hslots) (by omega)] at hres
        cases hres
        refine ⟨⟨?_, YProtoParse.withParam_bound _ _ (self.withItems_bound _ hslots), Or.inl rfl⟩,
          rfl⟩
        change ((self.nNumOfParam + 1 : ℕ) : ℤ) < self.nMulti
        omega
  · obtain ⟨len, hv⟩ : ∃ len : ℕ, wrap32 t.value = len := ⟨(wrap32 t.value).toNat, by omega⟩
    rw [hv] at hstr
    rw [strlistLoop_succ _ _ _ _ hslots, hlen, hstr] at hres
    cases hval : parseStrval len buf (buf.length + 2) (self.vecParams.getD self.nNumOfParam []) with
    | error f =>
        rw [hval] at hres
        cases hres
    | ok r =>
        simp only [hval] at hres
        rw [if_neg (parseStrval_past_end hval)] at hres
        cases hres
        obtain ⟨hshort, rfl⟩ := parseStrval_wait_inv hval hwait
        have hmax := wrap32_range t.value
        have hsmall : (len : ℤ) < 2147483646 := by
          by_contra hge
          exact not_short_of_large hbuf (le_refl _) (by omega) (by omega) hshort
        refine ⟨⟨?_, self.withParam_bound _ hslots, Or.inr ⟨?_, hsmall⟩⟩, rfl⟩
        · change (self.nNumOfParam : ℤ) < self.nMulti
          omega
        · exact Int.natCast_nonneg len

/-- A length cut behind its digits: the parser that waited has its cursor past the end. -/
theorem lengthCut_awaiting {p : Bytes} {res : Parsed} (hcut : LengthCut p)
    (hbuf : p.length < 2147483648) (hres : ({} : YProtoParse).parseRequest p 0 = .ok res)
    (hwait : res.verdict = .wait) : Awaiting res.self ∧ res.ptr = p.length + 2 := by
  obtain ⟨h, t, is, hp, h3, hmore⟩ := hcut
  obtain ⟨k, hk⟩ : ∃ k, (wrap32 h.value).toNat = is.length + (k + 1) :=
    ⟨(wrap32 h.value).toNat - is.length - 1, by omega⟩
  have hdrop : p.drop (1 + h.text.length) = itemsText is ++ 36 :: t.bare := drop_count_line hp
  rw [parseRequest_counted hp (by simp; omega) (by omega), hk,
    strlistLoop_items hbuf is (k + 1) _ _ hdrop rfl (Nat.zero_le _)] at hres
  have hslots := (YProtoParse.counted (wrap32 h.value)).withItems_bound (payloads is)
    (Nat.zero_le _)
  refine strlistLoop_cut_length hbuf (drop_add_of_append hdrop) h3 rfl hslots ?_ hres hwait
  simp only [YProtoParse.withItems, YProtoParse.counted, payloads_length]
  omega

/-- Behind a length cut, two zero bytes make a fresh parser answer `error`. -/
theorem lengthCut_zeros {p : Bytes} (hcut : LengthCut p) (hbuf : p.length + 2 < 2147483648) :
    ∃ r, ({} : YProtoParse).parseRequest (p ++ [0, 0]) 0 = .ok r ∧ r.verdict = .error := by
  obtain ⟨h, t, is, hp, h3, hmore⟩ := hcut
  obtain ⟨k, hk⟩ : ∃ k, (wrap32 h.value).toNat = is.length + (k + 1) :=
    ⟨(wrap32 h.value).toNat - is.length - 1, by omega⟩
  have hp0 : p ++ [0, 0] = 42 :: h.text ++ (itemsText is ++ (36 :: t.bare ++ [0, 0])) := by
    rw [hp]
    simp only [List.append_assoc]
  have hdrop : (p ++ [0, 0]).drop (1 + h.text.length) =
      itemsText is ++ (36 :: t.bare ++ [0, 0]) :=
    drop_count_line hp0
  have hat : (p ++ [0, 0]).drop (1 + h.text.length + (itemsText is).length) =
      36 :: t.bare ++ [0, 0] :=
    drop_add_of_append hdrop
  have hslots := (YProtoParse.counted (wrap32 h.value)).withItems_bound (payloads is)
    (Nat.zero_le _)
  have hlen : ((YProtoParse.counted (wrap32 h.value)).withItems (payloads is)).nParamLen = -1 := rfl
  rw [parseRequest_counted hp0 (by simp; omega) (by omega), hk,
    strlistLoop_items (by simpa using hbuf) is (k + 1) _ _ hdrop rfl (Nat.zero_le _),
    strlistLoop_succ _ _ _ _ hslots, hlen, parseStr_eq, hat, scanLine_bare_zeros _ (by omega)]
  exact ⟨_, rfl, rfl⟩

/-- A digit or a sign is no `'*'`, and neither is a carriage return. -/
theorem bare_head_ne {t : IntToken} {r s : Bytes} {c : UInt8} (hr : r.head? ≠ some 42)
    (h : t.bare ++ r = c :: s) : c ≠ 42 := by
  rintro rfl
  rcases t with ⟨sg, ds, hds⟩
  cases sg with
  | some b => cases b <;> simp [bare, signText] at h
  | none =>
      cases ds with
      | nil =>
          simp only [bare, signText, List.append_nil, List.nil_append] at h
          rw [h] at hr
          simp at hr
      | cons d ds =>
          simp only [bare, signText, List.nil_append, List.cons_append, List.cons.injEq] at h
          have hd := hds d (by simp)
          rw [h.1] at hd
          exact absurd hd (by decide)

/-- Resumed behind the `'*'`, the parser meets a byte that is no `'*'`. -/
theorem restart_error {c : UInt8} {r : Bytes} (hc : c ≠ 42) (hr : 2 ≤ r.length) :
    ∃ res, ({} : YProtoParse).parseRequest (42 :: c :: r) 1 = .ok res ∧ res.verdict = .error := by
  have hscan : scanLine 42 ((42 :: c :: r).drop 1) = .error := by
    rw [List.drop_one, List.tail_cons, scanLine, if_neg (by omega), if_pos hc]
  rw [parseRequest_eq rfl, hscan]
  exact ⟨_, rfl, rfl⟩

theorem value_of_single {t : IntToken} (h : t.bare.length = 1) :
    0 ≤ t.value ∧ t.value < 2147483648 := by
  rcases t with ⟨sg, ds, hds⟩
  cases sg with
  | some b =>
      have hnil : ds = [] := by
        cases b <;> simpa [bare, signText] using h
      subst hnil
      simp [value]
  | none =>
      obtain ⟨d, rfl⟩ : ∃ d, ds = [d] := by
        simpa [bare, signText, List.length_eq_one_iff] using h
      have hd := (isDigit_iff d).mp (hds d (by simp))
      simp only [value, reduceCtorEq, if_false, numeral, List.foldl_cons, List.foldl_nil,
        digitVal_of_isDigit (hds d (by simp))]
      omega

/-- A complete count line and nothing behind it never make a fresh parser answer `error`. -/
theorem single_count_no_error {t : IntToken} (h : t.bare.length = 1) :
    ∃ res, ({} : YProtoParse).parseRequest (42 :: t.text) 0 = .ok res ∧ res.verdict ≠ .error := by
  have hval := value_of_single h
  have hwrap := wrap32_of_range (x := t.value) (by omega) (by omega)
  have hb : 42 :: t.text = 42 :: t.text ++ [] := (List.append_nil _).symm
  rw [parseRequest_counted hb (by simp [text_length, h]) (by omega)]
  cases (wrap32 t.value).toNat with
  | zero => exact ⟨_, rfl, by simp⟩
  | succ k =>
      rw [strlistLoop_past_end rfl (Nat.zero_le _) (by simp [Nat.add_comm])]
      exact ⟨_, rfl, by simp⟩

theorem parseRequest_count_wait {s : Bytes} (h2 : 2 ≤ s.length) (h : scanToken s = .wait) :
    ({} : YProtoParse).parseRequest (42 :: s) 0 = .ok ⟨.wait, 1, {}⟩ := by
  have hscan : scanLine 42 (42 :: s) = .wait := by
    rw [scanLine, if_neg (by omega), if_neg (by simp), h]
    rfl
  have hcursor : multiCursor (42 :: s) 0 = 1 := by
    simp only [multiCursor, hscan]
    rw [if_pos ⟨by rw [List.length_cons]; omega, rfl⟩]
  rw [parseRequest_eq rfl, List.drop_zero, hscan, hcursor]

/-- With some continuation the parser that waited on `p` answers otherwise than a fresh one. -/
def Differs (p : Bytes) (res : Parsed) : Prop :=
  ∃ q : Bytes, (p ++ q).length < 2147483648 ∧ ¬ SameAnswer
    (res.self.parseRequest (p ++ q) res.ptr) (({} : YProtoParse).parseRequest (p ++ q) 0)

/-- The second `'*'` is taken for the first. -/
theorem starPair_differs (y : UInt8) : Differs [42, 42, y] ⟨.wait, 1, {}⟩ := by
  have hresumed : ({} : YProtoParse).parseRequest [42, 42, y, 0] 1 = .ok ⟨.wait, 2, {}⟩ := by
    rw [parseRequest_eq rfl]
    simp [scanLine, scanToken, multiCursor, IntRead.shift]
  have hfresh : ({} : YProtoParse).parseRequest [42, 42, y, 0] 0 = .ok ⟨.error, 1, {}⟩ := by
    rw [parseRequest_eq rfl]
    simp [scanLine, scanToken, multiCursor, IntRead.shift, rest, takeSign, IntRead.ofRest,
      isDigit]
  exact ⟨[0], by simp, not_sameAnswer hresumed hfresh (by simp)⟩

theorem starCrlf_differs : Differs [42, 13, 10] ⟨.wait, 1, {}⟩ := by
  obtain ⟨r, hresumed, hv⟩ := restart_error (c := 13) (r := [10, 0]) (by decide) (by simp)
  have hfresh : ({} : YProtoParse).parseRequest [42, 13, 10, 0] 0 =
      .ok ⟨.ok, 3, .counted 0⟩ := by decide
  exact ⟨[0], by simp, not_sameAnswer hresumed hfresh (by simp [hv])⟩

/-- Two bytes of a count are too few for either parser, but a third is not for the resumed one. -/
theorem barePair_differs {t : IntToken} (h2 : t.bare.length = 2) :
    Differs (42 :: t.bare) ⟨.wait, 1, {}⟩ := by
  obtain ⟨c, d, hcd⟩ := List.length_eq_two.mp h2
  have hc : c ≠ 42 := bare_head_ne (t := t) (r := []) (s := [d]) (by simp) (by simp [hcd])
  have hfresh := parseRequest_count_wait (s := t.bare ++ [13]) (by simp; omega)
    (scanToken_bare_cr t)
  obtain ⟨r, hresumed, hv⟩ := restart_error (r := [d, 13]) hc (by simp)
  rw [hcd] at hfresh ⊢
  exact ⟨[13], by simp, not_sameAnswer hresumed hfresh (by simp [hv])⟩

/-- A count taken for complete at the end of the range leaves the cursor past the end. -/
theorem bareCount_differs {t : IntToken} {res : Parsed} (h3 : 3 ≤ t.bare.length)
    (hbuf : (42 :: t.bare).length + 2 < 2147483648)
    (hres : ({} : YProtoParse).parseRequest (42 :: t.bare) 0 = .ok res)
    (hwait : res.verdict = .wait) : Differs (42 :: t.bare) res := by
  have hscan := scanLine_bare 42 t h3
  cases parseRequest_fresh hres with
  | noCount hno =>
      rw [hscan] at hno
      cases hno
  | badCount hbad => cases hwait
  | lowCount h hcount hb => cases hwait
  | cutDone h hb ht3 hcount hk => cases hwait
  | counted h r res hb ht3 hcount hloop =>
      rw [List.cons_append, List.cons.injEq] at hb
      exact absurd hb.2 (bare_ne_text_append t h r)
  | cutWait h hb ht3 hk =>
      have hawait : Awaiting ((YProtoParse.counted (wrap32 h.value)).withParam
          ⟨.wait, (42 :: t.bare).length + 2, -1, []⟩) :=
        ⟨by simpa [YProtoParse.withParam, YProtoParse.counted] using hk,
          YProtoParse.withParam_bound _ _ (Nat.zero_le _), Or.inl rfl⟩
      obtain ⟨r, hresumed, hv⟩ := hawait.wait_at_end (42 :: t.bare ++ [0, 0])
        (by rw [List.length_append]; simpa using hbuf)
      have hfresh := @parseRequest_eq {} rfl (42 :: t.bare ++ [0, 0]) 0
      rw [List.drop_zero, scanLine_bare_zeros 42 (t := t) (by omega)] at hfresh
      refine ⟨[0, 0], by rw [List.length_append]; simpa using hbuf, ?_⟩
      refine not_sameAnswer (r := r) ?_ hfresh (by simp [hv])
      rw [← hresumed, List.length_append]
      rfl

/-- Between the CR and the LF of the count line the parser starts over on the count. -/
theorem countCr_differs {t : IntToken} (h1 : 1 ≤ t.bare.length)
    (hbuf : (42 :: t.bare ++ [13]).length + 2 < 2147483648) :
    Differs (42 :: t.bare ++ [13]) ⟨.wait, 1, {}⟩ := by
  obtain ⟨c, s, hcs⟩ := List.exists_cons_of_length_pos h1
  have hc : c ≠ 42 := bare_head_ne (t := t) (r := []) (s := s) (by simp) (by simp [hcs])
  by_cases hone : t.bare.length = 1
  · obtain rfl : s = [] := by simpa [hcs] using hone
    obtain ⟨r, hresumed, hv⟩ := restart_error (r := [13, 10]) hc (by simp)
    obtain ⟨r', hfresh, hv'⟩ := single_count_no_error hone
    rw [text, hcs] at hfresh
    refine ⟨[10], by simp [hcs], ?_⟩
    rw [hcs]
    exact not_sameAnswer hresumed hfresh (by rw [hv]; exact hv'.symm)
  · have hs : 1 ≤ s.length := by
      rw [hcs, List.length_cons] at hone
      omega
    obtain ⟨r, hresumed, hv⟩ := restart_error (r := s ++ [13]) hc (by simp; omega)
    have hfresh := parseRequest_count_wait (s := t.bare ++ [13]) (by simp; omega)
      (scanToken_bare_cr t)
    refine ⟨[], by rw [List.append_nil]; omega, ?_⟩
    rw [hcs] at hfresh ⊢
    simp only [List.cons_append, List.append_nil] at hfresh ⊢
    exact not_sameAnswer hresumed hfresh (by simp [hv])

/-- Behind a cut in the count line some continuation gets another verdict. -/
theorem countCut_differs {p : Bytes} {res : Parsed} (hcut : CountCut p)
    (hbuf : p.length + 2 < 2147483648) (hres : ({} : YProtoParse).parseRequest p 0 = .ok res)
    (hwait : res.verdict = .wait) : Differs p res := by
  rcases hcut with ⟨y, rfl⟩ | rfl | ⟨h3, t, rfl | rfl⟩
  · rw [parseRequest_count_wait (by simp) rfl] at hres
    cases hres
    exact starPair_differs y
  · rw [parseRequest_count_wait (by simp) rfl] at hres
    cases hres
    exact starCrlf_differs
  · rw [List.length_cons] at h3
    by_cases h2 : t.bare.length = 2
    · have hshort : scanToken t.bare = .wait := by rw [scanToken, if_pos (by omega)]
      rw [parseRequest_count_wait (by omega) hshort] at hres
      cases hres
      exact barePair_differs h2
    · exact bareCount_differs (by omega) hbuf hres hwait
  · have hlen : (42 :: t.bare ++ [13]).length = t.bare.length + 2 := by simp
    rw [List.cons_append, parseRequest_count_wait (by simp; omega) (scanToken_bare_cr t)] at hres
    cases hres
    exact countCr_differs (by omega) hbuf

theorem lengthCut_differs {p : Bytes} {res : Parsed} (hcut : LengthCut p)
    (hbuf : p.length + 2 < 2147483648) (hres : ({} : YProtoParse).parseRequest p 0 = .ok res)
    (hwait : res.verdict = .wait) : Differs p res := by
  obtain ⟨hawait, hptr⟩ := lengthCut_awaiting hcut (by omega) hres hwait
  have hlen : (p ++ [0, 0]).length = p.length + 2 := List.length_append
  obtain ⟨r, hresumed, hv⟩ := hawait.wait_at_end (p ++ [0, 0]) (by omega)
  obtain ⟨s, hfresh, hs⟩ := lengthCut_zeros hcut hbuf
  refine ⟨[0, 0], by omega, not_sameAnswer (r := r) ?_ hfresh (by simp [hv, hs])⟩
  rw [hptr, ← hlen, hresumed]

/-- Calls on one parser, each on the range from the cursor of the last one to the end of what has
arrived. `cuts` are the ranges on which it waited. -/
inductive Fed : List Bytes → Bytes → Except ParseFault Parsed → Prop
  | first (b : Bytes) : Fed [] b (({} : YProtoParse).parseRequest b 0)
  | next {cuts : List Bytes} {p : Bytes} {res : Parsed} (h : Fed cuts p (.ok res))
      (hwait : res.verdict = .wait) (q : Bytes) :
      Fed (cuts ++ [p]) (p ++ q) (res.self.parseRequest (p ++ q) res.ptr)

theorem fed_eq {cuts : List Bytes} {b : Bytes} {ans : Except ParseFault Parsed}
    (h : Fed cuts b ans) (hbuf : b.length < 2147483648) (hclean : ∀ p ∈ cuts, CleanCut p) :
    ans = ({} : YProtoParse).parseRequest b 0 := by
  induction h with
  | first b => rfl
  | next h hwait q ih =>
      rename_i cuts p res
      have hp : p.length < 2147483648 := by
        rw [List.length_append] at hbuf
        omega
      have hres := ih hp fun c hc => hclean c (List.mem_append_left _ hc)
      exact resume_eq hbuf hres.symm hwait (hclean p (by simp))

/-- After any number of clean cuts the answer is that of a fresh parser on all of the bytes, and
where the parser waits again it can be resumed, whatever follows, exactly when this cut is clean
too. -/
theorem incremental_parsing_agrees {cuts : List Bytes} {p : Bytes} {ans : Except ParseFault Parsed}
    (hfed : Fed cuts p ans) (hclean : ∀ c ∈ cuts, CleanCut c) (hbuf : p.length < 2147483648) :
    SameAnswer ans (({} : YProtoParse).parseRequest p 0) ∧
      ∀ res : Parsed, ans = .ok res → res.verdict = .wait → p.length + 2 < 2147483648 →
        ((∀ q : Bytes, (p ++ q).length < 2147483648 → SameAnswer
          (res.self.parseRequest (p ++ q) res.ptr) (({} : YProtoParse).parseRequest (p ++ q) 0)) ↔
          CleanCut p) := by
  have heq := fed_eq hfed hbuf hclean
  refine ⟨.of_eq heq, ?_⟩
  rintro res rfl hwait hroom
  constructor
  · intro hsame
    constructor
    · intro hcut
      obtain ⟨q, hq, hdiff⟩ := countCut_differs hcut hroom heq.symm hwait
      exact hdiff (hsame q hq)
    · intro hcut
      obtain ⟨q, hq, hdiff⟩ := lengthCut_differs hcut hroom heq.symm hwait
      exact hdiff (hsame q hq)
  · intro hcut q hq
    exact .of_eq (resume_eq hq heq.symm hwait hcut)

theorem cleanCut_behind_count : CleanCut (ascii "*1\r\n") := by
  let one : IntToken := ⟨none, [49], List.all_eq_true.mp rfl⟩
  have hone : one.text = [49, 13, 10] := rfl
  constructor
  · rintro (⟨y, hy⟩ | hy | ⟨-, t, ht | ht⟩)
    · simp [ascii] at hy
    · simp [ascii] at hy
    · have hbare : 42 :: one.text = 42 :: t.bare := ht
      rw [List.cons.injEq] at hbare
      exact bare_ne_text_append t one [] (by rw [List.append_nil, hbare.2])
    · have hlast := congrArg List.getLast? ht
      rw [List.getLast?_concat] at hlast
      exact absurd hlast (by decide)
  · rintro ⟨h, t, is, heq, -, -⟩
    have htext : one.text ++ [] = h.text ++ (itemsText is ++ 36 :: t.bare) := by
      simpa [ascii, hone] using heq
    have hnil := (text_append_inj htext).2
    simp at hnil

theorem parseRequest_behind_count : ({} : YProtoParse).parseRequest (ascii "*1\r\n") 0 =
    .ok ⟨.wait, 4, { nMulti := 1, vecParams := [[]] }⟩ := by decide

/-- A `PING` cut behind its count line, as one cut and as a run of two calls. -/
theorem incremental_parsing_agrees_ping :
    SameAnswer (YProtoParse.parseRequest { nMulti := 1, vecParams := [[]] }
        (ascii "*1\r\n" ++ ascii "$4\r\nPING\r\n") 4)
      (({} : YProtoParse).parseRequest (ascii "*1\r\n" ++ ascii "$4\r\nPING\r\n") 0) ∧
    SameAnswer (YProtoParse.parseRequest { nMulti := 1, vecParams := [[]] }
        (ascii "*1\r\n" ++ ascii "$4\r\nPI") 4)
      (({} : YProtoParse).parseRequest (ascii "*1\r\n" ++ ascii "$4\r\nPI") 0) := by
  have hfirst := Fed.first (ascii "*1\r\n")
  rw [parseRequest_behind_count] at hfirst
  constructor
  · exact ((incremental_parsing_agrees hfirst (by simp) (by decide)).2 _ rfl rfl (by decide)).mpr
      cleanCut_behind_count _ (by decide)
  · refine (incremental_parsing_agrees (.next hfirst rfl (ascii "$4\r\nPI")) ?_ (by decide)).1
    simpa using cleanCut_behind_count

/-- A `PING` cut between the CR and the LF of its count: the parser waits, then rejects it. -/
theorem incremental_parsing_differs_in_count : ∃ res : Parsed,
    ({} : YProtoParse).parseRequest (ascii "*1\r") 0 = .ok res ∧ res.verdict = .wait ∧
    ¬ SameAnswer (res.self.parseRequest (ascii "*1\r" ++ ascii "\n$4\r\nPING\r\n") res.ptr)
      (({} : YProtoParse).parseRequest (ascii "*1\r" ++ ascii "\n$4\r\nPING\r\n") 0) := by
  have hresumed : ({} : YProtoParse).parseRequest (ascii "*1\r" ++ ascii "\n$4\r\nPING\r\n") 1 =
      .ok ⟨.error, 1, {}⟩ := by decide
  have hfresh : ({} : YProtoParse).parseRequest (ascii "*1\r" ++ ascii "\n$4\r\nPING\r\n") 0 =
      .ok ⟨.ok, 14, { nMulti := 1, nNumOfParam := 1, vecParams := [ascii "PING"] }⟩ := by decide
  exact ⟨⟨.wait, 1, {}⟩, by decide, rfl, not_sameAnswer hresumed hfresh (by decide)⟩

end Yedis
