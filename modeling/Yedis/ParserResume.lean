import Yedis.FreshParse

/-!
# Resuming the parser

A parser that answered `wait` on `p` is called again with the range from its
cursor to the end of `p ++ q`, and compared with a fresh parser on all of
`p ++ q`. `CleanCut p` excludes the ranges that end inside the count line, where
`parseMulti` keeps its cursor behind the `'*'` or takes the digits so far for a
complete count, and those that end right behind the digits of a length, where
`parseStrlen` takes them for a complete length. On clean cuts the resumed call
and the fresh one return the same value.
-/

namespace Yedis
open IntToken

/-- Same verdict and, for `ok`, the same parameters and the same cursor. -/
def SameAnswer : Except ParseFault Parsed → Except ParseFault Parsed → Prop
  | .ok r, .ok s => r.verdict = s.verdict ∧
      (r.verdict = .ok → r.self.getParams = s.self.getParams ∧ r.ptr = s.ptr)
  | .error f, .error g => f = g
  | _, _ => False

theorem SameAnswer.of_eq {a b : Except ParseFault Parsed} (h : a = b) : SameAnswer a b := by
  subst h
  cases a <;> simp [SameAnswer]

theorem not_sameAnswer {a b : Except ParseFault Parsed} {r s : Parsed} (ha : a = .ok r)
    (hb : b = .ok s) (h : r.verdict ≠ s.verdict) : ¬ SameAnswer a b := by
  subst ha hb
  exact fun hsame => h hsame.1

/-- The range ends inside the count line, and `parseMulti` has moved past the `'*'`. -/
def CountCut (p : Bytes) : Prop :=
  (∃ y, p = [42, 42, y]) ∨ p = [42, 13, 10] ∨
    (3 ≤ p.length ∧ ∃ t : IntToken, p = 42 :: t.bare ∨ p = 42 :: t.bare ++ [13])

/-- The range ends right behind the digits of a length. -/
def LengthCut (p : Bytes) : Prop :=
  ∃ (h t : IntToken) (is : List Item), p = 42 :: h.text ++ (itemsText is ++ 36 :: t.bare) ∧
    3 ≤ t.bare.length ∧ is.length < wrap32 h.value

def CleanCut (p : Bytes) : Prop := ¬ CountCut p ∧ ¬ LengthCut p

theorem parseStrval_wait_inv {buf : Bytes} {ptr len : ℕ} {result : Bytes} {r : StrParsed}
    (h : parseStrval len buf ptr result = .ok r) (hv : r.verdict = .wait) :
    Short buf ptr len ∧ r = ⟨.wait, ptr, len, result⟩ := by
  by_cases hshort : Short buf ptr len
  · rw [parseStrval_short hshort] at h
    cases h
    exact ⟨hshort, rfl⟩
  · rcases parseStrval_cases buf ptr len result hshort with
      ⟨hf, -⟩ | ⟨he, -⟩ | ⟨payload, s, -, -, hok⟩
    · rw [hf] at h
      cases h
    · rw [he] at h
      cases h
      cases hv
    · rw [hok] at h
      cases h
      cases hv

/-- An item that waited is resumed where it stopped, unless the range ended in its length. -/
theorem parseStr_resume {p : Bytes} {ptr : ℕ} {slot : Bytes} {r : StrParsed}
    (hr : parseStr (-1) p ptr slot = .ok r) (hv : r.verdict = .wait)
    (hcut : ∀ t : IntToken, p.drop ptr = 36 :: t.bare → t.bare.length < 3) (q : Bytes) :
    r.result = slot ∧
      parseStr r.nParamLen (p ++ q) r.ptr slot = parseStr (-1) (p ++ q) ptr slot := by
  rw [parseStr_eq] at hr
  cases hscan : scanLine 36 (p.drop ptr) with
  | wait =>
      rw [hscan] at hr
      cases hr
      exact ⟨rfl, rfl⟩
  | error =>
      rw [hscan] at hr
      cases hr
      cases hv
  | ok v n =>
      obtain ⟨t, rfl, rfl, h4, hline⟩ := scanLine_ok hscan
      rcases hline with ⟨s, hs⟩ | hs
      · simp only [hscan] at hr
        split_ifs at hr with hlt hnull
        · cases hr
          cases hv
        · cases hr
          cases hv
        · obtain ⟨len, hlen⟩ : ∃ len : ℕ, wrap32 t.value = len :=
            ⟨(wrap32 t.value).toNat, by omega⟩
          rw [hlen] at hr
          obtain ⟨-, rfl⟩ := parseStrval_wait_inv hr hv
          refine ⟨rfl, ?_⟩
          have hle : ptr ≤ p.length := by
            by_contra hgt
            rw [List.drop_of_length_le (by omega)] at hs
            cases hs
          have hn : 1 + t.text.length ≤ (p.drop ptr).length := by
            rw [hs, List.length_append, List.length_cons]
            omega
          have hscan' := scanLine_ok_append hscan hn q
          rw [← List.drop_append_of_le_length hle, hlen] at hscan'
          rw [parseStr_pending (show (len : ℤ) ≠ -1 by omega), parseStr_eq, hscan']
          simp only [if_neg (show ¬ (len : ℤ) < -1 by omega),
            if_neg (show ¬ (len : ℤ) = -1 by omega)]
      · have hshort := hcut t hs
        rw [hs, List.length_cons] at h4
        omega

theorem putParam_getD {vec : List Bytes} {n : ℕ} (h : n ≤ vec.length) (v : Bytes) :
    (putParam vec n v).getD n [] = v := by
  have hpre : (vec.take n).length = n := by
    rw [List.length_take]
    omega
  rw [putParam, List.getD_eq_getElem?_getD, List.getElem?_append_right (by omega), hpre,
    Nat.sub_self]
  rfl

theorem putParam_putParam {vec : List Bytes} {n : ℕ} (h : n ≤ vec.length) (v w : Bytes) :
    putParam (putParam vec n v) n w = putParam vec n w := by
  have hpre : (vec.take n).length = n := by
    rw [List.length_take]
    omega
  have hdrop : (vec.take n ++ v :: vec.drop (n + 1)).drop (n + 1) = vec.drop (n + 1) := by
    rw [List.drop_append, List.drop_of_length_le (by omega), hpre, Nat.add_sub_cancel_left]
    rfl
  rw [putParam, putParam, List.take_left' hpre, hdrop]
  rfl

theorem YProtoParse.withParam_bound (self : YProtoParse) (r : StrParsed)
    (hnum : self.nNumOfParam ≤ self.vecParams.length) :
    (self.withParam r).nNumOfParam ≤ (self.withParam r).vecParams.length := by
  simp only [withParam, putParam, List.length_append, List.length_take, List.length_cons]
  omega

/-- A loop resumed in the item it waited in goes on as the loop that starts with this item. -/
theorem strlistLoop_resume {buf : Bytes} {self : YProtoParse} {ptr : ℕ} {r : StrParsed} (k : ℕ)
    (hlen : self.nParamLen = -1) (hnum : self.nNumOfParam ≤ self.vecParams.length)
    (hslot : r.result = self.vecParams.getD self.nNumOfParam [])
    (hr : parseStr r.nParamLen buf r.ptr r.result = parseStr (-1) buf ptr r.result) :
    strlistLoop buf (k + 1) (self.withParam r) r.ptr = strlistLoop buf (k + 1) self ptr := by
  have hnum' := self.withParam_bound r hnum
  have hput : ∀ s, (self.withParam r).withParam s = self.withParam s := by
    intro s
    simp only [YProtoParse.withParam, putParam_putParam hnum]
  have hget : (self.withParam r).vecParams.getD (self.withParam r).nNumOfParam [] = r.result :=
    putParam_getD hnum r.result
  rw [strlistLoop_succ _ _ _ _ hnum, strlistLoop_succ _ _ _ _ hnum', hget, hlen, ← hslot, ← hr]
  simp only [hput]
  rfl

/-- A count line cut after its second byte is complete, or it is malformed whatever follows. -/
theorem scanToken_pair_error {a b : UInt8} (hclean : ¬ CountCut [42, a, b]) (c : UInt8)
    (q : Bytes) : scanToken (a :: b :: c :: q) = .error := by
  have hsplit := lead_append_rest [a, b]
  have hrest : rest [a, b] ≠ [] := by
    intro hr
    rw [hr, List.append_nil] at hsplit
    exact hclean (Or.inr (Or.inr ⟨by simp, _, Or.inl (by rw [hsplit])⟩))
  obtain ⟨-, hr⟩ := lead_append hrest (c :: q)
  have hlen : ¬ ([a, b] ++ c :: q).length < 3 := by simp
  change scanToken ([a, b] ++ c :: q) = .error
  rw [scanToken, if_neg hlen, hr]
  cases hx : rest [a, b] with
  | nil => exact absurd hx hrest
  | cons x w =>
      cases w with
      | nil =>
          have hx13 : x ≠ 13 := by
            rintro rfl
            rw [hx] at hsplit
            exact hclean (Or.inr (Or.inr ⟨by simp, _, Or.inr (by rw [List.cons_append, hsplit])⟩))
          simp [IntRead.ofRest, hx13]
      | cons y z =>
          have hsuffix : x :: y :: z <:+ [a, b] := ⟨_, by rw [← hx, hsplit]⟩
          have heq := hsuffix.eq_of_length_le (by simp)
          have hne : ¬ (x = 13 ∧ y = 10) := by
            rintro ⟨rfl, rfl⟩
            simp only [List.cons.injEq] at heq
            exact hclean (Or.inr (Or.inl (by rw [← heq.1, ← heq.2.1])))
          simp [IntRead.ofRest, hne]

/-- A parser that kept its cursor behind the `'*'` starts over on a byte that is no `'*'`. -/
theorem resume_noCount {p : Bytes} (q : Bytes) (hscan : scanLine 42 p = .wait)
    (hclean : ¬ CountCut p) :
    ({} : YProtoParse).parseRequest (p ++ q) (multiCursor p 0) =
      ({} : YProtoParse).parseRequest (p ++ q) 0 := by
  by_cases h3 : 3 ≤ p.length ∧ p.head? = some 42
  · have hcursor : multiCursor p 0 = 1 := by simp only [multiCursor, hscan, if_pos h3]
    obtain ⟨s, rfl⟩ : ∃ s, p = 42 :: s := by
      cases p with
      | nil => cases h3.2
      | cons c s => exact ⟨s, by simpa using h3.2⟩
    have hs2 : 2 ≤ s.length := by simpa using h3.1
    rw [scanLine, if_neg (by omega), if_neg (by simp)] at hscan
    have htoken : scanToken s = .wait := by
      cases hs : scanToken s <;> simp [hs, IntRead.shift] at hscan ⊢
    rcases scanToken_wait htoken with hlt | ⟨t, rfl⟩
    · obtain ⟨a, b, rfl⟩ : ∃ a b, s = [a, b] := List.length_eq_two.mp (by omega)
      have ha : a ≠ 42 := by
        rintro rfl
        exact hclean (Or.inl ⟨b, rfl⟩)
      rw [hcursor, parseRequest_eq rfl, parseRequest_eq rfl]
      cases q with
      | nil => simp [scanLine, scanToken, multiCursor, IntRead.shift]
      | cons c q =>
          have herr := scanToken_pair_error hclean c q
          simp [scanLine, herr, multiCursor, IntRead.shift, ha]
    · exact absurd (Or.inr (Or.inr ⟨h3.1, t, Or.inr rfl⟩)) hclean
  · have hcursor : multiCursor p 0 = 0 := by simp only [multiCursor, hscan, if_neg h3]
    rw [hcursor]

/-- On a clean cut the resumed parser does exactly what a fresh one does on the whole range. -/
theorem resume_eq {p q : Bytes} {res : Parsed} (hbuf : (p ++ q).length < 2147483648)
    (hres : ({} : YProtoParse).parseRequest p 0 = .ok res) (hwait : res.verdict = .wait)
    (hclean : CleanCut p) :
    res.self.parseRequest (p ++ q) res.ptr = ({} : YProtoParse).parseRequest (p ++ q) 0 := by
  cases parseRequest_fresh hres with
  | noCount hscan => exact resume_noCount q hscan hclean.1
  | badCount hscan => cases hwait
  | lowCount h hcount hb => cases hwait
  | cutDone h hb h3 hcount hk => cases hwait
  | cutWait h hb h3 hk =>
      refine absurd (Or.inr (Or.inr ⟨?_, h, Or.inl hb⟩)) hclean.1
      rw [hb, List.length_cons]
      omega
  | counted h r res hb h3 hcount hloop =>
      have hdrop : p.drop (1 + h.text.length) = r := drop_count_line hb
      cases hloop with
      | done is s hs hk => cases hwait
      | doneCut is t hs ht3 ht hk => cases hwait
      | waitCut is t hs hfit ht3 ht hk =>
          refine absurd ⟨h, t, is, ?_, ht3, by omega⟩ hclean.2
          rw [hb, ← hs, hdrop]
      | stopped is s r' hs hfit hk hv hr =>
          have hp : p = 42 :: h.text ++ (itemsText is ++ s) := by rw [hb, ← hs, hdrop]
          obtain ⟨k, hk'⟩ : ∃ k, (wrap32 h.value).toNat = is.length + (k + 1) :=
            ⟨(wrap32 h.value).toNat - is.length - 1, by omega⟩
          have hpq : p ++ q = 42 :: h.text ++ (itemsText is ++ (s ++ q)) := by
            rw [hp]
            simp only [List.append_assoc]
          have hlong : 3 ≤ (h.text ++ (itemsText is ++ (s ++ q))).length := by
            rw [← hdrop, hs] at h3
            simp only [List.length_append] at h3 ⊢
            omega
          have hdropq : (p ++ q).drop (1 + h.text.length) = itemsText is ++ (s ++ q) :=
            drop_count_line hpq
          have hat : p.drop (1 + h.text.length + (itemsText is).length) = s := drop_add_of_append hs
          have hcut : ∀ t : IntToken, p.drop (1 + h.text.length + (itemsText is).length) =
              36 :: t.bare → t.bare.length < 3 := by
            intro t ht
            by_contra hge
            refine hclean.2 ⟨h, t, is, ?_, by omega, by omega⟩
            rw [hp, ← ht, hat]
          obtain ⟨hslot, hresume⟩ := parseStr_resume hr hwait hcut q
          rw [← hslot] at hresume
          rw [parseRequest_counted hpq hlong hcount, hk',
            strlistLoop_items hbuf is (k + 1) _ _ hdropq rfl (Nat.zero_le _),
            ← strlistLoop_resume k rfl (YProtoParse.withItems_bound _ _ (Nat.zero_le _)) ?_ hresume,
            parseRequest_resumed]
          · have hnum : ((YProtoParse.counted (wrap32 h.value)).withItems (payloads is)).nNumOfParam =
                is.length := by
              simp [YProtoParse.withItems, YProtoParse.counted]
            change strlistLoop (p ++ q) (wrap32 h.value -
              ((YProtoParse.counted (wrap32 h.value)).withItems (payloads is)).nNumOfParam).toNat
              _ r'.ptr = _
            rw [hnum, show (wrap32 h.value - (is.length : ℤ)).toNat = k + 1 by omega]
          · change wrap32 h.value ≠ -1
            omega
          · rw [hslot]
            simp only [YProtoParse.withItems, payloads_length]

end Yedis
