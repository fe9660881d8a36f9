import Yedis.ParserSpec

/-!
# Items of a request and the parse loop over them

An item is a length line with its payload, or a length line that says -1. On the
bytes of complete items the loop of `parseStrlist` takes one round for each, and
conversely whatever the loop has done is described by the complete items it
passed and the one item it stopped in (`strlistLoop_inv`).
-/

namespace Yedis
open IntToken

inductive Item
  | null (len : IntToken) (h : wrap32 len.value = -1)
  | bulk (len : IntToken) (payload : Bytes) (h : wrap32 len.value = payload.length)

namespace Item

def len : Item → IntToken
  | null len _ => len
  | bulk len _ _ => len

def payload : Item → Bytes
  | null _ _ => []
  | bulk _ payload _ => payload

def body : Item → Bytes
  | null _ _ => []
  | bulk _ payload _ => payload ++ crlf

def text (i : Item) : Bytes := 36 :: i.len.text ++ i.body

/-- The guard of `parseStrval` lets the item pass when `n` bytes follow its length line. -/
def Fits : Item → ℕ → Prop
  | null _ _, _ => True
  | bulk _ payload _, n => ¬ wrap32 n < wrap32 (payload.length + 2)

theorem text_length (i : Item) : i.text.length = 1 + i.len.text.length + i.body.length := by
  simp [text]
  omega

end Item

def itemsText (is : List Item) : Bytes := is.flatMap Item.text

@[simp] theorem itemsText_nil : itemsText [] = [] := rfl

@[simp] theorem itemsText_cons (i : Item) (is : List Item) :
    itemsText (i :: is) = i.text ++ itemsText is := rfl

def payloads (is : List Item) : List Bytes := is.map Item.payload

@[simp] theorem payloads_nil : payloads [] = [] := rfl

@[simp] theorem payloads_cons (i : Item) (is : List Item) :
    payloads (i :: is) = i.payload :: payloads is := rfl

@[simp] theorem payloads_length (is : List Item) : (payloads is).length = is.length := by
  simp [payloads]

/-- Each of the items fits, with the rest of them and `s` behind it. -/
def ItemsFit : List Item → Bytes → Prop
  | [], _ => True
  | i :: is, s => i.Fits (i.body ++ (itemsText is ++ s)).length ∧ ItemsFit is s

/-- A token without a byte has the value 0. -/
theorem bare_length_of_wrap_ne {t : IntToken} (h : wrap32 t.value ≠ 0) : 1 ≤ t.bare.length := by
  by_contra hlt
  have hnil : t.bare = [] := List.length_eq_zero_iff.mp (by omega)
  rw [bare, List.append_eq_nil_iff] at hnil
  have hz : t.value = 0 := by
    simp [value, hnil.2]
  rw [hz] at h
  exact h (by decide)

/-- The bytes behind a length line, and behind one that the end of the range cuts off. -/
theorem drop_line {buf q : Bytes} {ptr : ℕ} {mark : UInt8} {t : IntToken}
    (h : buf.drop ptr = mark :: t.text ++ q) : buf.drop (ptr + (1 + t.text.length)) = q := by
  have hpre : (mark :: t.text).length = 1 + t.text.length := by
    rw [List.length_cons]
    omega
  rw [← hpre]
  exact drop_add_of_append h

/-- The bytes behind a count line. -/
theorem drop_count_line {b r : Bytes} {h : IntToken} (hb : b = 42 :: h.text ++ r) :
    b.drop (1 + h.text.length) = r := by
  rw [← Nat.zero_add (1 + h.text.length)]
  exact drop_line hb

theorem end_of_cut_line {buf : Bytes} {ptr : ℕ} {mark : UInt8} {t : IntToken}
    (h : buf.drop ptr = mark :: t.bare) : ptr + (1 + t.text.length) = buf.length + 2 := by
  have hlen := congrArg List.length h
  rw [List.length_drop, List.length_cons] at hlen
  rw [text_length]
  omega

/-- The guard of `parseStrval` behind a length line. -/
theorem short_iff_not_fits {buf s : Bytes} {ptr : ℕ} {t : IntToken} {payload : Bytes}
    (hlen : wrap32 t.value = payload.length)
    (hs : buf.drop ptr = 36 :: t.text ++ (payload ++ crlf ++ s)) :
    Short buf (ptr + (1 + t.text.length)) payload.length ↔
      ¬ (Item.bulk t payload hlen).Fits (payload ++ crlf ++ s).length := by
  have hrest := congrArg List.length (drop_line hs)
  rw [List.length_drop] at hrest
  have hcast : (buf.length : ℤ) - (ptr + (1 + t.text.length) : ℕ) =
      (payload ++ crlf ++ s).length := by
    simp only [List.length_append, crlf_length] at hrest ⊢
    omega
  rw [Short, hcast, Item.Fits, not_not]

theorem parseStr_fits {buf r : Bytes} {ptr : ℕ} {i : Item} (hs : buf.drop ptr = i.text ++ r)
    (hfits : i.Fits (i.body ++ r).length) (result : Bytes) :
    parseStr (-1) buf ptr result = .ok ⟨.ok, ptr + i.text.length, -1, i.payload⟩ := by
  rw [parseStr_eq, hs, Item.text_length]
  cases i with
  | null len h =>
      have hbare := bare_length_of_wrap_ne (t := len) (by omega)
      simp only [Item.text, Item.len, Item.body, List.append_nil, Item.payload, List.length_nil]
      rw [scanLine_text 36 len r (by rw [List.length_append, text_length]; omega), h]
      simp
  | bulk len payload h =>
      simp only [Item.text, Item.len, Item.body, Item.payload, List.length_append,
        crlf_length, List.append_assoc] at hs ⊢
      have h3 : 3 ≤ (len.text ++ (payload ++ (crlf ++ r))).length := by
        simp only [List.length_append, text_length, crlf_length]
        omega
      rw [scanLine_text 36 len _ h3, h]
      have hline : buf.drop ptr = 36 :: len.text ++ (payload ++ crlf ++ r) := by
        rw [hs, List.append_assoc]
      have hshort : ¬ Short buf (ptr + (1 + len.text.length)) payload.length := by
        rw [short_iff_not_fits h hline, not_not]
        exact hfits
      simp only [if_neg (show ¬ (payload.length : ℤ) < -1 by omega),
        if_neg (show ¬ (payload.length : ℤ) = -1 by omega)]
      rw [parseStrval_payload hshort (drop_line hline)]
      congr 2
      omega

/-- Where the range fits in an `int`, every complete item does. -/
theorem parseStr_item {buf r : Bytes} {ptr : ℕ} {i : Item} (hbuf : buf.length < 2147483648)
    (hs : buf.drop ptr = i.text ++ r) (result : Bytes) :
    parseStr (-1) buf ptr result = .ok ⟨.ok, ptr + i.text.length, -1, i.payload⟩ := by
  refine parseStr_fits hs ?_ result
  have hlen := congrArg List.length hs
  rw [List.length_drop, List.length_append, Item.text_length] at hlen
  cases i with
  | null len h => trivial
  | bulk len payload h =>
      simp only [Item.body, List.length_append, crlf_length] at hlen
      rw [Item.Fits, Item.body]
      simp only [List.length_append, crlf_length]
      rw [wrap32_of_range (by omega) (by omega), wrap32_of_range (by omega) (by omega)]
      omega

/-- The vector with slot `n` overwritten, or appended when it is the next one. -/
def putParam (vec : List Bytes) (n : ℕ) (v : Bytes) : List Bytes :=
  vec.take n ++ v :: vec.drop (n + 1)

namespace YProtoParse

/-- The members after a round that stops in its item. -/
def withParam (self : YProtoParse) (r : StrParsed) : YProtoParse :=
  { self with
    nParamLen := r.nParamLen
    vecParams := putParam self.vecParams self.nNumOfParam r.result }

/-- The members after rounds that completed the parameters `ps`. -/
def withItems (self : YProtoParse) (ps : List Bytes) : YProtoParse :=
  { self with
    nParamLen := -1
    nNumOfParam := self.nNumOfParam + ps.length
    vecParams := self.vecParams.take self.nNumOfParam ++ ps ++
      self.vecParams.drop (self.nNumOfParam + ps.length) }

/-- `results.resize(m_nNumOfParam)`, when the loop is over. -/
def cut (self : YProtoParse) : YProtoParse :=
  { self with vecParams := resize self.vecParams self.nNumOfParam }

theorem growParams_storeParam (self : YProtoParse) (r : StrParsed)
    (hnum : self.nNumOfParam ≤ self.vecParams.length) :
    self.growParams.storeParam r = self.withParam r := by
  unfold growParams storeParam withParam putParam
  split
  · rename_i hlt
    have hlen : self.vecParams.length = self.nNumOfParam := by omega
    simp only [resize, ← hlen, List.take_of_length_le (Nat.le_succ _), Nat.add_sub_cancel_left,
      List.replicate_one, List.take_length]
    rw [List.set_append_right _ _ (le_refl _), Nat.sub_self, List.drop_of_length_le (by omega)]
    rfl
  · rename_i hlt
    rw [List.set_eq_take_append_cons_drop, if_pos (by omega)]

theorem growParams_slot (self : YProtoParse) (hnum : self.nNumOfParam ≤ self.vecParams.length) :
    self.growParams.vecParams.getD self.nNumOfParam [] =
      self.vecParams.getD self.nNumOfParam [] := by
  unfold growParams
  split
  · rename_i hlt
    have hlen : self.vecParams.length = self.nNumOfParam := by omega
    simp [resize, ← hlen]
  · rfl

@[simp] theorem growParams_nParamLen (self : YProtoParse) :
    self.growParams.nParamLen = self.nParamLen := by
  unfold growParams
  split <;> rfl

@[simp] theorem growParams_nNumOfParam (self : YProtoParse) :
    self.growParams.nNumOfParam = self.nNumOfParam := by
  unfold growParams
  split <;> rfl

theorem withItems_nil (self : YProtoParse) (hlen : self.nParamLen = -1) :
    self.withItems [] = self := by
  cases self
  simp_all [withItems]

end YProtoParse

/-- One round of the loop of `parseStrlist`. -/
theorem strlistLoop_succ (buf : Bytes) (k : ℕ) (self : YProtoParse) (ptr : ℕ)
    (hnum : self.nNumOfParam ≤ self.vecParams.length) :
    strlistLoop buf (k + 1) self ptr =
      match parseStr self.nParamLen buf ptr (self.vecParams.getD self.nNumOfParam []) with
      | .error f => .error f
      | .ok r =>
          if r.verdict = .ok then
            strlistLoop buf k { self.withParam r with nNumOfParam := self.nNumOfParam + 1 } r.ptr
          else .ok ⟨r.verdict, r.ptr, self.withParam r⟩ := by
  rw [strlistLoop]
  simp only [YProtoParse.growParams_nParamLen, YProtoParse.growParams_nNumOfParam,
    self.growParams_slot hnum, bind, Except.bind]
  cases parseStr self.nParamLen buf ptr (self.vecParams.getD self.nNumOfParam []) with
  | error f => rfl
  | ok r =>
      simp only [self.growParams_storeParam r hnum]
      rfl

/-- The members after one completed round, as the next round finds them. -/
theorem strlistLoop_round {buf : Bytes} {self : YProtoParse} {ptr ptr' : ℕ} {v : Bytes} (k : ℕ)
    (hnum : self.nNumOfParam ≤ self.vecParams.length)
    (h : parseStr self.nParamLen buf ptr (self.vecParams.getD self.nNumOfParam []) =
      .ok ⟨.ok, ptr', -1, v⟩) :
    strlistLoop buf (k + 1) self ptr = strlistLoop buf k (self.withItems [v]) ptr' := by
  rw [strlistLoop_succ buf k self ptr hnum, h]
  simp [YProtoParse.withParam, YProtoParse.withItems, putParam]

theorem YProtoParse.withItems_bound (self : YProtoParse) (ps : List Bytes)
    (hnum : self.nNumOfParam ≤ self.vecParams.length) :
    (self.withItems ps).nNumOfParam ≤ (self.withItems ps).vecParams.length := by
  simp only [withItems, List.length_append, List.length_take, List.length_drop]
  omega

theorem YProtoParse.withItems_append (self : YProtoParse) (ps qs : List Bytes)
    (hnum : self.nNumOfParam ≤ self.vecParams.length) :
    (self.withItems ps).withItems qs = self.withItems (ps ++ qs) := by
  have hpre : (self.vecParams.take self.nNumOfParam ++ ps).length = self.nNumOfParam + ps.length := by
    rw [List.length_append, List.length_take]
    omega
  simp only [withItems, List.length_append, mk.injEq, true_and, Nat.add_assoc]
  rw [← Nat.add_assoc, ← hpre, List.take_left, List.drop_length_add_append, List.drop_drop]
  simp only [List.append_assoc]

theorem strlistLoop_items {buf r : Bytes} (hbuf : buf.length < 2147483648) (is : List Item)
    (k : ℕ) (self : YProtoParse) (ptr : ℕ) (hs : buf.drop ptr = itemsText is ++ r)
    (hlen : self.nParamLen = -1) (hnum : self.nNumOfParam ≤ self.vecParams.length) :
    strlistLoop buf (is.length + k) self ptr =
      strlistLoop buf k (self.withItems (payloads is)) (ptr + (itemsText is).length) := by
  induction is generalizing self ptr with
  | nil => simp [self.withItems_nil hlen]
  | cons i is ih =>
      rw [itemsText_cons, List.append_assoc] at hs
      have hround := strlistLoop_round (is.length + k) hnum
        (by rw [hlen]; exact parseStr_item hbuf hs _)
      have hs' : buf.drop (ptr + i.text.length) = itemsText is ++ r := drop_add_of_append hs
      rw [List.length_cons, Nat.add_right_comm, hround,
        ih _ _ hs' rfl (self.withItems_bound _ hnum), self.withItems_append _ _ hnum,
        itemsText_cons, List.length_append, Nat.add_assoc]
      rfl

theorem parseStrval_ok_inv {buf : Bytes} {ptr len : ℕ} {result : Bytes} {r : StrParsed}
    (h : parseStrval len buf ptr result = .ok r) (hv : r.verdict = .ok) :
    ∃ payload s : Bytes, payload.length = len ∧ buf.drop ptr = payload ++ crlf ++ s ∧
      r = ⟨.ok, ptr + len + 2, -1, payload⟩ := by
  by_cases hshort : Short buf ptr len
  · rw [parseStrval_short hshort] at h
    cases h
    cases hv
  · rcases parseStrval_cases buf ptr len result hshort with
      ⟨hf, -⟩ | ⟨he, -⟩ | ⟨payload, s, hp, hs, hok⟩
    · rw [hf] at h
      cases h
    · rw [he] at h
      cases h
      cases hv
    · rw [hok] at h
      cases h
      exact ⟨payload, s, hp, hs, rfl⟩

theorem not_short_of_ok {buf : Bytes} {ptr len : ℕ} {result : Bytes} {r : StrParsed}
    (h : parseStrval len buf ptr result = .ok r) (hv : r.verdict = .ok) : ¬ Short buf ptr len := by
  intro hshort
  rw [parseStrval_short hshort] at h
  cases h
  cases hv

/-- A completed round has passed one item, or a length of -1 cut off by the end of the range. -/
theorem parseStr_ok_inv {buf : Bytes} {ptr : ℕ} {result : Bytes} {r : StrParsed}
    (h : parseStr (-1) buf ptr result = .ok r) (hv : r.verdict = .ok) :
    (∃ (i : Item) (s : Bytes), buf.drop ptr = i.text ++ s ∧ i.Fits (i.body ++ s).length ∧
      r = ⟨.ok, ptr + i.text.length, -1, i.payload⟩) ∨
    (∃ t : IntToken, buf.drop ptr = 36 :: t.bare ∧ 3 ≤ t.bare.length ∧ wrap32 t.value = -1 ∧
      r = ⟨.ok, buf.length + 2, -1, []⟩) := by
  rw [parseStr_eq] at h
  cases hscan : scanLine 36 (buf.drop ptr) with
  | wait =>
      rw [hscan] at h
      cases h
      cases hv
  | error =>
      rw [hscan] at h
      cases h
      cases hv
  | ok v n =>
      obtain ⟨t, rfl, rfl, h4, hline⟩ := scanLine_ok hscan
      simp only [hscan] at h
      split_ifs at h with hlt hnull
      · cases h
        cases hv
      · cases h
        rcases hline with ⟨q, hq⟩ | hq
        · refine Or.inl ⟨.null t hnull, q, ?_, trivial, ?_⟩
          · simpa [Item.text, Item.len, Item.body] using hq
          · simp [Item.text, Item.len, Item.body, Item.payload, Nat.add_comm 1]
        · rw [hq, List.length_cons] at h4
          exact Or.inr ⟨t, hq, by omega, hnull, by rw [end_of_cut_line hq]⟩
      · obtain ⟨len, hlen⟩ : ∃ len : ℕ, wrap32 t.value = len :=
          ⟨(wrap32 t.value).toNat, by omega⟩
        rw [hlen] at h
        have hshort := not_short_of_ok h hv
        obtain ⟨payload, s, rfl, hs, rfl⟩ := parseStrval_ok_inv h hv
        rcases hline with ⟨q, hq⟩ | hq
        · rw [← drop_line hq, hs] at hq
          rw [short_iff_not_fits hlen hq, not_not] at hshort
          refine Or.inl ⟨.bulk t payload hlen, s, ?_, hshort, ?_⟩
          · rw [hq]
            simp [Item.text, Item.len, Item.body]
          · have hptr : ptr + (Item.bulk t payload hlen).text.length =
                ptr + (1 + t.text.length) + payload.length + 2 := by
              simp only [Item.text_length, Item.len, Item.body, List.length_append, crlf_length]
              omega
            rw [hptr]
            rfl
        · rw [end_of_cut_line hq, List.drop_of_length_le (by omega)] at hs
          simp [crlf] at hs

/-- How the loop of `parseStrlist` ends, from `self` and `ptr` with `k` rounds to go: the complete
items `is` it passed, and where it stopped. -/
inductive LoopEnd (buf : Bytes) (k : ℕ) (self : YProtoParse) (ptr : ℕ) : Parsed → Prop
  | done (is : List Item) (s : Bytes) (hs : buf.drop ptr = itemsText is ++ s)
      (hk : is.length = k) :
      LoopEnd buf k self ptr ⟨.ok, ptr + (itemsText is).length, (self.withItems (payloads is)).cut⟩
  | stopped (is : List Item) (s : Bytes) (r : StrParsed) (hs : buf.drop ptr = itemsText is ++ s)
      (hfit : ItemsFit is s) (hk : is.length < k) (hv : r.verdict ≠ .ok)
      (hr : parseStr (-1) buf (ptr + (itemsText is).length)
        ((self.withItems (payloads is)).vecParams.getD (self.nNumOfParam + is.length) []) = .ok r) :
      LoopEnd buf k self ptr ⟨r.verdict, r.ptr, (self.withItems (payloads is)).withParam r⟩
  /-- the last length is -1 and lacks its CRLF -/
  | doneCut (is : List Item) (t : IntToken) (hs : buf.drop ptr = itemsText is ++ 36 :: t.bare)
      (h3 : 3 ≤ t.bare.length) (ht : wrap32 t.value = -1) (hk : is.length + 1 = k) :
      LoopEnd buf k self ptr ⟨.ok, buf.length + 2, (self.withItems (payloads is ++ [[]])).cut⟩
  | waitCut (is : List Item) (t : IntToken) (hs : buf.drop ptr = itemsText is ++ 36 :: t.bare)
      (hfit : ItemsFit is (36 :: t.bare)) (h3 : 3 ≤ t.bare.length) (ht : wrap32 t.value = -1) (hk : is.length + 1 < k) :
      LoopEnd buf k self ptr ⟨.wait, buf.length + 2,
        (self.withItems (payloads is ++ [[]])).withParam ⟨.wait, buf.length + 2, -1,
          (self.withItems (payloads is ++ [[]])).vecParams.getD
            (self.withItems (payloads is ++ [[]])).nNumOfParam []⟩⟩

theorem LoopEnd.cons {buf s : Bytes} {k : ℕ} {self : YProtoParse} {ptr : ℕ} {i : Item}
    {res : Parsed} (hs : buf.drop ptr = i.text ++ s) (hi : i.Fits (i.body ++ s).length)
    (hnum : self.nNumOfParam ≤ self.vecParams.length)
    (h : LoopEnd buf k (self.withItems [i.payload]) (ptr + i.text.length) res) :
    LoopEnd buf (k + 1) self ptr res := by
  have hrest : ∀ q, buf.drop (ptr + i.text.length) = q → buf.drop ptr = i.text ++ q := by
    intro q hq
    rw [hs, ← hq, drop_add_of_append hs]
  have hfits : ∀ q, buf.drop (ptr + i.text.length) = q → i.Fits (i.body ++ q).length := by
    intro q hq
    rw [← hq, drop_add_of_append hs]
    exact hi
  have hself : ∀ ps, (self.withItems [i.payload]).withItems ps =
      self.withItems (i.payload :: ps) := fun ps => self.withItems_append [i.payload] ps hnum
  have hptr : ∀ is, ptr + i.text.length + (itemsText is).length =
      ptr + (itemsText (i :: is)).length := by
    intro is
    rw [itemsText_cons, List.length_append, Nat.add_assoc]
  cases h with
  | done is q hq hk =>
      rw [hself, hptr]
      exact .done (i :: is) q (by rw [hrest _ hq, itemsText_cons, List.append_assoc])
        (by rw [List.length_cons, hk])
  | stopped is q r hq hfit hk hv hr =>
      rw [hself, hptr] at hr
      rw [hself]
      refine .stopped (i :: is) q r (by rw [hrest _ hq, itemsText_cons, List.append_assoc])
        ⟨hfits _ hq, hfit⟩ (by rw [List.length_cons]; omega) hv ?_
      rw [← hr, payloads_cons, List.length_cons, Nat.add_comm is.length, ← Nat.add_assoc]
      rfl
  | doneCut is t hq h3 ht hk =>
      rw [hself]
      exact .doneCut (i :: is) t (by rw [hrest _ hq, itemsText_cons, List.append_assoc]) h3 ht
        (by rw [List.length_cons]; omega)
  | waitCut is t hq hfit h3 ht hk =>
      rw [hself]
      exact .waitCut (i :: is) t (by rw [hrest _ hq, itemsText_cons, List.append_assoc])
        ⟨hfits _ hq, hfit⟩ h3 ht (by rw [List.length_cons]; omega)

theorem strlistLoop_inv {buf : Bytes} {k : ℕ} {self : YProtoParse} {ptr : ℕ} {res : Parsed}
    (hlen : self.nParamLen = -1) (hnum : self.nNumOfParam ≤ self.vecParams.length)
    (h : strlistLoop buf k self ptr = .ok res) : LoopEnd buf k self ptr res := by
  induction k generalizing self ptr with
  | zero =>
      rw [strlistLoop] at h
      cases h
      have hdone : LoopEnd buf 0 self ptr _ := .done [] (buf.drop ptr) rfl rfl
      rw [payloads_nil, self.withItems_nil hlen] at hdone
      exact hdone
  | succ k ih =>
      cases hr : parseStr self.nParamLen buf ptr (self.vecParams.getD self.nNumOfParam []) with
      | error f =>
          rw [strlistLoop_succ buf k self ptr hnum, hr] at h
          cases h
      | ok r =>
          by_cases hv : r.verdict = .ok
          · rw [hlen] at hr
            rcases parseStr_ok_inv hr hv with ⟨i, s, hs, hi, rfl⟩ | ⟨t, ht, h3, htv, rfl⟩
            · rw [strlistLoop_round k hnum (by rw [hlen]; exact hr)] at h
              exact .cons hs hi hnum (ih rfl (self.withItems_bound _ hnum) h)
            · rw [strlistLoop_round k hnum (by rw [hlen]; exact hr)] at h
              cases k with
              | zero =>
                  rw [strlistLoop] at h
                  cases h
                  exact .doneCut [] t ht h3 htv rfl
              | succ k =>
                  have hwait := parseStr_eq buf (buf.length + 2)
                    ((self.withItems [[]]).vecParams.getD (self.withItems [[]]).nNumOfParam [])
                  rw [List.drop_of_length_le (by omega)] at hwait
                  rw [strlistLoop_succ _ _ _ _ (self.withItems_bound _ hnum)] at h
                  change (match parseStr (-1) _ _ _ with
                    | .error f => _
                    | .ok r => _) = _ at h
                  rw [hwait] at h
                  cases h
                  exact .waitCut [] t ht trivial h3 htv (by simp)
          · rw [strlistLoop_succ buf k self ptr hnum, hr] at h
            simp only [if_neg hv] at h
            cases h
            rw [hlen] at hr
            have hstop : LoopEnd buf (k + 1) self ptr _ := .stopped [] (buf.drop ptr) r rfl
              trivial (Nat.succ_pos k) hv (by simpa [self.withItems_nil hlen] using hr)
            rw [payloads_nil, self.withItems_nil hlen] at hstop
            exact hstop

end Yedis
