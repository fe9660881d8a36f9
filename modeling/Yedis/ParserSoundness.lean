import Yedis.FreshParse

/-!
# What a fresh parser accepts and rejects

`WellFormed` is the request grammar with integers taken at their mathematical
value. The parser answers `error` only on bytes that no extension makes well
formed. What it accepts is well formed exactly when every integer token it came to
is ended by CRLF, has a digit, and has a value from -1 to the largest `int`.
-/

namespace Yedis
open IntToken

namespace IntToken

def Strict (t : IntToken) : Prop := t.digits ≠ [] ∧ -1 ≤ t.value ∧ t.value ≤ 2147483647

theorem Strict.wrap {t : IntToken} (h : t.Strict) : wrap32 t.value = t.value :=
  wrap32_of_range (by have := h.2.1; omega) (by have := h.2.2; omega)

theorem Strict.bare_length {t : IntToken} (h : t.Strict) : 1 ≤ t.bare.length := by
  have hdigits := List.length_pos_iff.mpr h.1
  rw [bare, List.length_append]
  omega

/-- The start of a strict token is in range as well. -/
theorem Strict.of_prefix {t u : IntToken} {q r : Bytes} (hu : u.Strict)
    (h : t.bare ++ q = u.text ++ r) : -1 ≤ wrap32 t.value := by
  by_cases hnil : t.bare = []
  · rw [bare, List.append_eq_nil_iff] at hnil
    have hz : t.value = 0 := by simp [value, hnil.2]
    rw [hz]
    decide
  · obtain ⟨hsign, hdigits⟩ := lead_of_bare_append hnil q
    rw [h, (lead_text_append u r).1] at hsign hdigits
    have hle := numeral_le_append 10 (by omega) t.digits (q.takeWhile isDigit)
    rw [← hdigits] at hle
    obtain ⟨-, hlow, hhigh⟩ := hu
    rw [value, hsign] at hlow hhigh
    have hrange : -1 ≤ t.value ∧ t.value ≤ 2147483647 := by
      rw [value]
      split_ifs at hlow hhigh ⊢ <;> omega
    rw [wrap32_of_range (by omega) (by omega)]
    exact hrange.1

end IntToken

/-- `b` starts with a request of the grammar, which ends at the cursor and has the parameters. -/
inductive WellFormed (b : Bytes) : ℕ → List Bytes → Prop
  | request (count : IntToken) (items : List Item) (rest : Bytes)
      (hb : b = 42 :: count.text ++ (itemsText items ++ rest)) (hcount : count.Strict)
      (hitems : ∀ i ∈ items, i.len.Strict) (harity : items.length = count.value.toNat) :
      WellFormed b (1 + count.text.length + (itemsText items).length) (payloads items)

/-- The bytes from an integer token on that the parser comes to in `b`. -/
inductive TokenAt (b : Bytes) : Bytes → Prop
  | count (s : Bytes) (hb : b = 42 :: s) : TokenAt b s
  | len (h : IntToken) (is : List Item) (s : Bytes)
      (hb : b = 42 :: h.text ++ (itemsText is ++ 36 :: s)) (hmore : is.length < wrap32 h.value) :
      TokenAt b s

/-- The token runs to the end of the bytes, or it has no digit, or its value is out of range. -/
def LooseToken (s : Bytes) : Prop :=
  (∃ t : IntToken, s = t.bare) ∨ ∃ (t : IntToken) (r : Bytes), s = t.text ++ r ∧ ¬ t.Strict

theorem not_looseToken {t : IntToken} (h : t.Strict) (r : Bytes) : ¬ LooseToken (t.text ++ r) := by
  rintro (⟨u, hu⟩ | ⟨u, q, hu, hloose⟩)
  · exact bare_ne_text_append u t r hu.symm
  · rw [(text_append_inj hu).1] at h
    exact hloose h

theorem strict_of_not_loose {t : IntToken} {r : Bytes} (h : ¬ LooseToken (t.text ++ r)) :
    t.Strict := by
  by_contra hloose
  exact h (Or.inr ⟨t, r, rfl, hloose⟩)

theorem Item.text_append (i : Item) (r : Bytes) :
    i.text ++ r = 36 :: i.len.text ++ (i.body ++ r) := by
  rw [Item.text, List.append_assoc]

/-- A payload is rejected only where CRLF does not follow it, whatever continues the bytes. -/
theorem parseStrval_error_inv {buf slot : Bytes} {ptr len : ℕ} {r : StrParsed}
    (h : parseStrval len buf ptr slot = .ok r) (hv : r.verdict = .error) :
    ptr + len < buf.length ∧
      ∀ q payload s : Bytes, payload.length = len → buf.drop ptr ++ q ≠ payload ++ crlf ++ s := by
  by_cases hshort : Short buf ptr len
  · rw [parseStrval_short hshort] at h
    cases h
    cases hv
  · rcases parseStrval_cases buf ptr len slot hshort with
      ⟨hf, -⟩ | ⟨-, hin, hnone⟩ | ⟨payload, s, -, -, hok⟩
    · rw [hf] at h
      cases h
    · exact ⟨hin, hnone⟩
    · rw [hok] at h
      cases h
      cases hv

/-- An item rejected is no start of an item of the grammar. -/
theorem parseStr_error_sound {buf : Bytes} {ptr : ℕ} {slot : Bytes} {r : StrParsed}
    (h : parseStr (-1) buf ptr slot = .ok r) (hv : r.verdict = .error) (q : Bytes) {j : Item}
    (hj : j.len.Strict) (x : Bytes) : buf.drop ptr ++ q ≠ j.text ++ x := by
  intro heq
  rw [Item.text_append] at heq
  rw [parseStr_eq] at h
  cases hscan : scanLine 36 (buf.drop ptr) with
  | wait =>
      rw [hscan] at h
      cases h
      cases hv
  | error =>
      have hfail := scanLine_error_append hscan q
      have hbare := hj.bare_length
      rw [heq, scanLine_text 36 j.len _ (by rw [List.length_append, text_length]; omega)] at hfail
      cases hfail
  | ok v n =>
      obtain ⟨t, rfl, rfl, -, hline⟩ := scanLine_ok hscan
      have hlow : -1 ≤ wrap32 t.value := by
        rcases hline with ⟨s, hs⟩ | hs
        · rw [hs, List.append_assoc, List.cons_append, List.cons_append, List.cons.injEq] at heq
          rw [(text_append_inj heq.2).1, hj.wrap]
          exact hj.2.1
        · rw [hs, List.cons_append, List.cons_append, List.cons.injEq] at heq
          exact hj.of_prefix heq.2
      simp only [hscan, if_neg (not_lt.mpr hlow)] at h
      split_ifs at h with hnull
      · cases h
        cases hv
      · obtain ⟨len, hlen⟩ : ∃ len : ℕ, wrap32 t.value = len :=
          ⟨(wrap32 t.value).toNat, by omega⟩
        rw [hlen] at h
        obtain ⟨hin, hnone⟩ := parseStrval_error_inv h hv
        rcases hline with ⟨s, hs⟩ | hs
        · rw [drop_line hs] at hnone
          rw [hs, List.append_assoc, List.cons_append, List.cons_append, List.cons.injEq] at heq
          obtain ⟨rfl, hbody⟩ := text_append_inj heq.2
          cases j with
          | null u hu =>
              have hclash := hlen.symm.trans hu
              omega
          | bulk u payload hu =>
              have hsame := hlen.symm.trans hu
              exact hnone q payload x (by omega) hbody
        · rw [end_of_cut_line hs] at hin
          omega

theorem wellFormed_tokens {b : Bytes} {ptr : ℕ} {params : List Bytes}
    (h : WellFormed b ptr params) {s : Bytes} (hs : TokenAt b s) : ¬ LooseToken s := by
  cases h with
  | request count items rest hb hcount hitems harity =>
      cases hs with
      | count _ hs =>
          rw [hb, List.cons_append, List.cons.injEq] at hs
          rw [← hs.2]
          exact not_looseToken hcount _
      | len u is _ hs hmore =>
          rw [hb, List.cons_append, List.cons_append, List.cons.injEq] at hs
          obtain ⟨rfl, hrest⟩ := text_append_inj hs.2
          rw [hcount.wrap] at hmore
          obtain ⟨later, rfl, hlater⟩ := itemsText_prefix hrest.symm (by omega)
          cases later with
          | nil =>
              rw [List.append_nil] at harity
              omega
          | cons j later =>
              rw [itemsText_cons, List.append_assoc, Item.text_append, List.cons_append,
                List.cons.injEq] at hlater
              rw [hlater.2]
              exact not_looseToken (hitems j (by simp)) _

/-- What was read with no loose token is well formed. -/
theorem wellFormed_of_done {b r : Bytes} {h : IntToken} {is : List Item} {s : Bytes}
    (hb : b = 42 :: h.text ++ r) (hs : r = itemsText is ++ s)
    (hk : is.length = (wrap32 h.value).toNat)
    (htight : ∀ s, TokenAt b s → ¬ LooseToken s) :
    WellFormed b (1 + h.text.length + (itemsText is).length) (payloads is) := by
  have hcount : h.Strict := strict_of_not_loose (htight (h.text ++ r) (.count _ hb))
  refine .request h is s (by rw [hb, hs]) hcount ?_ (by rw [hk, hcount.wrap])
  intro i hi
  obtain ⟨pre, post, rfl⟩ := List.append_of_mem hi
  have hat : TokenAt b (i.len.text ++ (i.body ++ (itemsText post ++ s))) := by
    refine .len h pre _ ?_ ?_
    · rw [hb, hs]
      simp [itemsText, Item.text]
    · rw [List.length_append, List.length_cons] at hk
      omega
  exact strict_of_not_loose (htight _ hat)

theorem accepted_iff {b : Bytes} {res : Parsed}
    (hres : ({} : YProtoParse).parseRequest b 0 = .ok res) (hok : res.verdict = .ok) :
    WellFormed b res.ptr res.self.getParams ↔ ∀ s, TokenAt b s → ¬ LooseToken s := by
  refine ⟨fun h s hs => wellFormed_tokens h hs, fun htight => ?_⟩
  cases parseRequest_fresh hres with
  | noCount hscan => cases hok
  | badCount hscan => cases hok
  | lowCount h hcount hb => cases hok
  | cutDone h hb h3 hcount hk => exact absurd (Or.inl ⟨h, rfl⟩) (htight h.bare (.count _ hb))
  | cutWait h hb h3 hk => cases hok
  | counted h r res hb h3 hcount hloop =>
      have hdrop : b.drop (1 + h.text.length) = r := drop_count_line hb
      cases hloop with
      | done is s hs hk =>
          have hparams : (((YProtoParse.counted (wrap32 h.value)).withItems (payloads is)).cut).getParams =
              payloads is := by
            simp [YProtoParse.getParams, YProtoParse.cut, YProtoParse.withItems,
              YProtoParse.counted, resize]
          rw [hparams]
          exact wellFormed_of_done hb (hdrop.symm.trans hs) hk htight
      | stopped is s r' hs hfit hk hv hr => exact absurd hok hv
      | doneCut is t hs ht3 ht hk =>
          refine absurd (Or.inl ⟨t, rfl⟩) (htight t.bare (.len h is _ ?_ (by omega)))
          rw [hb, ← hs, hdrop]
      | waitCut is t hs hfit ht3 ht hk => cases hok

theorem rejected_sound {b : Bytes} {res : Parsed}
    (hres : ({} : YProtoParse).parseRequest b 0 = .ok res) (herr : res.verdict = .error)
    (q : Bytes) (ptr : ℕ) (params : List Bytes) : ¬ WellFormed (b ++ q) ptr params := by
  rintro ⟨count, items, rest, hb, hcount, hitems, harity⟩
  have hbare := hcount.bare_length
  cases parseRequest_fresh hres with
  | noCount hscan => cases herr
  | badCount hscan =>
      have hfail := scanLine_error_append hscan q
      rw [hb, scanLine_text 42 count _ (by rw [List.length_append, text_length]; omega)] at hfail
      cases hfail
  | lowCount h hlow hline =>
      rcases hline with ⟨r, rfl⟩ | rfl
      · rw [List.append_assoc, List.cons_append, List.cons_append, List.cons.injEq] at hb
        rw [(text_append_inj hb.2).1, hcount.wrap] at hlow
        exact absurd hcount.2.1 (not_le.mpr hlow)
      · rw [List.cons_append, List.cons_append, List.cons.injEq] at hb
        exact absurd (hcount.of_prefix hb.2) (not_le.mpr hlow)
  | cutDone h hb h3 hcount hk => cases herr
  | cutWait h hb h3 hk => cases herr
  | counted h r res hbr h3 hlow hloop =>
      have hdrop : b.drop (1 + h.text.length) = r := drop_count_line hbr
      cases hloop with
      | done is s hs hk => cases herr
      | doneCut is t hs ht3 ht hk => cases herr
      | waitCut is t hs hfit ht3 ht hk => cases herr
      | stopped is s r' hs hfit hk hv hr =>
          rw [hbr, ← hdrop, hs, List.append_assoc, List.cons_append, List.cons_append,
            List.cons.injEq] at hb
          obtain ⟨rfl, hitemsEq⟩ := text_append_inj hb.2
          rw [List.append_assoc] at hitemsEq
          rw [hcount.wrap] at hk
          obtain ⟨later, rfl, hlater⟩ := itemsText_prefix hitemsEq (by omega)
          cases later with
          | nil =>
              rw [List.append_nil] at harity
              omega
          | cons j later =>
              have hat : b.drop (1 + h.text.length + (itemsText is).length) = s :=
                drop_add_of_append hs
              rw [itemsText_cons, List.append_assoc] at hlater
              rw [← hat] at hlater
              exact parseStr_error_sound hr herr q (hitems j (by simp)) _ hlater

/-- What a fresh parser accepts is well formed exactly when it came to no loose token, and no
extension of what it rejects is well formed. -/
theorem parser_sound {b : Bytes} {res : Parsed}
    (hres : ({} : YProtoParse).parseRequest b 0 = .ok res) :
    (res.verdict = .ok →
      (WellFormed b res.ptr res.self.getParams ↔ ∀ s, TokenAt b s → ¬ LooseToken s)) ∧
    (res.verdict = .error →
      ∀ (q : Bytes) (ptr : ℕ) (params : List Bytes), ¬ WellFormed (b ++ q) ptr params) :=
  ⟨accepted_iff hres, rejected_sound hres⟩

theorem WellFormed.inside {b : Bytes} {ptr : ℕ} {params : List Bytes}
    (h : WellFormed b ptr params) : ptr ≤ b.length := by
  cases h with
  | request count items rest hb hcount hitems harity =>
      rw [hb]
      simp only [List.length_append, List.length_cons]
      omega

theorem ping_wellFormed : WellFormed (ascii "*1\r\n$4\r\nPING\r\n") 14 [ascii "PING"] :=
  .request ⟨none, [49], List.all_eq_true.mp rfl⟩ [.bulk ⟨none, [52], List.all_eq_true.mp rfl⟩ (ascii "PING") (by decide)] []
    (by decide) ⟨by decide, by decide, by decide⟩
    (by simp only [List.mem_singleton, forall_eq]; exact ⟨by decide, by decide, by decide⟩)
    (by decide)

theorem parser_sound_ping :
    ¬ LooseToken (ascii "1\r\n$4\r\nPING\r\n") ∧ ¬ WellFormed (ascii "PING" ++ crlf) 6 [] := by
  constructor
  · have hres : ({} : YProtoParse).parseRequest (ascii "*1\r\n$4\r\nPING\r\n") 0 =
        .ok ⟨.ok, 14, { nMulti := 1, nNumOfParam := 1, vecParams := [ascii "PING"] }⟩ := by decide
    exact ((parser_sound hres).1 rfl).mp ping_wellFormed _ (.count _ (by decide))
  · have hres : ({} : YProtoParse).parseRequest (ascii "PING") 0 = .ok ⟨.error, 0, {}⟩ := by decide
    exact (parser_sound hres).2 rfl crlf 6 []

/-- A digit run that nothing ends is accepted as a complete request, with the cursor past the end
of the input. -/
theorem parser_accepts_unterminated : ∃ res : Parsed,
    ({} : YProtoParse).parseRequest (ascii "*000") 0 = .ok res ∧ res.verdict = .ok ∧
      ¬ WellFormed (ascii "*000") res.ptr res.self.getParams := by
  refine ⟨⟨.ok, 6, { nMulti := 0 }⟩, by decide, rfl, ?_⟩
  intro h
  have hle : 6 ≤ (ascii "*000").length := h.inside
  exact absurd hle (by decide)

end Yedis
