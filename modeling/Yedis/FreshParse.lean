import Yedis.Grammar

/-!
# One call on a fresh parser

`FreshEnd` lists what `parseRequest` can answer on a fresh parser: it stops in the
count line, or it runs the item loop behind a count line that is complete or that
the end of the range cuts off. Two readings of the same bytes as count line and
items agree as far as both go.
-/

namespace Yedis
open IntToken

/-- The parser behind a count line. -/
def YProtoParse.counted (count : ℤ) : YProtoParse := { nMulti := count }

theorem parseRequest_counted {buf r : Bytes} {h : IntToken} (hb : buf = 42 :: h.text ++ r)
    (h3 : 3 ≤ (h.text ++ r).length) (hcount : -1 ≤ wrap32 h.value) :
    ({} : YProtoParse).parseRequest buf 0 =
      strlistLoop buf (wrap32 h.value).toNat (.counted (wrap32 h.value)) (1 + h.text.length) := by
  rw [parseRequest_eq rfl, List.drop_zero]
  have hscan : scanLine 42 buf = .ok (wrap32 h.value) (1 + h.text.length) := by
    rw [hb]
    exact scanLine_text 42 h r h3
  rw [hscan]
  simp only [if_neg (show ¬ wrap32 h.value < -1 by omega), YProtoParse.parseStrlist, Nat.zero_add]
  rw [show wrap32 h.value - ((0 : ℕ) : ℤ) = wrap32 h.value by omega]
  rfl

theorem counted_withItems (count : ℤ) (ps : List Bytes) :
    (YProtoParse.counted count).withItems ps =
      { nMulti := count, nNumOfParam := ps.length, vecParams := ps } := by
  simp [YProtoParse.counted, YProtoParse.withItems]

theorem counted_cut (count : ℤ) (ps : List Bytes) :
    ((YProtoParse.counted count).withItems ps).cut =
      { nMulti := count, nNumOfParam := ps.length, vecParams := ps } := by
  rw [counted_withItems]
  simp [YProtoParse.cut, resize]

theorem counted_withParam (count : ℤ) (ps : List Bytes) (r : StrParsed) :
    (((YProtoParse.counted count).withItems ps).withParam r).vecParams = ps ++ [r.result] := by
  rw [counted_withItems]
  simp [YProtoParse.withParam, putParam]

/-- Behind the end of the range the loop waits for a length line. -/
theorem strlistLoop_past_end {buf : Bytes} {k : ℕ} {self : YProtoParse} {ptr : ℕ}
    (hlen : self.nParamLen = -1) (hnum : self.nNumOfParam ≤ self.vecParams.length)
    (hptr : buf.length ≤ ptr) :
    strlistLoop buf (k + 1) self ptr = .ok ⟨.wait, ptr, self.withParam
      ⟨.wait, ptr, -1, self.vecParams.getD self.nNumOfParam []⟩⟩ := by
  rw [strlistLoop_succ buf k self ptr hnum, hlen, parseStr_eq, List.drop_of_length_le hptr]
  rfl

inductive FreshEnd (buf : Bytes) : Parsed → Prop
  | noCount (hscan : scanLine 42 buf = .wait) : FreshEnd buf ⟨.wait, multiCursor buf 0, {}⟩
  | badCount (hscan : scanLine 42 buf = .error) : FreshEnd buf ⟨.error, multiCursor buf 0, {}⟩
  | lowCount (h : IntToken) (hcount : wrap32 h.value < -1)
      (hb : (∃ r, buf = 42 :: h.text ++ r) ∨ buf = 42 :: h.bare) :
      FreshEnd buf ⟨.error, 1 + h.text.length, .counted (wrap32 h.value)⟩
  | counted (h : IntToken) (r : Bytes) (res : Parsed) (hb : buf = 42 :: h.text ++ r)
      (h3 : 3 ≤ (h.text ++ r).length) (hcount : -1 ≤ wrap32 h.value)
      (hloop : LoopEnd buf (wrap32 h.value).toNat (.counted (wrap32 h.value))
        (1 + h.text.length) res) : FreshEnd buf res
  | cutDone (h : IntToken) (hb : buf = 42 :: h.bare) (h3 : 3 ≤ h.bare.length)
      (hcount : -1 ≤ wrap32 h.value) (hk : (wrap32 h.value).toNat = 0) :
      FreshEnd buf ⟨.ok, buf.length + 2, .counted (wrap32 h.value)⟩
  | cutWait (h : IntToken) (hb : buf = 42 :: h.bare) (h3 : 3 ≤ h.bare.length)
      (hk : 0 < wrap32 h.value) :
      FreshEnd buf ⟨.wait, buf.length + 2,
        (YProtoParse.counted (wrap32 h.value)).withParam ⟨.wait, buf.length + 2, -1, []⟩⟩

theorem parseRequest_fresh {buf : Bytes} {res : Parsed}
    (hres : ({} : YProtoParse).parseRequest buf 0 = .ok res) : FreshEnd buf res := by
  have heq := hres
  rw [parseRequest_eq rfl, List.drop_zero] at heq
  cases hscan : scanLine 42 buf with
  | wait =>
      rw [hscan] at heq
      cases heq
      exact .noCount hscan
  | error =>
      rw [hscan] at heq
      cases heq
      exact .badCount hscan
  | ok v n =>
      obtain ⟨h, rfl, rfl, h4, hline⟩ := scanLine_ok hscan
      simp only [hscan] at heq
      split_ifs at heq with hlt
      · cases heq
        have hlow := FreshEnd.lowCount h hlt hline
        rwa [← Nat.zero_add (1 + h.text.length)] at hlow
      · rcases hline with ⟨r, hb⟩ | hb
        · have h3 : 3 ≤ (h.text ++ r).length := by
            rw [hb, List.cons_append, List.length_cons] at h4
            omega
          rw [parseRequest_counted hb h3 (by omega)] at hres
          exact .counted h r res hb h3 (by omega) (strlistLoop_inv rfl (Nat.zero_le _) hres)
        · rw [hb, List.length_cons] at h4
          have hend : 0 + (1 + h.text.length) = buf.length + 2 := end_of_cut_line hb
          rw [hend, YProtoParse.parseStrlist] at heq
          change strlistLoop buf (wrap32 h.value - ((0 : ℕ) : ℤ)).toNat
            (.counted (wrap32 h.value)) _ = _ at heq
          rw [show wrap32 h.value - ((0 : ℕ) : ℤ) = wrap32 h.value by omega] at heq
          cases hk : (wrap32 h.value).toNat with
          | zero =>
              rw [hk, strlistLoop] at heq
              cases heq
              exact .cutDone h hb (by omega) (by omega) hk
          | succ k =>
              rw [hk, strlistLoop_past_end rfl (Nat.zero_le _) (by omega)] at heq
              cases heq
              exact .cutWait h hb (by omega) (by omega)

theorem Item.text_append_inj {i j : Item} {r q : Bytes} (h : i.text ++ r = j.text ++ q) :
    i = j ∧ r = q := by
  have hlen : i.len = j.len ∧ i.body ++ r = j.body ++ q := by
    apply IntToken.text_append_inj
    simpa [Item.text] using h
  obtain ⟨hl, hbody⟩ := hlen
  cases i with
  | null t ht =>
      cases j with
      | null u hu =>
          cases hl
          exact ⟨rfl, hbody⟩
      | bulk u p hu =>
          cases hl
          omega
  | bulk t p ht =>
      cases j with
      | null u hu =>
          cases hl
          omega
      | bulk u p' hu =>
          cases hl
          simp only [Item.body, List.append_assoc] at hbody
          obtain ⟨rfl, hrest⟩ := List.append_inj hbody (by omega)
          exact ⟨rfl, List.append_cancel_left hrest⟩

/-- Of two readings of the same bytes as items, the one with fewer items is the start of the
other. -/
theorem itemsText_prefix {is js : List Item} {r q : Bytes}
    (h : itemsText is ++ r = itemsText js ++ q) (hle : is.length ≤ js.length) :
    ∃ rest, js = is ++ rest ∧ r = itemsText rest ++ q := by
  induction is generalizing js with
  | nil => exact ⟨js, rfl, h⟩
  | cons i is ih =>
      cases js with
      | nil => simp at hle
      | cons j js =>
          rw [itemsText_cons, itemsText_cons, List.append_assoc, List.append_assoc] at h
          obtain ⟨rfl, hrest⟩ := Item.text_append_inj h
          obtain ⟨rest, rfl, hr⟩ := ih hrest (by simpa using hle)
          exact ⟨rest, rfl, hr⟩

end Yedis
