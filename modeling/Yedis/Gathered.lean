import Yedis.FreshParse

/-!
# The parameters a fresh parser has gathered

Whatever `parseRequest` answers, the parameter vector of a fresh parser afterwards
is the payloads of complete items that follow a count line, with at most two empty
strings behind them for items that are not complete.
-/

namespace Yedis
open IntToken

/-- The parameter vectors a fresh parser can be left with after `b`. -/
inductive Gathered (b : Bytes) : List Bytes → Prop
  | none : Gathered b []
  | cutCount (h : IntToken) (hb : b = 42 :: h.bare) : Gathered b [[]]
  | items (h : IntToken) (is : List Item) (s : Bytes) (hb : b = 42 :: h.text ++ (itemsText is ++ s))
      (k : ℕ) (hk : k ≤ 2) :
      Gathered b (payloads is ++ List.replicate k [])

theorem parseStrval_result {buf : Bytes} {ptr len : ℕ} {slot : Bytes} {r : StrParsed}
    (h : parseStrval len buf ptr slot = .ok r) (hv : r.verdict ≠ .ok) : r.result = slot := by
  by_cases hshort : Short buf ptr len
  · rw [parseStrval_short hshort] at h
    cases h
    rfl
  · rcases parseStrval_cases buf ptr len slot hshort with
      ⟨hf, -⟩ | ⟨he, -, -⟩ | ⟨payload, s, -, -, hok⟩
    · rw [hf] at h
      cases h
    · rw [he] at h
      cases h
      rfl
    · rw [hok] at h
      cases h
      exact absurd rfl hv

/-- An item that is not completed leaves its slot alone. -/
theorem parseStr_result {buf : Bytes} {ptr : ℕ} {slot : Bytes} {r : StrParsed}
    (h : parseStr (-1) buf ptr slot = .ok r) (hv : r.verdict ≠ .ok) : r.result = slot := by
  rw [parseStr_eq] at h
  cases hscan : scanLine 36 (buf.drop ptr) with
  | wait =>
      rw [hscan] at h
      cases h
      rfl
  | error =>
      rw [hscan] at h
      cases h
      rfl
  | ok v n =>
      simp only [hscan] at h
      split_ifs at h with hlt hnull
      · cases h
        rfl
      · cases h
        exact absurd rfl hv
      · obtain ⟨len, hlen⟩ : ∃ len : ℕ, v = len := ⟨v.toNat, by omega⟩
        rw [hlen] at h
        exact parseStrval_result h hv

theorem parseRequest_gathered {b : Bytes} {res : Parsed}
    (hres : ({} : YProtoParse).parseRequest b 0 = .ok res) : Gathered b res.self.getParams := by
  cases parseRequest_fresh hres with
  | noCount hscan => exact .none
  | badCount hscan => exact .none
  | lowCount h hcount hb => exact .none
  | cutDone h hb h3 hcount hk => exact .none
  | cutWait h hb h3 hk => exact .cutCount h hb
  | counted h r res hb h3 hcount hloop =>
      have hdrop : b.drop (1 + h.text.length) = r := drop_count_line hb
      rw [hdrop.symm] at hb
      cases hloop with
      | done is s hs hk =>
          have hparams : Gathered b _ := .items h is s (by rw [hb, hs]) 0 (by omega)
          rw [YProtoParse.getParams, counted_cut]
          simpa using hparams
      | stopped is s r' hs hfit hk hv hr =>
          have hslot : r'.result = [] := by
            rw [parseStr_result hr hv, counted_withItems]
            simp [YProtoParse.counted]
          have hparams : Gathered b _ := .items h is s (by rw [hb, hs]) 1 (by omega)
          rw [YProtoParse.getParams, counted_withParam, hslot]
          exact hparams
      | doneCut is t hs ht3 ht hk =>
          have hparams : Gathered b _ := .items h is (36 :: t.bare) (by rw [hb, hs]) 1 (by omega)
          rw [YProtoParse.getParams, counted_cut]
          exact hparams
      | waitCut is t hs hfit ht3 ht hk =>
          have hparams : Gathered b _ := .items h is (36 :: t.bare) (by rw [hb, hs]) 2 (by omega)
          rw [YProtoParse.getParams, counted_withParam, counted_withItems]
          simpa using hparams

end Yedis
