import Yedis.Grammar
import Yedis.Runs

/-!
# A parser after `reset`

`reset` leaves old strings in the vector. They lie in slots that are not completed yet,
and what a slot holds decides nothing before it is completed. So a parser that was reset
goes on as a new one does, whatever has happened to it before.
-/

namespace Yedis
open Runs

/-- A slot that is not completed keeps what it holds, and this decides nothing. -/
theorem parseStrval_slot (nParamLen : ℤ) (buf : Bytes) (ptr : ℕ) (slot slot' : Bytes) :
    parseStrval nParamLen buf ptr slot' = (parseStrval nParamLen buf ptr slot).map fun r =>
      if r.verdict = .ok then r else { r with result := slot' } := by
  by_cases hneg : nParamLen < 0
  · rw [parseStrval, if_pos hneg, parseStrval, if_pos hneg]
    rfl
  · obtain ⟨len, rfl⟩ : ∃ len : ℕ, nParamLen = len := ⟨nParamLen.toNat, by omega⟩
    by_cases hshort : Short buf ptr len
    · rw [parseStrval_short hshort, parseStrval_short hshort]
      rfl
    · rw [parseStrval_guarded hshort, parseStrval_guarded hshort]
      simp only [bind, Except.bind, pure, Except.pure]
      cases readByte buf (ptr + len) with
      | error f => rfl
      | ok c =>
          by_cases hc : c = 13
          · simp only [hc, ne_eq, not_true_eq_false, if_false]
            cases readByte buf (ptr + len + 1) with
            | error f => rfl
            | ok d =>
                by_cases hd : d = 10
                · simp only [hd, not_true_eq_false, if_false]
                  cases copyRange buf ptr len <;> rfl
                · simp only [hd, not_false_eq_true, if_true]
                  rfl
          · simp only [hc, ne_eq, not_false_eq_true, if_true]
            rfl

theorem parseStr_slot (nParamLen : ℤ) (buf : Bytes) (ptr : ℕ) (slot slot' : Bytes) :
    parseStr nParamLen buf ptr slot' = (parseStr nParamLen buf ptr slot).map fun r =>
      if r.verdict = .ok then r else { r with result := slot' } := by
  by_cases hlen : nParamLen = -1
  · subst hlen
    rw [parseStr_eq, parseStr_eq]
    cases scanLine 36 (buf.drop ptr) with
    | wait => rfl
    | error => rfl
    | ok len n =>
        simp only
        split_ifs
        · rfl
        · rfl
        · exact parseStrval_slot len buf (ptr + n) slot slot'
  · rw [parseStr_pending hlen, parseStr_pending hlen]
    exact parseStrval_slot nParamLen buf ptr slot slot'

theorem take_resize (vec : List Bytes) (n : ℕ) : (resize vec (n + 1)).take n = resize vec n := by
  rw [resize, resize, List.take_append, List.take_take, List.take_replicate, List.length_take]
  congr 2
  · omega
  · omega

theorem resize_of_le {vec : List Bytes} {n : ℕ} (h : n ≤ vec.length) : resize vec n = vec.take n := by
  rw [resize, Nat.sub_eq_zero_of_le h, List.replicate_zero, List.append_nil]

theorem resize_congr {vec vec' : List Bytes} {n : ℕ} (h : vec.take n = vec'.take n) :
    resize vec n = resize vec' n := by
  have hlen := congrArg List.length h
  rw [List.length_take, List.length_take] at hlen
  rw [resize, resize, h, show n - vec.length = n - vec'.length by omega]

namespace YProtoParse

theorem growParams_length (self : YProtoParse) :
    self.nNumOfParam < self.growParams.vecParams.length := by
  unfold growParams
  split
  · simp [resize]
    omega
  · omega

theorem growParams_take (self : YProtoParse) :
    self.growParams.vecParams.take self.nNumOfParam = resize self.vecParams self.nNumOfParam := by
  unfold growParams
  split
  · exact take_resize _ _
  · exact (resize_of_le (by omega)).symm

end YProtoParse

/-- The same members, and the same strings in the slots that are completed. -/
structure ParsersAlike (a b : YProtoParse) : Prop where
  nMulti : a.nMulti = b.nMulti
  nParamLen : a.nParamLen = b.nParamLen
  nNumOfParam : a.nNumOfParam = b.nNumOfParam
  vecParams : a.vecParams.take a.nNumOfParam = b.vecParams.take b.nNumOfParam

/-- The same verdict and cursor, for `ok` the same parameters, and parsers that are alike. -/
def AnswersAlike : Except ParseFault Parsed → Except ParseFault Parsed → Prop
  | .ok r, .ok s => r.verdict = s.verdict ∧ r.ptr = s.ptr ∧
      (r.verdict = .ok → r.self.getParams = s.self.getParams) ∧ ParsersAlike r.self s.self
  | .error f, .error g => f = g
  | _, _ => False

theorem AnswersAlike.stopped {a b : YProtoParse} {verdict : YParseResult} (hv : verdict ≠ .ok)
    (ptr : ℕ) (h : ParsersAlike a b) :
    AnswersAlike (.ok ⟨verdict, ptr, a⟩) (.ok ⟨verdict, ptr, b⟩) :=
  ⟨rfl, rfl, fun hok => absurd hok hv, h⟩

namespace ParsersAlike
variable {a b : YProtoParse}

theorem reset (a b : YProtoParse) : ParsersAlike a.reset b.reset := ⟨rfl, rfl, rfl, rfl⟩

theorem setParams (h : ParsersAlike a b) (p : List Bytes) :
    ParsersAlike (a.setParams p) (b.setParams p) where
  nMulti := h.nMulti
  nParamLen := h.nParamLen
  nNumOfParam := h.nNumOfParam
  vecParams := by
    simp only [YProtoParse.setParams]
    rw [h.nNumOfParam]

theorem cut (h : ParsersAlike a b) :
    resize a.vecParams a.nNumOfParam = resize b.vecParams b.nNumOfParam := by
  have hparams := h.vecParams
  rw [← h.nNumOfParam] at hparams ⊢
  exact resize_congr hparams

/-- What is stored in the next slot makes no difference unless the slot is completed. -/
theorem storeParam (h : ParsersAlike a b) {r s : StrParsed} (hlen : r.nParamLen = s.nParamLen) :
    ParsersAlike (a.growParams.storeParam r) (b.growParams.storeParam s) where
  nMulti := by
    unfold YProtoParse.storeParam YProtoParse.growParams
    split <;> split <;> exact h.nMulti
  nParamLen := hlen
  nNumOfParam := by
    simp only [YProtoParse.storeParam, YProtoParse.growParams_nNumOfParam]
    exact h.nNumOfParam
  vecParams := by
    simp only [YProtoParse.storeParam, YProtoParse.growParams_nNumOfParam,
      List.take_set_of_le le_rfl, YProtoParse.growParams_take]
    exact h.cut

theorem storeParam_next (h : ParsersAlike a b) (r : StrParsed) :
    ParsersAlike { a.growParams.storeParam r with
        nNumOfParam := (a.growParams.storeParam r).nNumOfParam + 1 }
      { b.growParams.storeParam r with
        nNumOfParam := (b.growParams.storeParam r).nNumOfParam + 1 } where
  nMulti := (h.storeParam (r := r) rfl).nMulti
  nParamLen := rfl
  nNumOfParam := congrArg (· + 1) (h.storeParam (r := r) rfl).nNumOfParam
  vecParams := by
    have hput : ∀ self : YProtoParse, (self.growParams.storeParam r).vecParams.take
        ((self.growParams.storeParam r).nNumOfParam + 1) =
          resize self.vecParams self.nNumOfParam ++ [r.result] := by
      intro self
      have hlt := self.growParams_length
      simp only [YProtoParse.storeParam, YProtoParse.growParams_nNumOfParam]
      rw [List.take_add_one, List.take_set_of_le le_rfl, self.growParams_take,
        List.getElem?_set_self hlt]
      rfl
    simp only [hput, h.cut]

theorem strlistLoop (h : ParsersAlike a b) (buf : Bytes) (rounds ptr : ℕ) :
    AnswersAlike (strlistLoop buf rounds a ptr) (strlistLoop buf rounds b ptr) := by
  induction rounds generalizing a b ptr with
  | zero =>
      exact ⟨rfl, rfl, fun _ => h.cut, h.nMulti, h.nParamLen, h.nNumOfParam,
        congrArg₂ List.take h.nNumOfParam h.cut⟩
  | succ k ih =>
      rw [Yedis.strlistLoop, Yedis.strlistLoop]
      simp only [YProtoParse.growParams_nParamLen, h.nParamLen, bind, Except.bind]
      rw [parseStr_slot b.nParamLen buf ptr
        (b.growParams.vecParams.getD b.growParams.nNumOfParam [])
        (a.growParams.vecParams.getD a.growParams.nNumOfParam [])]
      cases parseStr b.nParamLen buf ptr
          (b.growParams.vecParams.getD b.growParams.nNumOfParam []) with
      | error f => rfl
      | ok r =>
          simp only [Except.map]
          by_cases hv : r.verdict = .ok
          · simp only [if_pos hv]
            exact ih (h.storeParam_next r) r.ptr
          · simp only [if_neg hv]
            exact .stopped hv r.ptr (h.storeParam rfl)

theorem parseStrlist (h : ParsersAlike a b) (buf : Bytes) (ptr : ℕ) :
    AnswersAlike (a.parseStrlist buf ptr) (b.parseStrlist buf ptr) := by
  unfold YProtoParse.parseStrlist
  rw [h.nMulti, h.nNumOfParam]
  exact h.strlistLoop buf _ ptr

theorem parseRequest (h : ParsersAlike a b) (buf : Bytes) (ptr : ℕ) :
    AnswersAlike (a.parseRequest buf ptr) (b.parseRequest buf ptr) := by
  have hcount : ∀ count, ParsersAlike { a with nMulti := count } { b with nMulti := count } :=
    fun _ => ⟨rfl, h.nParamLen, h.nNumOfParam, h.vecParams⟩
  by_cases hmulti : a.nMulti = -1
  · rw [parseRequest_eq hmulti, parseRequest_eq (h.nMulti.symm.trans hmulti)]
    cases scanLine 42 (buf.drop ptr) with
    | wait => exact .stopped (by decide) _ h
    | error => exact .stopped (by decide) _ h
    | ok count n =>
        simp only
        split_ifs
        · exact .stopped (by decide) _ (hcount count)
        · exact (hcount count).parseStrlist buf (ptr + n)
  · rw [parseRequest_resumed hmulti, parseRequest_resumed (h.nMulti ▸ hmulti)]
    exact h.parseStrlist buf ptr

end ParsersAlike

/-- What is called on a parser, and what it answers. -/
inductive ParserCall
  | parseRequest (buf : Bytes) (ptr : ℕ) (verdict : YParseResult) (cursor : ℕ)
      (params : Option (List Bytes))
  | setParams (p : List Bytes)
  | reset

/-- The parameters are read only after `ok`. -/
def Parsed.call (buf : Bytes) (ptr : ℕ) (res : Parsed) : ParserCall :=
  .parseRequest buf ptr res.verdict res.ptr
    (if res.verdict = .ok then some res.self.getParams else none)

inductive ParserStep (self : YProtoParse) : ParserCall → YProtoParse → Prop
  | parseRequest {buf : Bytes} {ptr : ℕ} {res : Parsed} (hres : self.parseRequest buf ptr = .ok res) :
      ParserStep self (res.call buf ptr) res.self
  | setParams (p : List Bytes) : ParserStep self (.setParams p) (self.setParams p)
  | reset : ParserStep self .reset self.reset

theorem ParsersAlike.step {a b a' : YProtoParse} {call : ParserCall} (h : ParsersAlike a b)
    (hstep : ParserStep a call a') : ∃ b', ParserStep b call b' ∧ ParsersAlike a' b' := by
  cases hstep with
  | parseRequest hres =>
      rename_i buf ptr r
      have hanswer := h.parseRequest buf ptr
      rw [hres] at hanswer
      cases hb : b.parseRequest buf ptr with
      | error f =>
          rw [hb] at hanswer
          exact hanswer.elim
      | ok s =>
          rw [hb] at hanswer
          obtain ⟨hverdict, hptr, hparams, halike⟩ := hanswer
          have hcall : r.call buf ptr = s.call buf ptr := by
            rw [Parsed.call, Parsed.call, ← hverdict, hptr]
            split_ifs with hok
            · rw [hparams hok]
            · rfl
          rw [hcall]
          exact ⟨s.self, .parseRequest hb, halike⟩
  | setParams p => exact ⟨_, .setParams p, h.setParams p⟩
  | reset => exact ⟨_, .reset, .reset a b⟩

/-- After `reset` the next call answers as it does on a new parser, whatever state the parser was
in, and so does every later call: a run on the one is a run on the other, with the same answers. -/
theorem reset_parser_is_fresh (self : YProtoParse) :
    (∀ buf ptr, AnswersAlike (self.reset.parseRequest buf ptr)
      (({} : YProtoParse).parseRequest buf ptr)) ∧
    ∀ trace after, Run ParserStep self.reset trace after →
      ∃ trace' after', Run ParserStep {} trace' after' ∧ labels trace' = labels trace := by
  have hfresh : ParsersAlike self.reset {} := ⟨rfl, rfl, rfl, rfl⟩
  refine ⟨fun buf ptr => hfresh.parseRequest buf ptr, fun trace after run => ?_⟩
  obtain ⟨trace', after', hrun, hlabels, -⟩ := run.simulates hfresh
    fun a call a' b h hstep => h.step hstep
  exact ⟨trace', after', hrun, hlabels⟩

end Yedis
