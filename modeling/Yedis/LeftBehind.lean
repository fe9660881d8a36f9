import Yedis.PartialRequest

/-!
# What any bytes leave behind

`LeftBehind b g` extends `PartialRequest` to the bytes a fresh parser accepts. A
parser that comes to an end has gathered exactly what the bytes leave behind,
whatever its answer.
-/

namespace Yedis
open IntToken

inductive LeftBehind (b : Bytes) : List Bytes → Prop
  | unfinished {g : List Bytes} (h : PartialRequest b g) : LeftBehind b g
  /-- there are as many complete items as the count says -/
  | complete (t : IntToken) (is : List Item) (s : Bytes)
      (hb : b = 42 :: t.text ++ (itemsText is ++ s)) (hfit : ItemsFit is s)
      (hk : is.length = (wrap32 t.value).toNat) : LeftBehind b (payloads is)
  /-- the last one is a length of -1 that is cut off -/
  | lastNull (t : IntToken) (is : List Item) (s : Bytes)
      (hb : b = 42 :: t.text ++ (itemsText is ++ s)) (hfit : ItemsFit is s)
      (hk : is.length + 1 = (wrap32 t.value).toNat) (hcut : CutNull s) :
      LeftBehind b (payloads is ++ [[]])

theorem ItemsFit.later {is js : List Item} {s : Bytes} (h : ItemsFit (is ++ js) s) :
    ItemsFit js s := by
  induction is with
  | nil => exact h
  | cons i is ih => exact ih h.2

theorem count_line_inj {b x y : Bytes} {t u : IntToken} (hb : b = 42 :: t.text ++ x)
    (hb' : b = 42 :: u.text ++ y) : t = u ∧ x = y := by
  rw [hb, List.cons_append, List.cons_append, List.cons.injEq] at hb'
  exact text_append_inj hb'.2

/-- Items that fit are a whole reading where no item follows. -/
theorem no_more_items {is js : List Item} {s q : Bytes}
    (h : itemsText is ++ s = itemsText js ++ q) (hjs : ItemsFit js q) (hs : NoItem s)
    (hle : is.length ≤ js.length) : is = js ∧ s = q := by
  obtain ⟨rest, rfl, hrest⟩ := itemsText_prefix h hle
  cases rest with
  | nil => exact ⟨(List.append_nil is).symm, hrest⟩
  | cons i rest =>
      rw [itemsText_cons, List.append_assoc] at hrest
      exact absurd hjs.later.1 (hs i _ hrest)

theorem PartialRequest.of_complete {b : Bytes} {g : List Bytes} (h : PartialRequest b g)
    {t : IntToken} {is : List Item} {s : Bytes} (hb : b = 42 :: t.text ++ (itemsText is ++ s))
    (hfit : ItemsFit is s) (hk : is.length = (wrap32 t.value).toNat) : g = payloads is := by
  cases h with
  | noItems hno =>
      have hzero : is.length = 0 := by
        have := hno t (Or.inl ⟨_, hb⟩)
        omega
      rw [List.length_eq_zero_iff.mp hzero]
      rfl
  | cutCount u hb' => exact (cutCount_ne hb' hb).elim
  | tooFew u js q hb' hfit' hmore hq hcut =>
      obtain ⟨rfl, hitems⟩ := count_line_inj hb' hb
      obtain ⟨rfl, -⟩ := no_more_items hitems hfit hq (by omega)
      omega
  | cutNull u js q hb' hfit' hmore hcut =>
      obtain ⟨rfl, hitems⟩ := count_line_inj hb' hb
      obtain ⟨rfl, -⟩ := no_more_items hitems hfit hcut.noItem (by omega)
      omega

theorem PartialRequest.not_lastNull {b : Bytes} {g : List Bytes} (h : PartialRequest b g)
    {t : IntToken} {is : List Item} {s : Bytes} (hb : b = 42 :: t.text ++ (itemsText is ++ s))
    (hfit : ItemsFit is s) (hk : is.length + 1 = (wrap32 t.value).toNat) (hs : CutNull s) :
    False := by
  cases h with
  | noItems hno =>
      have := hno t (Or.inl ⟨_, hb⟩)
      omega
  | cutCount u hb' => exact cutCount_ne hb' hb
  | tooFew u js q hb' hfit' hmore hq hcut =>
      obtain ⟨rfl, hitems⟩ := count_line_inj hb' hb
      obtain ⟨-, rfl⟩ := no_more_items hitems hfit hq (by omega)
      exact hcut hs
  | cutNull u js q hb' hfit' hmore hcut =>
      obtain ⟨rfl, hitems⟩ := count_line_inj hb' hb
      obtain ⟨rfl, -⟩ := no_more_items hitems hfit hcut.noItem (by omega)
      omega

theorem LeftBehind.unique {b : Bytes} {g g' : List Bytes} (h : LeftBehind b g)
    (h' : LeftBehind b g') : g = g' := by
  cases h with
  | unfinished hpart =>
      cases h' with
      | unfinished hpart' => exact hpart.unique hpart'
      | complete t is s hb hfit hk => exact hpart.of_complete hb hfit hk
      | lastNull t is s hb hfit hk hcut => exact (hpart.not_lastNull hb hfit hk hcut).elim
  | complete t is s hb hfit hk =>
      cases h' with
      | unfinished hpart' => exact (hpart'.of_complete hb hfit hk).symm
      | complete u js q hb' hfit' hk' =>
          obtain ⟨rfl, hitems⟩ := count_line_inj hb hb'
          obtain ⟨rest, rfl, -⟩ := itemsText_prefix hitems (by omega)
          rw [List.length_append] at hk'
          rw [List.length_eq_zero_iff.mp (show rest.length = 0 by omega), List.append_nil]
      | lastNull u js q hb' hfit' hk' hcut' =>
          obtain ⟨rfl, hitems⟩ := count_line_inj hb' hb
          obtain ⟨rfl, -⟩ := no_more_items hitems hfit hcut'.noItem (by omega)
          omega
  | lastNull t is s hb hfit hk hcut =>
      cases h' with
      | unfinished hpart' => exact (hpart'.not_lastNull hb hfit hk hcut).elim
      | complete u js q hb' hfit' hk' =>
          obtain ⟨rfl, hitems⟩ := count_line_inj hb hb'
          obtain ⟨rfl, -⟩ := no_more_items hitems hfit' hcut.noItem (by omega)
          omega
      | lastNull u js q hb' hfit' hk' hcut' =>
          obtain ⟨rfl, hitems⟩ := count_line_inj hb hb'
          obtain ⟨rfl, -⟩ := no_more_items hitems hfit' hcut.noItem (by omega)
          rfl

/-- Where the loop of `parseStrlist` takes all its rounds, the items it passes fit. -/
theorem itemsFit_of_loop {buf s : Bytes} {is : List Item} {k : ℕ} {self : YProtoParse} {ptr : ℕ}
    {res : Parsed} (hs : buf.drop ptr = itemsText is ++ s) (hk : is.length ≤ k)
    (hlen : self.nParamLen = -1) (hnum : self.nNumOfParam ≤ self.vecParams.length)
    (h : strlistLoop buf k self ptr = .ok res) (hv : res.verdict = .ok) : ItemsFit is s := by
  induction is generalizing k self ptr with
  | nil => exact trivial
  | cons i is ih =>
      obtain ⟨k, rfl⟩ : ∃ k', k = k' + 1 := ⟨k - 1, by rw [List.length_cons] at hk; omega⟩
      rw [itemsText_cons, List.append_assoc] at hs
      rw [strlistLoop_succ buf k self ptr hnum, hlen] at h
      cases hr : parseStr (-1) buf ptr (self.vecParams.getD self.nNumOfParam []) with
      | error f =>
          rw [hr] at h
          cases h
      | ok r =>
          rw [hr] at h
          by_cases hrv : r.verdict = .ok
          · rcases parseStr_ok_inv hr hrv with ⟨j, q, hq, hfits, rfl⟩ | ⟨t, ht, -⟩
            · rw [hs] at hq
              obtain ⟨rfl, hrest⟩ := Item.text_append_inj hq
              rw [← hrest] at hfits
              have hloop := strlistLoop_round k hnum (by rw [hlen]; exact hr)
              rw [strlistLoop_succ buf k self ptr hnum, hlen, hr] at hloop
              rw [hloop] at h
              exact ⟨hfits, ih (drop_add_of_append hs) (by simpa using hk) rfl
                (self.withItems_bound _ hnum) h⟩
            · rw [hs, Item.text, List.append_assoc, List.cons_append, List.cons.injEq] at ht
              exact (bare_ne_text_append t i.len _ ht.2.symm).elim
          · simp only [if_neg hrv] at h
            cases h
            exact absurd hv hrv

theorem counted_cut_params (count : ℤ) (ps : List Bytes) :
    (((YProtoParse.counted count).withItems ps).cut).getParams = ps := by
  rw [counted_cut]
  rfl

/-- A fresh parser that comes to an end has gathered what the bytes leave behind. -/
theorem leftBehind_of_parse {b : Bytes} {res : Parsed}
    (hres : ({} : YProtoParse).parseRequest b 0 = .ok res) :
    LeftBehind b res.self.getParams := by
  by_cases hv : res.verdict = .ok
  · cases parseRequest_fresh hres with
    | noCount hscan => cases hv
    | badCount hscan => cases hv
    | lowCount h hcount hb => cases hv
    | cutWait h hb h3 hk => cases hv
    | cutDone h hb h3 hcount hk =>
        refine .unfinished (.noItems fun t ht => ?_)
        by_contra hpos
        have hscan := ht.scan (by omega)
        rw [hb, scanLine_bare 42 h h3] at hscan
        have hvalue := (IntRead.ok.inj hscan).1
        omega
    | counted h r res hb h3 hcount hloop =>
        have hrun := hres
        rw [parseRequest_counted hb h3 hcount] at hrun
        have hdrop : b.drop (1 + h.text.length) = r := drop_count_line hb
        rw [hdrop.symm] at hb
        cases hloop with
        | done is s hs hk =>
            have hfit := itemsFit_of_loop hs hk.le rfl (Nat.zero_le _) hrun rfl
            rw [counted_cut_params]
            exact .complete h is s (by rw [hb, hs]) hfit hk
        | doneCut is t hs ht3 ht hk =>
            have hfit := itemsFit_of_loop hs (by omega) rfl (Nat.zero_le _) hrun rfl
            rw [counted_cut_params]
            exact .lastNull h is (36 :: t.bare) (by rw [hb, hs]) hfit hk ⟨t, rfl, ht3, ht⟩
        | stopped is s r' hs hfit hk hv' hr => exact absurd hv hv'
        | waitCut is t hs hfit ht3 ht hk => cases hv
  · exact .unfinished (partialRequest_of_parse hres hv)

end Yedis
