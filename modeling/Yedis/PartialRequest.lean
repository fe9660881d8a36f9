import Yedis.Gathered

/-!
# What an unfinished request leaves behind

`PartialRequest b g` says, in terms of the grammar alone, which parameters `g` remain
of a request `b` that is cut off or not well formed: the payloads of its complete
items, an empty string for the item that is not complete, and a second one where a
length of -1 is cut off. A fresh parser that answers `wait` or `error` has gathered
exactly these.
-/

namespace Yedis
open IntToken

/-- `b` starts with the count line `t`, or is a count line that lacks its CRLF. -/
def CountLine (b : Bytes) (t : IntToken) : Prop :=
  (∃ r, b = 42 :: t.text ++ r) ∨ (b = 42 :: t.bare ∧ 3 ≤ t.bare.length)

/-- No complete item that fits is at the start of `s`. -/
def NoItem (s : Bytes) : Prop := ∀ (i : Item) (q : Bytes), s = i.text ++ q → ¬ i.Fits (i.body ++ q).length

/-- `s` is a length of -1 that lacks its CRLF. -/
def CutNull (s : Bytes) : Prop :=
  ∃ u : IntToken, s = 36 :: u.bare ∧ 3 ≤ u.bare.length ∧ wrap32 u.value = -1

inductive PartialRequest (b : Bytes) : List Bytes → Prop
  /-- there is no count line with a positive count -/
  | noItems (h : ∀ t, CountLine b t → wrap32 t.value ≤ 0) : PartialRequest b []
  /-- the count line lacks its CRLF -/
  | cutCount (t : IntToken) (hb : b = 42 :: t.bare) (h3 : 3 ≤ t.bare.length)
      (hpos : 0 < wrap32 t.value) : PartialRequest b [[]]
  /-- there are fewer complete items than the count says -/
  | tooFew (t : IntToken) (is : List Item) (s : Bytes) (hb : b = 42 :: t.text ++ (itemsText is ++ s))
      (hfit : ItemsFit is s) (hmore : is.length < wrap32 t.value) (hs : NoItem s)
      (hcut : ¬ CutNull s) : PartialRequest b (payloads is ++ [[]])
  /-- the same, and a length of -1 is cut off -/
  | cutNull (t : IntToken) (is : List Item) (s : Bytes)
      (hb : b = 42 :: t.text ++ (itemsText is ++ s)) (hfit : ItemsFit is s)
      (hmore : is.length + 1 < wrap32 t.value) (hcut : CutNull s) :
      PartialRequest b (payloads is ++ [[], []])

theorem CutNull.noItem {s : Bytes} (h : CutNull s) : NoItem s := by
  obtain ⟨u, rfl, -, -⟩ := h
  intro i q heq
  rw [Item.text, List.append_assoc, List.cons_append, List.cons.injEq] at heq
  exact absurd heq.2 (bare_ne_text_append u i.len _)

theorem CountLine.scan {b : Bytes} {t : IntToken} (h : CountLine b t) (hpos : wrap32 t.value ≠ 0) :
    scanLine 42 b = .ok (wrap32 t.value) (1 + t.text.length) := by
  have hbare := bare_length_of_wrap_ne hpos
  rcases h with ⟨r, rfl⟩ | ⟨rfl, h3⟩
  · exact scanLine_text 42 t r (by rw [List.length_append, text_length]; omega)
  · exact scanLine_bare 42 t h3

/-- Bytes are read as items that fit in one way only. -/
theorem itemsFit_unique {is js : List Item} {s q : Bytes}
    (h : itemsText is ++ s = itemsText js ++ q) (his : ItemsFit is s) (hjs : ItemsFit js q)
    (hs : NoItem s) (hq : NoItem q) : is = js ∧ s = q := by
  induction is generalizing js with
  | nil =>
      cases js with
      | nil => exact ⟨rfl, h⟩
      | cons j js =>
          rw [itemsText_nil, List.nil_append, itemsText_cons, List.append_assoc] at h
          exact absurd hjs.1 (hs j _ h)
  | cons i is ih =>
      cases js with
      | nil =>
          rw [itemsText_nil, List.nil_append, itemsText_cons, List.append_assoc] at h
          exact absurd his.1 (hq i _ h.symm)
      | cons j js =>
          rw [itemsText_cons, itemsText_cons, List.append_assoc, List.append_assoc] at h
          obtain ⟨rfl, hrest⟩ := Item.text_append_inj h
          obtain ⟨rfl, rfl⟩ := ih hrest his.2 hjs.2
          exact ⟨rfl, rfl⟩

/-- Two readings of a request have the same count, items and rest. -/
theorem reading_unique {b : Bytes} {t u : IntToken} {is js : List Item} {s q : Bytes}
    (hb : b = 42 :: t.text ++ (itemsText is ++ s)) (hb' : b = 42 :: u.text ++ (itemsText js ++ q))
    (his : ItemsFit is s) (hjs : ItemsFit js q) (hs : NoItem s) (hq : NoItem q) :
    is = js ∧ s = q := by
  rw [hb, List.cons_append, List.cons_append, List.cons.injEq] at hb'
  exact itemsFit_unique (text_append_inj hb'.2).2 his hjs hs hq

theorem cutCount_ne {b r : Bytes} {t u : IntToken} (hb : b = 42 :: t.bare)
    (hb' : b = 42 :: u.text ++ r) : False := by
  rw [hb, List.cons_append, List.cons.injEq] at hb'
  exact bare_ne_text_append t u r hb'.2

theorem PartialRequest.unique {b : Bytes} {g g' : List Bytes} (h : PartialRequest b g)
    (h' : PartialRequest b g') : g = g' := by
  cases h with
  | noItems hno =>
      cases h' with
      | noItems => rfl
      | cutCount t hb h3 hpos => exact absurd (hno t (Or.inr ⟨hb, h3⟩)) (by omega)
      | tooFew t is s hb hfit hmore => exact absurd (hno t (Or.inl ⟨_, hb⟩)) (by omega)
      | cutNull t is s hb hfit hmore => exact absurd (hno t (Or.inl ⟨_, hb⟩)) (by omega)
  | cutCount t hb h3 hpos =>
      cases h' with
      | noItems hno => exact absurd (hno t (Or.inr ⟨hb, h3⟩)) (by omega)
      | cutCount => rfl
      | tooFew u is s hb' => exact (cutCount_ne hb hb').elim
      | cutNull u is s hb' => exact (cutCount_ne hb hb').elim
  | tooFew t is s hb hfit hmore hs hcut =>
      cases h' with
      | noItems hno => exact absurd (hno t (Or.inl ⟨_, hb⟩)) (by omega)
      | cutCount u hb' => exact (cutCount_ne hb' hb).elim
      | tooFew u js q hb' hfit' hmore' hq =>
          rw [(reading_unique hb hb' hfit hfit' hs hq).1]
      | cutNull u js q hb' hfit' hmore' hcut' =>
          obtain ⟨-, rfl⟩ := reading_unique hb hb' hfit hfit' hs hcut'.noItem
          exact absurd hcut' hcut
  | cutNull t is s hb hfit hmore hcut =>
      cases h' with
      | noItems hno => exact absurd (hno t (Or.inl ⟨_, hb⟩)) (by omega)
      | cutCount u hb' => exact (cutCount_ne hb' hb).elim
      | tooFew u js q hb' hfit' hmore' hq hcut' =>
          obtain ⟨-, rfl⟩ := reading_unique hb hb' hfit hfit' hcut.noItem hq
          exact absurd hcut hcut'
      | cutNull u js q hb' hfit' hmore' hcut' =>
          rw [(reading_unique hb hb' hfit hfit' hcut.noItem hcut'.noItem).1]

/-- Where `parseStr` does not complete an item, there is none, and no length of -1 cut off. -/
theorem parseStr_stops {buf s : Bytes} {ptr : ℕ} {slot : Bytes} {r : StrParsed}
    (hs : buf.drop ptr = s) (h : parseStr (-1) buf ptr slot = .ok r) (hv : r.verdict ≠ .ok) :
    NoItem s ∧ ¬ CutNull s := by
  constructor
  · intro i q heq hfits
    rw [parseStr_fits (hs.trans heq) hfits] at h
    cases h
    exact hv rfl
  · rintro ⟨u, rfl, h3, hu⟩
    rw [parseStr_eq, hs, scanLine_bare 36 u h3, hu] at h
    cases h
    exact hv rfl

theorem CountLine.value_unique {b : Bytes} {t h : IntToken} (ht : CountLine b t)
    (hb : (∃ r, b = 42 :: h.text ++ r) ∨ b = 42 :: h.bare) (htz : wrap32 t.value ≠ 0)
    (hhz : wrap32 h.value ≠ 0) : wrap32 t.value = wrap32 h.value := by
  have hline : CountLine b h := by
    rcases hb with hb | hb
    · exact Or.inl hb
    · rcases ht with ⟨r, hr⟩ | ⟨hr, h3⟩
      · exact (cutCount_ne hb hr).elim
      · refine Or.inr ⟨hb, ?_⟩
        rw [hb, List.cons.injEq] at hr
        rw [hr.2]
        exact h3
  have hscan := ht.scan htz
  rw [hline.scan hhz] at hscan
  exact (IntRead.ok.inj hscan).1.symm

/-- A fresh parser that does not answer `ok` has gathered what the request leaves behind. -/
theorem partialRequest_of_parse {b : Bytes} {res : Parsed}
    (hres : ({} : YProtoParse).parseRequest b 0 = .ok res) (hv : res.verdict ≠ .ok) :
    PartialRequest b res.self.getParams := by
  cases parseRequest_fresh hres with
  | noCount hscan =>
      refine .noItems fun t ht => ?_
      by_contra hpos
      rw [ht.scan (by omega)] at hscan
      cases hscan
  | badCount hscan =>
      refine .noItems fun t ht => ?_
      by_contra hpos
      rw [ht.scan (by omega)] at hscan
      cases hscan
  | lowCount h hcount hb =>
      refine .noItems fun t ht => ?_
      by_contra hpos
      have hvalue := ht.value_unique hb (by omega) (by omega)
      omega
  | cutDone h hb h3 hcount hk => exact absurd rfl hv
  | cutWait h hb h3 hk => exact .cutCount h hb h3 hk
  | counted h r res hb h3 hcount hloop =>
      have hdrop : b.drop (1 + h.text.length) = r := drop_count_line hb
      rw [hdrop.symm] at hb
      cases hloop with
      | done is s hs hk => exact absurd rfl hv
      | doneCut is t hs ht3 ht hk => exact absurd rfl hv
      | stopped is s r' hs hfit hk hv' hr =>
          have hslot : r'.result = [] := by
            rw [parseStr_result hr hv, counted_withItems]
            simp [YProtoParse.counted]
          have hat : b.drop (1 + h.text.length + (itemsText is).length) = s := drop_add_of_append hs
          obtain ⟨hno, hcut⟩ := parseStr_stops hat hr hv
          rw [YProtoParse.getParams, counted_withParam, hslot]
          exact .tooFew h is s (by rw [hb, hs]) hfit (by omega) hno hcut
      | waitCut is t hs hfit ht3 ht hk =>
          rw [YProtoParse.getParams, counted_withParam, counted_withItems]
          have hparams : PartialRequest b (payloads is ++ [[], []]) :=
            .cutNull h is (36 :: t.bare) (by rw [hb, hs]) hfit (by omega) ⟨t, rfl, ht3, ht⟩
          simpa using hparams

end Yedis
