import Yedis.FreshParse

/-!
# Requests as clients write them

A client sends a command as an array of bulk strings, with the count and the
lengths in decimal. A fresh parser on these bytes, whatever follows them, answers
`ok` with the command as its parameters and the cursor behind it.
-/

namespace Yedis
open IntToken

def IntToken.ofNat (n : ℕ) : IntToken := ⟨none, decimal n, decimal_digits n⟩

@[simp] theorem IntToken.value_ofNat (n : ℕ) : (IntToken.ofNat n).value = n := by
  simp [value, IntToken.ofNat, numeral_decimal]

theorem IntToken.text_ofNat (n : ℕ) : (IntToken.ofNat n).text = decimal n ++ crlf := rfl

def encodeBulk (v : Bytes) : Bytes := 36 :: decimal v.length ++ crlf ++ v ++ crlf

def encodeCommand (ps : List Bytes) : Bytes :=
  42 :: decimal ps.length ++ crlf ++ ps.flatMap encodeBulk

/-- Short bulk strings are items. -/
theorem exists_items (ps : List Bytes) (h : ∀ v ∈ ps, v.length < 2147483648) :
    ∃ is : List Item, itemsText is = ps.flatMap encodeBulk ∧ payloads is = ps := by
  induction ps with
  | nil => exact ⟨[], rfl, rfl⟩
  | cons v ps ih =>
      obtain ⟨is, htext, hpay⟩ := ih fun w hw => h w (List.mem_cons_of_mem _ hw)
      have hv := h v (by simp)
      have hwrap : wrap32 (IntToken.ofNat v.length).value = v.length := by
        rw [value_ofNat]
        exact wrap32_of_range (by omega) (by omega)
      refine ⟨.bulk (IntToken.ofNat v.length) v hwrap :: is, ?_, by simp [hpay, Item.payload]⟩
      rw [itemsText_cons, htext]
      simp [Item.text, Item.len, Item.body, IntToken.text_ofNat, encodeBulk]

theorem length_le_encodeBulk (v : Bytes) : v.length + 1 ≤ (encodeBulk v).length := by
  simp only [encodeBulk, List.length_append, List.length_cons]
  omega

theorem length_le_flatMap_encodeBulk (ps : List Bytes) :
    ps.length ≤ (ps.flatMap encodeBulk).length ∧
      ∀ v ∈ ps, v.length ≤ (ps.flatMap encodeBulk).length := by
  induction ps with
  | nil => simp
  | cons v ps ih =>
      have hv := length_le_encodeBulk v
      rw [List.flatMap_cons, List.length_append, List.length_cons]
      refine ⟨by omega, ?_⟩
      intro w hw
      rcases List.mem_cons.mp hw with rfl | hw
      · omega
      · have := ih.2 w hw
        omega

/-- A fresh parser reads a command back. -/
theorem parseRequest_encodeCommand {buf r : Bytes} {ps : List Bytes}
    (hb : buf = encodeCommand ps ++ r) (hbuf : buf.length < 2147483648) :
    ({} : YProtoParse).parseRequest buf 0 = .ok ⟨.ok, (encodeCommand ps).length,
      { nMulti := ps.length, nNumOfParam := ps.length, vecParams := ps }⟩ := by
  obtain ⟨hcount, hlens⟩ := length_le_flatMap_encodeBulk ps
  have hle : (ps.flatMap encodeBulk).length < 2147483648 := by
    rw [hb] at hbuf
    simp only [encodeCommand, List.length_append] at hbuf
    omega
  obtain ⟨is, htext, hpay⟩ := exists_items ps fun v hv => (hlens v hv).trans_lt hle
  have hlen : is.length = ps.length := by rw [← hpay, payloads_length]
  have hwrap : wrap32 (IntToken.ofNat ps.length).value = ps.length := by
    rw [value_ofNat]
    exact wrap32_of_range (by omega) (by omega)
  have hbuf' : buf = 42 :: (IntToken.ofNat ps.length).text ++ (itemsText is ++ r) := by
    rw [hb, encodeCommand, htext, IntToken.text_ofNat]
    simp
  have hbare : 1 ≤ (decimal ps.length).length := List.length_pos_iff.mpr (decimal_ne_nil _)
  have hdrop : buf.drop (1 + (IntToken.ofNat ps.length).text.length) = itemsText is ++ r := by
    rw [← Nat.zero_add (1 + _)]
    exact drop_line hbuf'
  have hloop := strlistLoop_items hbuf is 0 (.counted ps.length) _ hdrop rfl (Nat.zero_le _)
  rw [hlen, Nat.add_zero] at hloop
  have hcursor : 1 + (IntToken.ofNat ps.length).text.length + (itemsText is).length =
      (encodeCommand ps).length := by
    rw [htext, IntToken.text_ofNat, encodeCommand]
    simp only [List.length_append, List.length_cons]
    omega
  rw [parseRequest_counted hbuf' (by simp [IntToken.text_ofNat]; omega) (by omega), hwrap,
    Int.toNat_natCast, hloop, hpay, hcursor]
  exact congrArg (fun self => Except.ok (Parsed.mk .ok (encodeCommand ps).length self))
    (counted_cut ps.length ps)

end Yedis
