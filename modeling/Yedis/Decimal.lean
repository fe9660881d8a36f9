import Mathlib.Data.Nat.Digits.Lemmas
import Mathlib.Tactic.Common

/-!
# Byte strings and decimal text

Byte strings are lists of `UInt8`. `numeral b` is the value of a digit string in
base `b`, `decimal` is the text `printf` writes for an unsigned number and
`signedDecimal` the one it writes for a signed number. Decimal text is read back
to its number, and a digit string without a leading zero is the text of its value.
-/

namespace Yedis

abbrev Bytes := List UInt8

/-- The bytes of an ASCII literal. -/
def ascii (s : String) : Bytes := s.toList.map fun c => c.toNat.toUInt8

/-- The two bytes that end a line. -/
def crlf : Bytes := [13, 10]

@[simp] theorem crlf_length : crlf.length = 2 := rfl

/-- `isdigit` in the C locale. -/
def isDigit (c : UInt8) : Bool := 48 ≤ c.toNat && c.toNat ≤ 57

/-- The value of a digit or of a letter used as a digit. -/
def digitVal (c : UInt8) : ℕ :=
  if isDigit c then c.toNat - 48
  else if 97 ≤ c.toNat ∧ c.toNat ≤ 122 then c.toNat - 87
  else if 65 ≤ c.toNat ∧ c.toNat ≤ 90 then c.toNat - 55
  else 36

def numeral (b : ℕ) (ds : Bytes) : ℕ := ds.foldl (fun v c => v * b + digitVal c) 0

def digit (d : ℕ) : UInt8 := UInt8.ofNat (48 + d)

def decimal (n : ℕ) : Bytes := if n = 0 then [48] else (Nat.digits 10 n).reverse.map digit

def signedDecimal (n : ℤ) : Bytes := if n < 0 then 45 :: decimal n.natAbs else decimal n.natAbs

theorem foldl_numeral (b v : ℕ) (ds : Bytes) :
    ds.foldl (fun v c => v * b + digitVal c) v = v * b ^ ds.length + numeral b ds := by
  induction ds generalizing v with
  | nil => simp [numeral]
  | cons c ds ih =>
      have h0 : numeral b (c :: ds) = digitVal c * b ^ ds.length + numeral b ds := by
        rw [numeral, List.foldl_cons, Nat.zero_mul, Nat.zero_add, ih]
      rw [List.foldl_cons, ih, h0, List.length_cons]
      ring

@[simp] theorem numeral_nil (b : ℕ) : numeral b [] = 0 := rfl

theorem numeral_append (b : ℕ) (xs ys : Bytes) :
    numeral b (xs ++ ys) = numeral b xs * b ^ ys.length + numeral b ys := by
  rw [numeral, List.foldl_append, foldl_numeral]
  rfl

theorem numeral_zeros (b n : ℕ) : numeral b (List.replicate n 48) = 0 := by
  induction n with
  | zero => rfl
  | succ n ih =>
      rw [List.replicate_succ', numeral_append, ih, Nat.zero_mul, Nat.zero_add, numeral,
        List.foldl_cons, Nat.zero_mul]
      rfl

theorem numeral_le_append (b : ℕ) (hb : 1 ≤ b) (xs ys : Bytes) :
    numeral b xs ≤ numeral b (xs ++ ys) := by
  rw [numeral_append]
  have hpow : 1 ≤ b ^ ys.length := Nat.one_le_pow _ _ hb
  nlinarith [Nat.zero_le (numeral b xs), Nat.zero_le (numeral b ys)]

theorem numeral_eq_ofDigits (b : ℕ) (ds : Bytes) :
    numeral b ds = Nat.ofDigits b (ds.reverse.map digitVal) := by
  rw [Nat.ofDigits_eq_foldr, List.foldr_map, List.foldr_reverse, numeral]
  congr 1
  funext v c
  simp only [Nat.cast_id]
  ring

theorem isDigit_iff (c : UInt8) : isDigit c = true ↔ 48 ≤ c.toNat ∧ c.toNat ≤ 57 := by
  simp [isDigit]

theorem digitVal_of_isDigit {c : UInt8} (hc : isDigit c = true) : digitVal c = c.toNat - 48 := by
  simp [digitVal, hc]

theorem digit_toNat {d : ℕ} (hd : d < 10) : (digit d).toNat = 48 + d := by
  have h : 48 + d < 256 := by omega
  simp [digit, UInt8.toNat_ofNat', Nat.mod_eq_of_lt h]

theorem isDigit_digit {d : ℕ} (hd : d < 10) : isDigit (digit d) = true := by
  rw [isDigit_iff, digit_toNat hd]
  omega

theorem digitVal_digit {d : ℕ} (hd : d < 10) : digitVal (digit d) = d := by
  rw [digitVal_of_isDigit (isDigit_digit hd), digit_toNat hd]
  omega

theorem digit_digitVal {c : UInt8} (hc : isDigit c = true) : digit (digitVal c) = c := by
  have h := (isDigit_iff c).mp hc
  apply UInt8.toNat_inj.mp
  rw [digitVal_of_isDigit hc, digit_toNat (by omega)]
  omega

theorem decimal_ne_nil (n : ℕ) : decimal n ≠ [] := by
  unfold decimal
  split
  · simp
  · rename_i h
    simpa [Nat.digits_ne_nil_iff_ne_zero] using h

theorem decimal_length_le {n k : ℕ} (hk : 1 ≤ k) : (decimal n).length ≤ k ↔ n < 10 ^ k := by
  unfold decimal
  split
  · rename_i h
    subst h
    exact iff_of_true hk (Nat.pow_pos (by norm_num))
  · rw [List.length_map, List.length_reverse]
    exact Nat.digits_length_le_iff (by norm_num) n

theorem decimal_digits (n : ℕ) : ∀ c ∈ decimal n, isDigit c = true := by
  intro c hc
  unfold decimal at hc
  split at hc
  · rw [List.mem_singleton.mp hc]
    rfl
  · obtain ⟨d, hd, rfl⟩ := List.mem_map.mp hc
    exact isDigit_digit (Nat.digits_lt_base (by norm_num) (List.mem_reverse.mp hd))

/-- Decimal text is read back to its number. -/
theorem numeral_decimal (n : ℕ) : numeral 10 (decimal n) = n := by
  by_cases h : n = 0
  · subst h
    rfl
  · rw [numeral_eq_ofDigits, decimal, if_neg h, List.map_reverse, List.map_map, List.map_reverse,
      List.reverse_reverse]
    have hid : (Nat.digits 10 n).map (digitVal ∘ digit) = Nat.digits 10 n := by
      rw [List.map_congr_left (g := id), List.map_id]
      intro d hd
      exact digitVal_digit (Nat.digits_lt_base (by norm_num) hd)
    rw [hid, Nat.ofDigits_digits]

/-- A digit string that does not start with a zero is the text of its value. -/
theorem decimal_numeral (d : UInt8) (ds : Bytes) (hds : ∀ c ∈ d :: ds, isDigit c = true)
    (hd : d ≠ 48) : decimal (numeral 10 (d :: ds)) = d :: ds := by
  have hlt : ∀ l ∈ ((d :: ds).reverse.map digitVal), l < 10 := by
    intro l hl
    obtain ⟨c, hc, rfl⟩ := List.mem_map.mp hl
    have hdig := hds c (List.mem_reverse.mp hc)
    rw [digitVal_of_isDigit hdig]
    have := (isDigit_iff c).mp hdig
    omega
  have hlast : ∀ h : ((d :: ds).reverse.map digitVal) ≠ [],
      ((d :: ds).reverse.map digitVal).getLast h ≠ 0 := by
    intro h
    have hdig := hds d (by simp)
    have hrange := (isDigit_iff d).mp hdig
    have hne : d.toNat ≠ 48 := fun he => hd (UInt8.toNat_inj.mp he)
    simp only [List.reverse_cons, List.map_append, List.map_cons, List.map_nil,
      List.getLast_concat, digitVal_of_isDigit hdig]
    omega
  have hdigits := Nat.digits_ofDigits 10 (by norm_num) _ hlt hlast
  rw [numeral_eq_ofDigits, decimal, hdigits, if_neg]
  · simp only [List.map_reverse, List.reverse_reverse, List.map_map]
    rw [List.map_congr_left (g := id), List.map_id]
    intro c hc
    exact digit_digitVal (hds c hc)
  · intro hz
    rw [hz, Nat.digits_zero] at hdigits
    simp at hdigits

/-- Decimal text of a positive number does not start with a zero. -/
theorem decimal_head (n : ℕ) (hn : n ≠ 0) : (decimal n).head? ≠ some 48 := by
  rw [decimal, if_neg hn, List.head?_map, List.head?_reverse, List.getLast?_eq_getLast_of_ne_nil
    (Nat.digits_ne_nil_iff_ne_zero.mpr hn)]
  simp only [Option.map_some, ne_eq, Option.some.injEq]
  intro h
  have hlt : (Nat.digits 10 n).getLast (Nat.digits_ne_nil_iff_ne_zero.mpr hn) < 10 :=
    Nat.digits_lt_base (by norm_num) (List.getLast_mem _)
  have hval := congrArg UInt8.toNat h
  rw [digit_toNat hlt] at hval
  have hz : (Nat.digits 10 n).getLast (Nat.digits_ne_nil_iff_ne_zero.mpr hn) = 0 := by
    have : (48 : UInt8).toNat = 48 := rfl
    omega
  exact Nat.getLast_digit_ne_zero 10 hn hz

theorem decimal_injective : Function.Injective decimal := by
  intro n m h
  rw [← numeral_decimal n, h, numeral_decimal]

/-- Decimal text in front of a byte that is no digit can be told from what follows. -/
theorem decimal_append_inj {n m : ℕ} {c : UInt8} (hc : isDigit c = false) {r q : Bytes}
    (h : decimal n ++ c :: r = decimal m ++ c :: q) : n = m ∧ r = q := by
  have htake : ∀ n r, (decimal n ++ c :: r).takeWhile isDigit = decimal n := by
    intro n r
    rw [List.takeWhile_append_of_pos (decimal_digits n), List.takeWhile_cons_of_neg (by simp [hc]),
      List.append_nil]
  have htext := congrArg (List.takeWhile isDigit) h
  rw [htake, htake] at htext
  rw [htext] at h
  exact ⟨decimal_injective htext, (List.cons.inj (List.append_cancel_left h)).2⟩

theorem numeral_lt {ds : Bytes} (h : ∀ c ∈ ds, isDigit c = true) :
    numeral 10 ds < 10 ^ ds.length := by
  have hlt : ∀ d ∈ ds.reverse.map digitVal, d < 10 := by
    intro d hd
    obtain ⟨c, hc, rfl⟩ := List.mem_map.mp hd
    have hdigit := h c (List.mem_reverse.mp hc)
    have hrange := (isDigit_iff c).mp hdigit
    rw [digitVal_of_isDigit hdigit]
    omega
  rw [numeral_eq_ofDigits]
  simpa using Nat.ofDigits_lt_base_pow_length (by norm_num) hlt

/-- The number that the first `w` digits of `n` make. -/
def leadingDigits (w n : ℕ) : ℕ := n / 10 ^ ((Nat.digits 10 n).length - w)

theorem leadingDigits_of_lt {w n : ℕ} (h : n < 10 ^ w) : leadingDigits w n = n := by
  have hlen := (Nat.digits_length_le_iff (by norm_num) n).mpr h
  rw [leadingDigits, Nat.sub_eq_zero_of_le hlen, pow_zero, Nat.div_one]

/-- Cutting the text of a number cuts the number. -/
theorem decimal_take {w : ℕ} (hw : 1 ≤ w) (n : ℕ) :
    (decimal n).take w = decimal (leadingDigits w n) := by
  by_cases hn : n = 0
  · subst hn
    rw [leadingDigits_of_lt (Nat.pow_pos (by norm_num)), decimal, if_pos rfl,
      List.take_of_length_le hw]
  · have hlen : (decimal n).length = (Nat.digits 10 n).length := by
      rw [decimal, if_neg hn, List.length_map, List.length_reverse]
    have hdigits : ∀ c ∈ decimal n, isDigit c = true := decimal_digits n
    have hsplit := numeral_append 10 ((decimal n).take w) ((decimal n).drop w)
    rw [List.take_append_drop, numeral_decimal] at hsplit
    have hrest : numeral 10 ((decimal n).drop w) < 10 ^ ((decimal n).drop w).length :=
      numeral_lt fun c hc => hdigits c (List.mem_of_mem_drop hc)
    have hvalue : numeral 10 ((decimal n).take w) = leadingDigits w n := by
      have hdiv := congrArg (· / 10 ^ ((decimal n).drop w).length) hsplit
      rw [mul_comm, Nat.mul_add_div (Nat.pow_pos (by norm_num)), Nat.div_eq_of_lt hrest,
        add_zero] at hdiv
      rw [leadingDigits, ← hlen, ← List.length_drop, hdiv]
    cases hd : decimal n with
    | nil => exact absurd hd (decimal_ne_nil n)
    | cons d ds =>
        have hhead := decimal_head n hn
        obtain ⟨k, rfl⟩ : ∃ k, w = k + 1 := ⟨w - 1, by omega⟩
        rw [hd] at hhead hvalue hdigits
        rw [List.take_succ_cons] at hvalue ⊢
        rw [← hvalue, decimal_numeral]
        · intro c hc
          rcases List.mem_cons.mp hc with rfl | hc
          · exact hdigits c List.mem_cons_self
          · exact hdigits c (List.mem_cons_of_mem _ (List.mem_of_mem_take hc))
        · intro h48
          exact hhead (by rw [h48]; rfl)

end Yedis
