import Yedis.Strtol

/-!
# The text of a long

Which strings `stringToLong` accepts, said without the function: up to twenty bytes
of white space, a sign and a C integer constant, decimal, octal or hexadecimal,
with a value that fits in 64 bits.
-/

namespace Yedis

/-- The base of an integer constant, what stands before its digits, and its digits. -/
inductive Constant : ℕ → Bytes → Bytes → Prop
  | decimal (d : UInt8) (ds : Bytes) (h : ∀ c ∈ d :: ds, digitVal c < 10) (hd : d ≠ 48) :
      Constant 10 [] (d :: ds)
  | octal (ds : Bytes) (h : ∀ c ∈ 48 :: ds, digitVal c < 8) : Constant 8 [] (48 :: ds)
  | hex (x d : UInt8) (ds : Bytes) (hx : x = 120 ∨ x = 88) (h : ∀ c ∈ d :: ds, digitVal c < 16) :
      Constant 16 [48, x] (d :: ds)

def signedValue (negative : Bool) (base : ℕ) (digits : Bytes) : ℤ :=
  if negative then -(numeral base digits : ℤ) else numeral base digits

/-- `s` is the text of the 64-bit integer `n`. -/
structure LongText (s : Bytes) (n : ℤ) : Prop where
  short : s.length ≤ 20
  parts : ∃ (spaces sign pre digits : Bytes) (base : ℕ), s = spaces ++ (sign ++ (pre ++ digits)) ∧
    (∀ c ∈ spaces, isSpace c = true) ∧ (sign = [] ∨ sign = [43] ∨ sign = [45]) ∧
    Constant base pre digits ∧ n = signedValue (sign = [45]) base digits
  lower : -9223372036854775808 ≤ n
  upper : n ≤ 9223372036854775807

namespace Constant

theorem ne_nil {base : ℕ} {pre digits : Bytes} (h : Constant base pre digits) : digits ≠ [] := by
  cases h <;> simp

theorem digit_lt {base : ℕ} {pre digits : Bytes} (h : Constant base pre digits) :
    ∀ c ∈ digits, digitVal c < base := by
  cases h with
  | decimal d ds h => exact h
  | octal ds h => exact h
  | hex x d ds hx h => exact h

theorem strtolBase_eq {base : ℕ} {pre digits : Bytes} (h : Constant base pre digits) :
    strtolBase (pre ++ digits) = (base, pre.length) := by
  cases h with
  | decimal d ds h hd => exact strtolBase_decimal hd ds
  | octal ds h =>
      match ds with
      | [] => rfl
      | [x] => rfl
      | x :: y :: ds =>
          have hx := h x (by simp)
          have hno : ¬ ((x = 120 ∨ x = 88) ∧ digitVal y < 16) := by
            rintro ⟨rfl | rfl, -⟩ <;> exact absurd hx (by decide)
          exact if_neg hno
  | hex x d ds hx h => exact if_pos ⟨hx, h d (by simp)⟩

/-- The first byte is a digit, which is neither white space nor a sign. -/
theorem head {base : ℕ} {pre digits : Bytes} (h : Constant base pre digits) :
    ∃ (d : UInt8) (ds : Bytes), pre ++ digits = d :: ds ∧ isDigit d = true := by
  cases h with
  | decimal d ds h hd =>
      exact ⟨d, ds, rfl, (digitVal_lt_ten d).mp (h d (by simp))⟩
  | octal ds h => exact ⟨48, ds, rfl, rfl⟩
  | hex x d ds hx h => exact ⟨48, x :: d :: ds, rfl, rfl⟩

end Constant

theorem strtolBase_cases (body : Bytes) :
    (∃ (x h : UInt8) (rest : Bytes), body = 48 :: x :: h :: rest ∧ (x = 120 ∨ x = 88) ∧
      strtolBase body = (16, 2)) ∨
    (∃ rest : Bytes, body = 48 :: rest ∧ strtolBase body = (8, 0)) ∨
    (body.head? ≠ some 48 ∧ strtolBase body = (10, 0)) := by
  unfold strtolBase
  split
  · rename_i x h rest
    split_ifs with hhex
    · exact Or.inl ⟨x, h, rest, rfl, hhex.1, rfl⟩
    · exact Or.inr (Or.inl ⟨x :: h :: rest, rfl, rfl⟩)
  · rename_i rest hshort
    exact Or.inr (Or.inl ⟨rest, rfl, rfl⟩)
  · rename_i hshort hzero
    refine Or.inr (Or.inr ⟨?_, rfl⟩)
    cases body with
    | nil => simp
    | cons d ds =>
        intro hd
        cases hd
        exact hzero ds rfl

/-- Where nothing but digits of the chosen base follows, there is a constant. -/
theorem Constant.of_strtolBase {body : Bytes} {base skip : ℕ} (hb : strtolBase body = (base, skip))
    (hne : body.drop skip ≠ []) (hdigits : ∀ c ∈ body.drop skip, digitVal c < base) :
    Constant base (body.take skip) (body.drop skip) := by
  rcases strtolBase_cases body with ⟨x, h, rest, rfl, hx, heq⟩ | ⟨rest, rfl, heq⟩ | ⟨hhead, heq⟩
  · obtain ⟨rfl, rfl⟩ := Prod.mk.inj (heq.symm.trans hb)
    exact .hex x h rest hx hdigits
  · obtain ⟨rfl, rfl⟩ := Prod.mk.inj (heq.symm.trans hb)
    exact .octal rest hdigits
  · obtain ⟨rfl, rfl⟩ := Prod.mk.inj (heq.symm.trans hb)
    cases body with
    | nil => exact absurd rfl hne
    | cons d ds => exact .decimal d ds hdigits fun hd => hhead (by rw [hd]; rfl)

theorem isSpace_digit {d : UInt8} (h : isDigit d = true) : isSpace d = false := by
  have hrange := (isDigit_iff d).mp h
  have h32 : d ≠ 32 := by
    rintro rfl
    simp at hrange
  simp only [isSpace, h32, decide_false, Bool.false_or, Bool.and_eq_false_iff,
    decide_eq_false_iff_not]
  omega

theorem strtolSign_digit {d : UInt8} (h : isDigit d = true) (ds : Bytes) :
    strtolSign (d :: ds) = (false, d :: ds) := by
  have hm : d ≠ 45 := by
    rintro rfl
    exact absurd h (by decide)
  have hp : d ≠ 43 := by
    rintro rfl
    exact absurd h (by decide)
  rw [strtolSign, if_neg hm, if_neg hp]

/-- `strtol` on white space, a sign and a constant. -/
theorem strtol_constant {spaces sign pre digits : Bytes} {base : ℕ}
    (hspaces : ∀ c ∈ spaces, isSpace c = true) (hsign : sign = [] ∨ sign = [43] ∨ sign = [45])
    (h : Constant base pre digits) : strtol (spaces ++ (sign ++ (pre ++ digits))) =
      let value := signedValue (sign = [45]) base digits
      let stop := (spaces ++ (sign ++ (pre ++ digits))).length
      if value < -9223372036854775808 then ⟨-9223372036854775808, stop, true⟩
      else if 9223372036854775807 < value then ⟨9223372036854775807, stop, true⟩
      else ⟨value, stop, false⟩ := by
  obtain ⟨d, ds, hbody, hd⟩ := h.head
  have hdrop : (spaces ++ (sign ++ (pre ++ digits))).dropWhile isSpace =
      sign ++ (pre ++ digits) := by
    rw [List.dropWhile_append_of_pos hspaces, hbody]
    rcases hsign with rfl | rfl | rfl
    · exact List.dropWhile_cons_of_neg (by simp [isSpace_digit hd])
    · exact List.dropWhile_cons_of_neg (by decide)
    · exact List.dropWhile_cons_of_neg (by decide)
  have hsigned : strtolSign (sign ++ (pre ++ digits)) = (decide (sign = [45]), pre ++ digits) := by
    rcases hsign with rfl | rfl | rfl
    · rw [List.nil_append, hbody]
      exact strtolSign_digit hd ds
    · rfl
    · rfl
  have htake : digits.takeWhile (fun c => digitVal c < base) = digits := by
    rw [List.takeWhile_eq_self_iff]
    intro c hc
    simpa using h.digit_lt c hc
  have hstop : (spaces ++ (sign ++ (pre ++ digits))).length - (pre ++ digits).length + pre.length +
      digits.length = (spaces ++ (sign ++ (pre ++ digits))).length := by
    simp only [List.length_append]
    omega
  simp only [strtol, hdrop, hsigned, h.strtolBase_eq, List.drop_left, htake, if_neg h.ne_nil, hstop]
  rfl

theorem strtolSign_append (s : Bytes) : ∃ sign : Bytes, s = sign ++ (strtolSign s).2 ∧
    (sign = [] ∨ sign = [43] ∨ sign = [45]) := by
  cases s with
  | nil => exact ⟨[], rfl, Or.inl rfl⟩
  | cons c r =>
      simp only [strtolSign]
      split_ifs with hm hp
      · exact ⟨[45], by rw [hm]; rfl, Or.inr (Or.inr rfl)⟩
      · exact ⟨[43], by rw [hp]; rfl, Or.inr (Or.inl rfl)⟩
      · exact ⟨[], rfl, Or.inl rfl⟩

/-- Text that `strtol` reads to its end is white space, a sign and a constant. -/
theorem strtol_whole {s : Bytes} (hne : s ≠ []) (hstop : (strtol s).stop = s.length) :
    ∃ (spaces sign pre digits : Bytes) (base : ℕ), s = spaces ++ (sign ++ (pre ++ digits)) ∧
      (∀ c ∈ spaces, isSpace c = true) ∧ (sign = [] ∨ sign = [43] ∨ sign = [45]) ∧
      Constant base pre digits := by
  obtain ⟨sign, htext, hsign⟩ := strtolSign_append (s.dropWhile isSpace)
  rcases hbody : strtolSign (s.dropWhile isSpace) with ⟨negative, body⟩
  rcases hbase : strtolBase body with ⟨base, skip⟩
  rw [hbody] at htext
  have hs : s = s.takeWhile isSpace ++ (sign ++ body) := by
    rw [← htext, List.takeWhile_append_dropWhile]
  have hle : body.length ≤ s.length := by
    rw [hs]
    simp only [List.length_append]
    omega
  have hlen : s.length ≠ 0 := by simpa using hne
  simp only [strtol, hbody, hbase] at hstop
  split_ifs at hstop with hnil
  · exact absurd hstop.symm hlen
  all_goals
    simp only at hstop
    have hpre := (List.takeWhile_prefix (fun c => decide (digitVal c < base)) (l := body.drop skip))
    have hall : (body.drop skip).takeWhile (fun c => decide (digitVal c < base)) =
        body.drop skip := by
      apply hpre.eq_of_length_le
      rw [List.length_drop]
      omega
    rw [hall] at hnil
    refine ⟨s.takeWhile isSpace, sign, body.take skip, body.drop skip, base, ?_, ?_, hsign,
      .of_strtolBase hbase hnil ?_⟩
    · rw [List.take_append_drop]
      exact hs
    · exact fun c hc => List.mem_takeWhile_imp hc
    · intro c hc
      rw [← hall] at hc
      simpa using List.mem_takeWhile_imp hc

theorem stringToLong_eq_some_iff (s : Bytes) (n : ℤ) : stringToLong s = some n ↔ LongText s n := by
  constructor
  · intro h
    unfold stringToLong at h
    simp only at h
    split_ifs at h with hlen hrange hstop
    have hne : s ≠ [] := by
      rintro rfl
      exact hlen (Or.inl rfl)
    obtain ⟨spaces, sign, pre, digits, base, rfl, hspaces, hsign, hconst⟩ := strtol_whole hne hstop
    have hvalue := strtol_constant hspaces hsign hconst
    simp only at hvalue
    split_ifs at hvalue with hlow hhigh
    · simp [hvalue] at hrange
    · simp [hvalue] at hrange
    · rw [hvalue] at h
      cases h
      exact ⟨by omega, ⟨spaces, sign, pre, digits, base, rfl, hspaces, hsign, hconst, rfl⟩,
        by simpa using hlow, by simpa using hhigh⟩
  · rintro ⟨hshort, ⟨spaces, sign, pre, digits, base, rfl, hspaces, hsign, hconst, rfl⟩, hlow, hhigh⟩
    have hvalue := strtol_constant hspaces hsign hconst
    simp only [if_neg hlow.not_gt, if_neg hhigh.not_gt] at hvalue
    obtain ⟨d, ds, hbody, -⟩ := hconst.head
    have hlen : ¬ ((spaces ++ (sign ++ (pre ++ digits))).length = 0 ∨
        20 < (spaces ++ (sign ++ (pre ++ digits))).length) := by
      rw [hbody] at hshort ⊢
      simp only [List.length_append, List.length_cons] at hshort ⊢
      omega
    simp only [stringToLong, if_neg hlen, hvalue]
    simp

/-- `%ld` writes the text of its number. -/
theorem longText_signedDecimal {n : ℤ} (hl : -9223372036854775808 ≤ n)
    (hu : n ≤ 9223372036854775807) : LongText (signedDecimal n) n := by
  have hshort : (signedDecimal n).length ≤ 20 := by
    have hdigits : (decimal n.natAbs).length ≤ 19 :=
      (decimal_length_le (by norm_num)).mpr (by omega)
    rw [signedDecimal]
    split_ifs with hneg
    · rw [List.length_cons]
      omega
    · omega
  refine ⟨hshort, ?_, hl, hu⟩
  by_cases hz : n = 0
  · subst hz
    have hzero : ∀ c ∈ [(48 : UInt8)], digitVal c < 8 := List.forall_mem_singleton.mpr (by decide)
    exact ⟨[], [], [], [48], 8, rfl, by simp, Or.inl rfl, .octal [] hzero, rfl⟩
  · have hhead := decimal_head n.natAbs (Int.natAbs_ne_zero.mpr hz)
    cases hd : decimal n.natAbs with
    | nil => exact absurd hd (decimal_ne_nil _)
    | cons d ds =>
        have hconst : Constant 10 [] (d :: ds) := by
          refine .decimal d ds (fun c hc => ?_) fun hzero => ?_
          · rw [← hd] at hc
            exact (digitVal_lt_ten c).mpr (decimal_digits _ c hc)
          · rw [hd, hzero] at hhead
            exact hhead rfl
        have hvalue : numeral 10 (d :: ds) = n.natAbs := by rw [← hd, numeral_decimal]
        rw [signedDecimal, hd]
        by_cases hneg : n < 0
        · refine ⟨[], [45], [], d :: ds, 10, by rw [if_pos hneg]; rfl, by simp,
            Or.inr (Or.inr rfl), hconst, ?_⟩
          rw [signedValue, if_pos (by simp), hvalue]
          omega
        · refine ⟨[], [], [], d :: ds, 10, by rw [if_neg hneg]; rfl, by simp, Or.inl rfl, hconst, ?_⟩
          rw [signedValue, if_neg (by simp), hvalue]
          omega

end Yedis
