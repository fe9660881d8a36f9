import Mathlib.Data.List.TakeWhile
import Yedis.Decimal

/-!
# Reading integers with `strtol`

`strtol` with base 0 on the bytes of a string: white space, a sign, a prefix that
chooses the base, digits. `stringToLong` accepts a string that is all such text.
Of the strings it accepts, the ones that `%ld` writes back unchanged are those in
plain decimal form.
-/

namespace Yedis

/-- `isspace` in the C locale. -/
def isSpace (c : UInt8) : Bool := c = 32 || (9 ≤ c.toNat && c.toNat ≤ 13)

/-- What `strtol` returns and sets: its value, `pEnd - ptr`, and whether `errno` is `ERANGE`. -/
structure StrtolResult where
  value : ℤ
  stop : ℕ
  erange : Bool
  deriving DecidableEq, Repr

def strtolSign : Bytes → Bool × Bytes
  | [] => (false, [])
  | c :: r => if c = 45 then (true, r) else if c = 43 then (false, r) else (false, c :: r)

/-- The base that the text chooses, and the length of its prefix. The leading `0` of an octal number
is one of its digits, and so is that of `0x` without a hexadecimal digit. -/
def strtolBase : Bytes → ℕ × ℕ
  | 48 :: x :: h :: _ => if (x = 120 ∨ x = 88) ∧ digitVal h < 16 then (16, 2) else (8, 0)
  | 48 :: _ => (8, 0)
  | _ => (10, 0)

def strtol (s : Bytes) : StrtolResult :=
  let text := s.dropWhile isSpace
  let (negative, body) := strtolSign text
  let (base, skip) := strtolBase body
  let digits := (body.drop skip).takeWhile fun c => digitVal c < base
  if digits = [] then ⟨0, 0, false⟩
  else
    let value : ℤ := if negative then -(numeral base digits : ℤ) else numeral base digits
    let stop := s.length - body.length + skip + digits.length
    if value < -9223372036854775808 then ⟨-9223372036854775808, stop, true⟩
    else if 9223372036854775807 < value then ⟨9223372036854775807, stop, true⟩
    else ⟨value, stop, false⟩

/-- `Ystring::stringToLong`. -/
def stringToLong (s : Bytes) : Option ℤ :=
  if s.length = 0 ∨ 20 < s.length then none
  else
    let r := strtol s
    if r.erange then none
    else if r.stop = s.length then some r.value
    else none

/-- `YedisStrtol` of YList.cpp, which does the same. -/
def YedisStrtol (s : Bytes) : Option ℤ := stringToLong s

/-- `0`, or a minus sign at most and digits of which the first is no zero. -/
def PlainDecimal (s : Bytes) : Prop :=
  s = [48] ∨ ∃ (d : UInt8) (ds : Bytes), (∀ c ∈ d :: ds, isDigit c = true) ∧ d ≠ 48 ∧
    (s = d :: ds ∨ s = 45 :: d :: ds)

theorem signedDecimal_plain (n : ℤ) : PlainDecimal (signedDecimal n) := by
  by_cases hz : n = 0
  · subst hz
    exact Or.inl rfl
  · right
    have habs : n.natAbs ≠ 0 := Int.natAbs_ne_zero.mpr hz
    cases hd : decimal n.natAbs with
    | nil => exact absurd hd (decimal_ne_nil _)
    | cons d ds =>
        have hhead := decimal_head n.natAbs habs
        rw [hd] at hhead
        refine ⟨d, ds, ?_, by simpa using hhead, ?_⟩
        · rw [← hd]
          exact decimal_digits _
        · rw [signedDecimal, hd]
          by_cases hneg : n < 0
          · exact Or.inr (by rw [if_pos hneg])
          · exact Or.inl (by rw [if_neg hneg])

theorem digitVal_lt_ten (c : UInt8) : digitVal c < 10 ↔ isDigit c = true := by
  constructor
  · intro h
    by_contra hc
    rw [digitVal, if_neg hc] at h
    split_ifs at h <;> omega
  · intro hc
    have hrange := (isDigit_iff c).mp hc
    rw [digitVal_of_isDigit hc]
    omega

theorem takeWhile_decimal {ds : Bytes} (h : ∀ c ∈ ds, isDigit c = true) :
    ds.takeWhile (fun c => digitVal c < 10) = ds := by
  rw [List.takeWhile_eq_self_iff]
  intro c hc
  simpa using (digitVal_lt_ten c).mpr (h c hc)

/-- Digits behind an optional sign are read in base 10, all of them. -/
theorem strtol_decimal {s body : Bytes} {negative : Bool} (hspace : s.dropWhile isSpace = s)
    (hsign : strtolSign s = (negative, body)) (hbase : strtolBase body = (10, 0))
    (hdigits : ∀ c ∈ body, isDigit c = true) (hne : body ≠ [])
    (hrange : (strtol s).erange = false) :
    (strtol s).value = if negative then -(numeral 10 body : ℤ) else numeral 10 body := by
  have hunfold : strtol s =
      let value : ℤ := if negative then -(numeral 10 body : ℤ) else numeral 10 body
      let stop := s.length - body.length + 0 + body.length
      if value < -9223372036854775808 then ⟨-9223372036854775808, stop, true⟩
      else if 9223372036854775807 < value then ⟨9223372036854775807, stop, true⟩
      else ⟨value, stop, false⟩ := by
    simp only [strtol, hspace, hsign, hbase, List.drop_zero, takeWhile_decimal hdigits, if_neg hne]
  rw [hunfold] at hrange ⊢
  simp only at hrange ⊢
  split_ifs at hrange ⊢ <;> rfl

theorem strtolBase_decimal {d : UInt8} (hd : d ≠ 48) (ds : Bytes) :
    strtolBase (d :: ds) = (10, 0) := by
  unfold strtolBase
  split
  · rename_i heq
    exact absurd (List.cons.inj heq).1 hd
  · rename_i heq
    exact absurd (List.cons.inj heq).1 hd
  · rfl

/-- Of the text `stringToLong` accepts, plain decimal text is what `%ld` writes. -/
theorem signedDecimal_of_plain {v : Bytes} {n : ℤ} (hplain : PlainDecimal v)
    (h : stringToLong v = some n) : signedDecimal n = v := by
  have hstrtol : (strtol v).erange = false ∧ (strtol v).value = n := by
    unfold stringToLong at h
    simp only at h
    split_ifs at h with hlen hrange hstop
    exact ⟨by simpa using hrange, by simpa using h⟩
  obtain ⟨hrange, rfl⟩ := hstrtol
  rcases hplain with rfl | ⟨d, ds, hdigits, hd, rfl | rfl⟩
  · rfl
  · have hdig := (isDigit_iff d).mp (hdigits d (by simp))
    have hspace : isSpace d = false := by
      have h32 : d ≠ 32 := by rintro rfl; simp at hdig
      simp only [isSpace, h32, decide_false, Bool.false_or, Bool.and_eq_false_iff,
        decide_eq_false_iff_not]
      omega
    have hm : d ≠ 45 := by rintro rfl; simp at hdig
    have hp : d ≠ 43 := by rintro rfl; simp at hdig
    have hvalue := strtol_decimal (List.dropWhile_cons_of_neg (by simp [hspace]))
      (by rw [strtolSign, if_neg hm, if_neg hp]) (strtolBase_decimal hd ds) hdigits
      (List.cons_ne_nil d ds) hrange
    rw [hvalue]
    simp only [Bool.false_eq_true, if_false, signedDecimal, Int.natAbs_natCast]
    rw [if_neg (by omega), decimal_numeral d ds hdigits hd]
  · have hvalue := strtol_decimal (s := 45 :: d :: ds) (List.dropWhile_cons_of_neg (by decide))
      rfl (strtolBase_decimal hd ds) hdigits (List.cons_ne_nil d ds) hrange
    have hdecimal := decimal_numeral d ds hdigits hd
    have hpos : numeral 10 (d :: ds) ≠ 0 := by
      intro hz
      rw [hz] at hdecimal
      have hhead := congrArg List.head? hdecimal
      simp only [decimal, if_true, List.head?_cons, Option.some.injEq] at hhead
      exact hd hhead.symm
    rw [hvalue]
    simp only [if_true, signedDecimal, Int.natAbs_neg, Int.natAbs_natCast]
    rw [if_pos (by omega), hdecimal]

/-- A string comes back from its integer form unchanged exactly when it is plain decimal text. -/
theorem signedDecimal_eq_iff {v : Bytes} {n : ℤ} (h : stringToLong v = some n) :
    signedDecimal n = v ↔ PlainDecimal v :=
  ⟨fun heq => heq ▸ signedDecimal_plain n, fun hplain => signedDecimal_of_plain hplain h⟩

end Yedis
