import Mathlib.Data.List.TakeWhile
import Yedis.Decimal

/-!
# Integer tokens and their scanner

An integer token is an optional sign and a run of decimal digits. On the wire it
is followed by CRLF (`text`); `bare` is the same token cut before its CRLF.
`scanToken` reads the token at the head of a byte string and computes its value
in 32-bit two's complement. A token that runs to the end of the bytes is reported
as complete, with a width two past the end.
-/

namespace Yedis

/-- The `int` that holds `x` in 32-bit two's complement. -/
def wrap32 (x : ℤ) : ℤ := (x + 2147483648) % 4294967296 - 2147483648

theorem wrap32_of_range {x : ℤ} (hl : -2147483648 ≤ x) (hu : x < 2147483648) : wrap32 x = x := by
  unfold wrap32
  omega

theorem wrap32_range (x : ℤ) : -2147483648 ≤ wrap32 x ∧ wrap32 x < 2147483648 := by
  unfold wrap32
  omega

/-- One accumulation step of a decimal reader, in wrapped arithmetic. -/
theorem wrap32_accumulate (x d : ℤ) :
    wrap32 (wrap32 (wrap32 x * 10) + d) = wrap32 (x * 10 + d) := by
  unfold wrap32
  omega

theorem wrap32_negate (x : ℤ) : wrap32 (-wrap32 x) = wrap32 (-x) := by
  unfold wrap32
  omega

/-- The `long` that holds `x` in 64-bit two's complement. -/
def wrap64 (x : ℤ) : ℤ := (x + 9223372036854775808) % 18446744073709551616 - 9223372036854775808

theorem wrap64_of_range {x : ℤ} (hl : -9223372036854775808 ≤ x) (hu : x < 9223372036854775808) :
    wrap64 x = x := by
  unfold wrap64
  omega

structure IntToken where
  /-- `some true` for a minus sign, `some false` for a plus sign. -/
  sign : Option Bool
  digits : Bytes
  all_digits : ∀ c ∈ digits, isDigit c = true

namespace IntToken

def signText (t : IntToken) : Bytes :=
  match t.sign with
  | none => []
  | some true => [45]
  | some false => [43]

def bare (t : IntToken) : Bytes := t.signText ++ t.digits

def text (t : IntToken) : Bytes := t.bare ++ crlf

def value (t : IntToken) : ℤ :=
  if t.sign = some true then -(numeral 10 t.digits : ℤ) else numeral 10 t.digits

theorem text_length (t : IntToken) : t.text.length = t.bare.length + 2 := by
  simp [text]

/-- A sign in front of the digits, if there is one. -/
def takeSign : Bytes → Option Bool × Bytes
  | [] => (none, [])
  | c :: r => if c = 45 then (some true, r) else if c = 43 then (some false, r) else (none, c :: r)

/-- The longest token at the head of `s`. -/
def lead (s : Bytes) : IntToken where
  sign := (takeSign s).1
  digits := (takeSign s).2.takeWhile isDigit
  all_digits _ hc := List.mem_takeWhile_imp hc

/-- What follows the token at the head of `s`. -/
def rest (s : Bytes) : Bytes := (takeSign s).2.dropWhile isDigit

theorem lead_append_rest (s : Bytes) : (lead s).bare ++ rest s = s := by
  have hbody : (takeSign s).2.takeWhile isDigit ++ (takeSign s).2.dropWhile isDigit =
      (takeSign s).2 := List.takeWhile_append_dropWhile
  have hsign : (lead s).signText ++ (takeSign s).2 = s := by
    cases s with
    | nil => rfl
    | cons c r =>
        by_cases hm : c = 45
        · simp [lead, signText, takeSign, hm]
        · by_cases hp : c = 43
          · simp [lead, signText, takeSign, hp]
          · simp [lead, signText, takeSign, hm, hp]
  rw [bare, List.append_assoc]
  change (lead s).signText ++ ((takeSign s).2.takeWhile isDigit ++
    (takeSign s).2.dropWhile isDigit) = s
  rw [hbody, hsign]

theorem takeSign_append {s : Bytes} (h : (takeSign s).2 ≠ []) (q : Bytes) :
    takeSign (s ++ q) = ((takeSign s).1, (takeSign s).2 ++ q) := by
  cases s with
  | nil => exact absurd rfl h
  | cons c r =>
      simp only [takeSign, List.cons_append]
      split_ifs <;> rfl

/-- A token that ends inside `s` is the same in every extension of `s`. -/
theorem lead_append {s : Bytes} (h : rest s ≠ []) (q : Bytes) :
    lead (s ++ q) = lead s ∧ rest (s ++ q) = rest s ++ q := by
  have hbody : (takeSign s).2 ≠ [] := by
    intro he
    exact h (by simp [rest, he])
  have hnot : ¬ (takeSign s).2.takeWhile isDigit = (takeSign s).2 := by
    intro he
    apply h
    have happ := List.takeWhile_append_dropWhile (p := isDigit) (l := (takeSign s).2)
    rw [he] at happ
    exact List.append_right_eq_self.mp happ
  have hall : ¬ ((takeSign s).2.takeWhile isDigit).length = (takeSign s).2.length := by
    intro he
    exact hnot ((List.takeWhile_prefix isDigit).eq_of_length he)
  constructor
  · simp only [lead, takeSign_append hbody, List.takeWhile_append, if_neg hall]
  · have hdrop : ((takeSign s).2.dropWhile isDigit).isEmpty = false := by
      rw [List.isEmpty_eq_false_iff]
      exact h
    simp only [rest, takeSign_append hbody, List.dropWhile_append, hdrop, Bool.false_eq_true,
      if_false]

theorem takeSign_bare_append (t : IntToken) (r : Bytes)
    (hr : ∀ c ∈ r.head?, isDigit c = false ∧ c ≠ 45 ∧ c ≠ 43) :
    takeSign (t.bare ++ r) = (t.sign, t.digits ++ r) := by
  rcases t with ⟨sg, ds, hds⟩
  cases sg with
  | some b => cases b <;> simp [bare, signText, takeSign]
  | none =>
      cases ds with
      | nil =>
          cases r with
          | nil => rfl
          | cons c r =>
              have hc := hr c rfl
              simp [bare, signText, takeSign, hc.2.1, hc.2.2]
      | cons d ds =>
          have hd := (isDigit_iff d).mp (hds d (by simp))
          have hm : d ≠ 45 := by rintro rfl; simp at hd
          have hp : d ≠ 43 := by rintro rfl; simp at hd
          simp [bare, signText, takeSign, hm, hp]

/-- Appending anything but a digit or a sign keeps the token. -/
theorem lead_bare_append (t : IntToken) (r : Bytes)
    (hr : ∀ c ∈ r.head?, isDigit c = false ∧ c ≠ 45 ∧ c ≠ 43) :
    lead (t.bare ++ r) = t ∧ rest (t.bare ++ r) = r := by
  have hsign := takeSign_bare_append t r hr
  have htake : r.takeWhile isDigit = [] := by
    cases r with
    | nil => rfl
    | cons c r => simp [(hr c rfl).1]
  have hdrop : r.dropWhile isDigit = r := by
    cases r with
    | nil => rfl
    | cons c r => simp [(hr c rfl).1]
  constructor
  · simp only [lead, hsign, List.takeWhile_append_of_pos t.all_digits, htake, List.append_nil]
  · simp only [rest, hsign, List.dropWhile_append_of_pos t.all_digits, hdrop]

theorem lead_text_append (t : IntToken) (r : Bytes) :
    lead (t.text ++ r) = t ∧ rest (t.text ++ r) = crlf ++ r := by
  rw [text, List.append_assoc]
  apply lead_bare_append
  intro c hc
  have : c = 13 := by simpa [crlf] using hc.symm
  subst this
  decide

theorem text_append_inj {t u : IntToken} {r q : Bytes} (h : t.text ++ r = u.text ++ q) :
    t = u ∧ r = q := by
  have ht := lead_text_append t r
  have hu := lead_text_append u q
  rw [h] at ht
  refine ⟨ht.1.symm.trans hu.1, ?_⟩
  simpa [crlf] using ht.2.symm.trans hu.2

/-- Behind a token without CRLF the digits may go on. -/
theorem lead_of_bare_append {t : IntToken} (h : t.bare ≠ []) (q : Bytes) :
    (lead (t.bare ++ q)).sign = t.sign ∧
      (lead (t.bare ++ q)).digits = t.digits ++ q.takeWhile isDigit := by
  rcases t with ⟨sg, ds, hds⟩
  cases sg with
  | some b =>
      cases b <;> simp [lead, bare, signText, takeSign, List.takeWhile_append_of_pos hds]
  | none =>
      cases ds with
      | nil => exact absurd rfl h
      | cons d ds =>
          have hd := (isDigit_iff d).mp (hds d (by simp))
          have hm : d ≠ 45 := by rintro rfl; simp at hd
          have hp : d ≠ 43 := by rintro rfl; simp at hd
          have htake := @List.takeWhile_append_of_pos _ isDigit (d :: ds) q hds
          simp only [lead, bare, signText, List.nil_append, List.cons_append, takeSign, if_neg hm,
            if_neg hp] at htake ⊢
          exact ⟨trivial, htake⟩

theorem bare_ne_text_append (t u : IntToken) (r : Bytes) : t.bare ≠ u.text ++ r := by
  intro h
  obtain ⟨-, ht⟩ := lead_bare_append t [] (by simp)
  obtain ⟨-, hu⟩ := lead_text_append u r
  rw [List.append_nil, h, hu] at ht
  simp [crlf] at ht

end IntToken

/-- What a reader says about the token at the head of a byte string. On `ok` it gives the value and
where the cursor goes. -/
inductive IntRead
  | wait
  | error
  | ok (val : ℤ) (pos : ℕ)
  deriving DecidableEq, Repr

def IntRead.shift (r : IntRead) (n : ℕ) : IntRead :=
  match r with
  | .wait => .wait
  | .error => .error
  | .ok val pos => .ok val (n + pos)

/-- The verdict on a token from the bytes behind its digits. -/
def IntRead.ofRest (after : Bytes) (val : ℤ) (pos : ℕ) : IntRead :=
  match after with
  | [] => .ok val pos
  | [c] => if c = 13 then .wait else .error
  | c :: d :: _ => if c = 13 ∧ d = 10 then .ok val pos else .error

theorem IntRead.ofRest_shift (after : Bytes) (val : ℤ) (pos n : ℕ) :
    (IntRead.ofRest after val pos).shift n = IntRead.ofRest after val (n + pos) := by
  unfold IntRead.ofRest
  split
  · rfl
  · split <;> rfl
  · split <;> rfl

theorem IntRead.ofRest_append {after : Bytes} {val : ℤ} {pos : ℕ} (hne : after ≠ [])
    (hw : IntRead.ofRest after val pos ≠ .wait) (q : Bytes) :
    IntRead.ofRest (after ++ q) val pos = IntRead.ofRest after val pos := by
  match after with
  | [] => exact absurd rfl hne
  | [c] =>
      have hc : c ≠ 13 := by
        rintro rfl
        exact hw rfl
      cases q <;> simp [IntRead.ofRest, hc]
  | c :: d :: r => rfl

theorem IntRead.ofRest_ok {after : Bytes} {val v : ℤ} {pos n : ℕ}
    (h : IntRead.ofRest after val pos = .ok v n) :
    v = val ∧ n = pos ∧ (after = [] ∨ ∃ r, after = crlf ++ r) := by
  match after with
  | [] =>
      cases h
      exact ⟨rfl, rfl, Or.inl rfl⟩
  | [c] =>
      rw [IntRead.ofRest] at h
      split at h <;> cases h
  | c :: d :: r =>
      rw [IntRead.ofRest] at h
      split at h
      · rename_i hcd
        cases h
        exact ⟨rfl, rfl, Or.inr ⟨r, by rw [hcd.1, hcd.2]; rfl⟩⟩
      · cases h

open IntToken

def scanToken (s : Bytes) : IntRead :=
  if s.length < 3 then .wait
  else IntRead.ofRest (rest s) (wrap32 (lead s).value) (lead s).text.length

theorem scanToken_text (t : IntToken) (r : Bytes) (h : 3 ≤ (t.text ++ r).length) :
    scanToken (t.text ++ r) = .ok (wrap32 t.value) t.text.length := by
  obtain ⟨hl, hr⟩ := lead_text_append t r
  rw [scanToken, if_neg (by omega), hr, hl]
  rfl

theorem scanToken_bare (t : IntToken) (h : 3 ≤ t.bare.length) :
    scanToken t.bare = .ok (wrap32 t.value) t.text.length := by
  obtain ⟨hl, hr⟩ := lead_bare_append t [] (by simp)
  rw [List.append_nil] at hl hr
  rw [scanToken, if_neg (by omega), hr, hl]
  rfl

theorem scanToken_bare_cr (t : IntToken) : scanToken (t.bare ++ [13]) = .wait := by
  obtain ⟨hl, hr⟩ := lead_bare_append t [13] (by simp; decide)
  rw [scanToken]
  split
  · rfl
  · rw [hr]
    rfl

/-- A token read as complete has its CRLF, or it is cut off by the end of the bytes. -/
theorem scanToken_ok {s : Bytes} {v : ℤ} {n : ℕ} (h : scanToken s = .ok v n) :
    ∃ t : IntToken, v = wrap32 t.value ∧ n = t.text.length ∧ 3 ≤ s.length ∧
      ((∃ r, s = t.text ++ r) ∨ s = t.bare) := by
  have hs := lead_append_rest s
  rw [scanToken] at h
  split at h
  · cases h
  · rename_i hlen
    obtain ⟨hv, hn, hr | ⟨r, hr⟩⟩ := IntRead.ofRest_ok h
    · rw [hr, List.append_nil] at hs
      exact ⟨lead s, hv, hn, by omega, Or.inr hs.symm⟩
    · refine ⟨lead s, hv, hn, by omega, Or.inl ⟨r, ?_⟩⟩
      rw [text, List.append_assoc, ← hr, hs]

theorem scanToken_wait {s : Bytes} (h : scanToken s = .wait) :
    s.length < 3 ∨ ∃ t : IntToken, s = t.bare ++ [13] := by
  have hs := lead_append_rest s
  rw [scanToken] at h
  split at h
  · rename_i hlen
    exact Or.inl hlen
  · right
    refine ⟨lead s, ?_⟩
    match hr : rest s with
    | [] => simp [hr, IntRead.ofRest] at h
    | [c] =>
        rw [hr] at h hs
        have hc : c = 13 := by
          by_contra hc
          simp [IntRead.ofRest, hc] at h
        rw [← hc, hs]
    | c :: d :: r =>
        rw [hr, IntRead.ofRest] at h
        split at h <;> cases h

/-- A verdict reached before the end of the bytes is the same in every extension. -/
theorem scanToken_append {s : Bytes} (hlen : 3 ≤ s.length) (hr : rest s ≠ [])
    (hw : scanToken s ≠ .wait) (q : Bytes) : scanToken (s ++ q) = scanToken s := by
  obtain ⟨hl, hr'⟩ := lead_append hr q
  rw [scanToken, if_neg (by omega)] at hw
  rw [scanToken, scanToken, if_neg (by rw [List.length_append]; omega), if_neg (by omega), hl, hr',
    IntRead.ofRest_append hr hw]

theorem scanToken_error_append {s : Bytes} (h : scanToken s = .error) (q : Bytes) :
    scanToken (s ++ q) = .error := by
  have hlen : 3 ≤ s.length := by
    by_contra hlt
    rw [scanToken, if_pos (by omega)] at h
    cases h
  have hr : rest s ≠ [] := by
    intro hr
    rw [scanToken, if_neg (by omega), hr] at h
    cases h
  rw [scanToken_append hlen hr (by rw [h]; simp), h]

end Yedis
