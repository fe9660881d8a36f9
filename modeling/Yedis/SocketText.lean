import Yedis.ByteOrder
import Yedis.ConnectionNames
import Yedis.Strtol

/-!
# Addresses as text

`YedisServer::init` joins a host and a port to one text, which `SocketAddr` takes apart
again at the first colon. `inet_addr` reads the host: up to four numbers with dots between
them, the last of which fills the bytes that are left. It answers 255.255.255.255 for
anything else. `std::stoi` reads the port, of which 16 bits are kept.
-/

namespace Yedis.Net
open ByteOrder

/-- `std::stoi`, which throws where this is `none`. -/
def stoi (str : Bytes) : Option ℤ :=
  let (negative, body) := strtolSign (str.dropWhile isSpace)
  let digits := body.takeWhile isDigit
  let value : ℤ := if negative then -(numeral 10 digits : ℤ) else numeral 10 digits
  if digits = [] then none
  else if value < -2147483648 ∨ 2147483647 < value then none
  else some value

/-- One number of an address, with what follows it. -/
def inetNumber (cp : Bytes) : Option (ℕ × Bytes) :=
  let r := strtol cp
  if cp.head?.any isDigit ∧ r.value ≤ 4294967295 then some (r.value.toNat, cp.drop r.stop)
  else none

/-- Behind the last number white space ends the text. -/
def inetEnd (val : ℕ) (rest : Bytes) : Option (Bytes × ℕ) :=
  if rest.head?.all isSpace then some ([], val) else none

/-- The numbers with a dot behind them, at most `dots`, and the last number. -/
def inetParts : ℕ → Bytes → Option (Bytes × ℕ)
  | 0, cp => (inetNumber cp).bind fun (val, rest) => inetEnd val rest
  | dots + 1, cp =>
    match inetNumber cp with
    | none => none
    | some (val, 46 :: rest) =>
        if 255 < val then none
        else (inetParts dots rest).map fun (bytes, last) => (UInt8.ofNat val :: bytes, last)
    | some (val, rest) => inetEnd val rest

def inet_aton (cp : Bytes) : Option Bytes :=
  (inetParts 3 cp).bind fun (bytes, last) =>
    let left := 4 - bytes.length
    if last < 256 ^ left then some (bytes ++ (lowBytes left last).reverse) else none

def INADDR_NONE : Bytes := [255, 255, 255, 255]

def inet_addr (cp : Bytes) : Fin 4 → UInt8 := fun i => ((inet_aton cp).getD INADDR_NONE).getD i 0

/-- The constructor from a text, `none` where `std::stoi` throws. `c_str()` ends the host at a NUL,
and a text without a colon is both host and port. -/
def SocketAddr.ofText (ipport : Bytes) : Option SocketAddr :=
  let ip := ipport.takeWhile (· ≠ 58)
  let port :=
    match ipport.dropWhile (· ≠ 58) with
    | [] => ipport
    | _ :: port => port
  (stoi port).map fun n => ⟨inet_addr (ip.takeWhile (· ≠ 0)), UInt16.ofNat (n % 65536).toNat⟩

/-- Four numbers with dots between them. -/
def dotted (q : Fin 4 → ℕ) : Bytes := [46].intercalate ((List.ofFn q).map decimal)

theorem dotted_eq (q : Fin 4 → ℕ) : dotted q =
    decimal (q 0) ++ 46 :: (decimal (q 1) ++ 46 :: (decimal (q 2) ++ 46 :: decimal (q 3))) := by
  simp [dotted, List.ofFn_succ, List.intercalate, List.intersperse]

theorem decimal_cons (n : ℕ) : ∃ d ds, decimal n = d :: ds ∧ isDigit d = true := by
  cases htext : decimal n with
  | nil => exact absurd htext (decimal_ne_nil n)
  | cons d ds => exact ⟨d, ds, rfl, decimal_digits n d (by simp [htext])⟩

/-- A digit is no white space and no sign. -/
theorem dropWhile_space_digit {d : UInt8} (hd : isDigit d = true) (ds : Bytes) :
    strtolSign ((d :: ds).dropWhile isSpace) = (false, d :: ds) := by
  have hrange := (isDigit_iff d).mp hd
  have hspace : isSpace d = false := by
    have h32 : d ≠ 32 := by rintro rfl; simp at hrange
    simp only [isSpace, h32, decide_false, Bool.false_or, Bool.and_eq_false_iff,
      decide_eq_false_iff_not]
    omega
  have hm : d ≠ 45 := by rintro rfl; simp at hrange
  have hp : d ≠ 43 := by rintro rfl; simp at hrange
  rw [List.dropWhile_cons_of_neg (by simp [hspace]), strtolSign, if_neg hm, if_neg hp]

/-- The digits that `strtol` finds. A lone `0` counts as octal. -/
theorem strtolBase_digits (n : ℕ) {rest : Bytes} (hrest : rest = [] ∨ ∃ r, rest = 46 :: r) :
    ∃ base, strtolBase (decimal n ++ rest) = (base, 0) ∧ numeral base (decimal n) = n ∧
      (decimal n ++ rest).takeWhile (fun c => digitVal c < base) = decimal n := by
  by_cases hn : n = 0
  · subst hn
    rcases hrest with rfl | ⟨r, rfl⟩
    · exact ⟨8, rfl, rfl, rfl⟩
    · refine ⟨8, ?_, rfl, rfl⟩
      cases r <;> rfl
  · refine ⟨10, ?_, numeral_decimal n, ?_⟩
    · obtain ⟨d, ds, htext, -⟩ := decimal_cons n
      have hhead := decimal_head n hn
      rw [htext, List.head?_cons] at hhead
      rw [htext]
      exact strtolBase_decimal (fun h => hhead (congrArg some h)) _
    · have hall : ∀ c ∈ decimal n, decide (digitVal c < 10) = true := fun c hc => by
        simpa using (digitVal_lt_ten c).mpr (decimal_digits n c hc)
      have hnone : rest.takeWhile (fun c => digitVal c < 10) = [] := by
        rcases hrest with rfl | ⟨r, rfl⟩ <;> rfl
      rw [List.takeWhile_append_of_pos hall, hnone, List.append_nil]

theorem strtol_decimal_append (n : ℕ) {rest : Bytes} (hrest : rest = [] ∨ ∃ r, rest = 46 :: r) :
    strtol (decimal n ++ rest) =
      if 9223372036854775807 < n then ⟨9223372036854775807, (decimal n).length, true⟩
      else ⟨n, (decimal n).length, false⟩ := by
  obtain ⟨base, hbase, hvalue, hdigits⟩ := strtolBase_digits n hrest
  have hsign : strtolSign ((decimal n ++ rest).dropWhile isSpace) = (false, decimal n ++ rest) := by
    obtain ⟨d, ds, htext, hd⟩ := decimal_cons n
    rw [htext, List.cons_append]
    exact dropWhile_space_digit hd _
  simp only [strtol, hsign, hbase, List.drop_zero, hdigits, if_neg (decimal_ne_nil n), hvalue,
    Bool.false_eq_true, if_false, Nat.sub_self, Nat.zero_add]
  rw [if_neg (by omega)]
  split_ifs <;> first | rfl | omega

theorem inetNumber_decimal (n : ℕ) {rest : Bytes} (hrest : rest = [] ∨ ∃ r, rest = 46 :: r) :
    inetNumber (decimal n ++ rest) = if n ≤ 4294967295 then some (n, rest) else none := by
  have hdigit : (decimal n ++ rest).head?.any isDigit = true := by
    obtain ⟨d, ds, htext, hd⟩ := decimal_cons n
    rw [htext]
    exact hd
  rw [inetNumber, hdigit, strtol_decimal_append n hrest]
  by_cases hn : n ≤ 4294967295
  · rw [if_neg (by omega : ¬ 9223372036854775807 < n), if_pos hn]
    simp only [true_and, Int.toNat_natCast, List.drop_left]
    rw [if_pos (by omega)]
  · rw [if_neg hn, if_neg]
    rintro ⟨-, hle⟩
    split_ifs at hle with hbig
    · norm_num at hle
    · exact hn (Int.ofNat_le.mp hle)

theorem inetParts_dot (dots n : ℕ) (rest : Bytes) :
    inetParts (dots + 1) (decimal n ++ 46 :: rest) =
      if n < 256 then (inetParts dots rest).map fun (bytes, last) => (UInt8.ofNat n :: bytes, last)
      else none := by
  rw [inetParts, inetNumber_decimal n (Or.inr ⟨rest, rfl⟩)]
  by_cases hn : n ≤ 4294967295
  · rw [if_pos hn]
    simp only
    split_ifs <;> first | rfl | omega
  · rw [if_neg hn, if_neg (by omega)]

theorem inetParts_last (dots n : ℕ) :
    inetParts dots (decimal n) = if n ≤ 4294967295 then some ([], n) else none := by
  have hnumber := inetNumber_decimal n (Or.inl rfl)
  rw [List.append_nil] at hnumber
  cases dots with
  | zero =>
      rw [inetParts, hnumber]
      split_ifs <;> rfl
  | succ dots =>
      rw [inetParts, hnumber]
      split_ifs <;> rfl

/-- The four numbers are the four bytes, if they are bytes. -/
theorem inet_addr_dotted (q : Fin 4 → ℕ) :
    inet_addr (dotted q) =
      if ∀ i, q i < 256 then fun i => UInt8.ofNat (q i) else fun _ => 255 := by
  have hparts : inetParts 3 (dotted q) =
      if q 0 < 256 ∧ q 1 < 256 ∧ q 2 < 256 ∧ q 3 ≤ 4294967295 then
        some ([UInt8.ofNat (q 0), UInt8.ofNat (q 1), UInt8.ofNat (q 2)], q 3)
      else none := by
    rw [dotted_eq, inetParts_dot, inetParts_dot, inetParts_dot, inetParts_last]
    split_ifs <;> first | rfl | omega
  have hall : (∀ i, q i < 256) ↔ q 0 < 256 ∧ q 1 < 256 ∧ q 2 < 256 ∧ q 3 < 256 := by
    simp [Fin.forall_fin_succ]
  funext i
  by_cases hq : ∀ i, q i < 256
  · obtain ⟨h0, h1, h2, h3⟩ := hall.mp hq
    have haton : inet_aton (dotted q) =
        some [UInt8.ofNat (q 0), UInt8.ofNat (q 1), UInt8.ofNat (q 2), UInt8.ofNat (q 3)] := by
      rw [inet_aton, hparts, if_pos ⟨h0, h1, h2, by omega⟩]
      simp [lowBytes, h3]
    rw [if_pos hq, inet_addr, haton]
    fin_cases i <;> rfl
  · have haton : inet_aton (dotted q) = none := by
      rw [inet_aton, hparts]
      split_ifs with hfour
      · have h3 : ¬ q 3 < 256 := fun h3 => hq (hall.mpr ⟨hfour.1, hfour.2.1, hfour.2.2.1, h3⟩)
        simp [h3]
      · rfl
    rw [if_neg hq, inet_addr, haton]
    fin_cases i <;> rfl

theorem stoi_decimal (n : ℕ) :
    stoi (decimal n) = if n ≤ 2147483647 then some (n : ℤ) else none := by
  have hsign : strtolSign ((decimal n).dropWhile isSpace) = (false, decimal n) := by
    obtain ⟨d, ds, htext, hd⟩ := decimal_cons n
    rw [htext]
    exact dropWhile_space_digit hd ds
  have hdigits : (decimal n).takeWhile isDigit = decimal n :=
    List.takeWhile_eq_self_iff.mpr (decimal_digits n)
  simp only [stoi, hsign, hdigits, if_neg (decimal_ne_nil n), numeral_decimal, Bool.false_eq_true,
    if_false]
  split_ifs <;> first | rfl | omega

theorem mem_dotted {q : Fin 4 → ℕ} {c : UInt8} (h : c ∈ dotted q) : isDigit c = true ∨ c = 46 := by
  simp only [dotted_eq, List.mem_append, List.mem_cons] at h
  rcases h with h | rfl | h | rfl | h | rfl | h
  all_goals first | exact Or.inr rfl | exact Or.inl (decimal_digits _ c h)

/-- The host reaches to the first colon, the port from there to the end. -/
theorem SocketAddr.ofText_append {host : Bytes} (hcolon : 58 ∉ host) (hnul : 0 ∉ host)
    (port : Bytes) : ofText (host ++ 58 :: port) =
      (stoi port).map fun n => ⟨inet_addr host, UInt16.ofNat (n % 65536).toNat⟩ := by
  have hhost : ∀ c ∈ host, decide (c ≠ 58) = true := fun c hc => by
    simpa using ne_of_mem_of_not_mem hc hcolon
  have htext : host.takeWhile (fun c => decide (c ≠ 0)) = host :=
    List.takeWhile_eq_self_iff.mpr fun c hc => by simpa using ne_of_mem_of_not_mem hc hnul
  have hafter : (58 :: port).takeWhile (fun c => decide (c ≠ 58)) = [] := rfl
  have hrest : (58 :: port).dropWhile (fun c => decide (c ≠ 58)) = 58 :: port := rfl
  simp only [ofText, List.takeWhile_append_of_pos hhost, List.dropWhile_append_of_pos hhost, hafter,
    hrest, List.append_nil, htext]

/-- An address comes back from its text. Of other numbers, those that are no bytes make the host
255.255.255.255, the port is taken modulo 65536, and only a port that is no `int` is refused. -/
theorem address_texts_read_back :
    (∀ addr : SocketAddr, SocketAddr.ofText addr.ToString = some addr) ∧
      ∀ (q : Fin 4 → ℕ) (n : ℕ), SocketAddr.ofText (dotted q ++ 58 :: decimal n) =
        if n ≤ 2147483647 then
          some ⟨if ∀ i, q i < 256 then fun i => UInt8.ofNat (q i) else fun _ => 255, UInt16.ofNat n⟩
        else none := by
  have hnumbers : ∀ (q : Fin 4 → ℕ) (n : ℕ), SocketAddr.ofText (dotted q ++ 58 :: decimal n) =
      if n ≤ 2147483647 then
        some ⟨if ∀ i, q i < 256 then fun i => UInt8.ofNat (q i) else fun _ => 255, UInt16.ofNat n⟩
      else none := by
    intro q n
    have hcolon : 58 ∉ dotted q := fun h => (mem_dotted h).elim (by decide) (by decide)
    have hnul : 0 ∉ dotted q := fun h => (mem_dotted h).elim (by decide) (by decide)
    rw [SocketAddr.ofText_append hcolon hnul, stoi_decimal, inet_addr_dotted]
    by_cases hn : n ≤ 2147483647
    · have hport : UInt16.ofNat ((n : ℤ) % 65536).toNat = UInt16.ofNat n := by
        have hmod : ((n : ℤ) % 65536).toNat = n % 2 ^ 16 := by omega
        rw [hmod, UInt16.ofNat_mod_size]
      rw [if_pos hn, if_pos hn, Option.map_some, hport]
    · rw [if_neg hn, if_neg hn, Option.map_none]
  refine ⟨fun addr => ?_, hnumbers⟩
  have hport := addr.sin_port.toNat_lt
  have htext : addr.ToString =
      dotted (fun i => (addr.sin_addr i).toNat) ++ 58 :: decimal addr.sin_port.toNat := by
    rw [← List.append_nil addr.ToString, SocketAddr.toString_eq]
    simp [dotted_eq]
  rw [htext, hnumbers, if_pos (by omega), if_pos fun i => (addr.sin_addr i).toNat_lt]
  simp

end Yedis.Net
