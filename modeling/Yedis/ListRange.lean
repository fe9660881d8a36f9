import Yedis.Command
import Yedis.LongText

/-!
# The range of a list

`lrange` in the arithmetic of `long` and `size_t`, with iterators that move between
`begin()` and `end()` one element at a time. It sends the elements at the positions
between its two indices, negative ones counted from the end, and it neither leaves the
range of `long` nor of the list.
-/

namespace Yedis.YList

inductive RangeFault
  | assertion
  /-- a result of signed arithmetic that is no `long` -/
  | overflow
  /-- `end()` incremented or dereferenced, or `begin()` decremented -/
  | iterator
  deriving DecidableEq, Repr

/-- A list cannot be longer: a node has two links of eight bytes each. -/
def maxSize : ℕ := 2 ^ 60

namespace Checked

def IsLong (n : ℤ) : Prop := -9223372036854775808 ≤ n ∧ n < 9223372036854775808

instance (n : ℤ) : Decidable (IsLong n) := inferInstanceAs (Decidable (_ ∧ _))

/-- The result of signed arithmetic. -/
def long (n : ℤ) : Except RangeFault ℤ := if IsLong n then .ok n else .error .overflow

/-- A `long` converted to `size_t`. -/
def toSize (n : ℤ) : ℕ := (n % 18446744073709551616).toNat

/-- In `start += size` the sum is unsigned, and converted to `long` as `size` is. -/
def adjustIndex (start stop : ℤ) (size : ℕ) : ℤ × ℤ :=
  if size = 0 then (1, 0)
  else
    let start := if start < 0 then wrap64 (start + size) else start
    let start := if start < 0 then 0 else start
    let stop := if stop < 0 then wrap64 (stop + size) else stop
    let stop := if wrap64 size ≤ stop then wrap64 (size - 1) else stop
    (start, stop)

/-- `while (start -- > 0) ++ it`, where an iterator is the position of its element. -/
def forward (size : ℕ) (start : ℤ) (it : ℕ) : Except RangeFault ℕ :=
  if ¬ IsLong (start - 1) then .error .overflow
  else if 0 < start then
    if it < size then forward size (start - 1) (it + 1) else .error .iterator
  else .ok it
termination_by start.toNat

/-- `while (start ++ < size) -- it`. -/
def backward (size : ℤ) (start : ℤ) (it : ℕ) : Except RangeFault ℕ :=
  if ¬ IsLong (start + 1) then .error .overflow
  else if start < size then
    if 0 < it then backward size (start + 1) (it - 1) else .error .iterator
  else .ok it
termination_by (size - start).toNat

def index2Iterator (start stop : ℤ) (size : ℕ) : Except RangeFault ℕ := do
  if ¬ (0 ≤ start ∧ 0 ≤ stop ∧ start ≤ stop) then throw .assertion
  if ¬ stop < wrap64 size then throw .assertion
  if (← long (start * 2)) < wrap64 size then forward size start 0
  else backward (wrap64 size) start size

/-- The range is the entire list. -/
def isEntire (start stop : ℤ) (size : ℕ) : Except RangeFault Bool :=
  if start ≠ 0 then .ok false else do return (← long (stop + 1)) = wrap64 size

def getRange (start stop : ℤ) (size : ℕ) : Except RangeFault (ℕ × ℕ) := do
  if stop < start then return (0, size)
  else if ¬ (← isEntire start stop size) then
    let rangeLen := toSize (← long ((← long (stop - start)) + 1))
    return (rangeLen, ← index2Iterator start stop size)
  else return (size, 0)

/-- The loop of `lrange`. -/
def elements (list : List Bytes) : ℕ → ℕ → Except RangeFault (List Bytes)
  | 0, _ => .ok []
  | rangeLen + 1, it =>
    match list[it]? with
    | none => .error .iterator
    | some x => do return x :: (← elements list rangeLen (it + 1))

def lrange (start stop : ℤ) (list : List Bytes) : Except RangeFault Bytes := do
  let (start, stop) := adjustIndex start stop list.length
  let (rangeLen, beginIter) ← getRange start stop list.length
  let sent ← if beginIter ≠ list.length then elements list rangeLen beginIter else .ok []
  return preFormatMultiBulk rangeLen ++ sent.flatMap formatBulk

theorem ok_bind {α β : Type} (x : α) (f : α → Except RangeFault β) : Except.ok x >>= f = f x := rfl

theorem adjustIndex_eq {a b : ℤ} {size : ℕ} (ha : IsLong a) (hb : IsLong b)
    (hsize : size ≤ maxSize) : adjustIndex a b size = YList.adjustIndex a b size := by
  unfold IsLong at ha hb
  unfold maxSize at hsize
  have hs : wrap64 size = size := wrap64_of_range (by omega) (by omega)
  unfold adjustIndex YList.adjustIndex
  by_cases hzero : size = 0
  · rw [if_pos hzero, if_pos hzero]
  · have hlast : wrap64 ((size : ℤ) - 1) = (size : ℤ) - 1 := wrap64_of_range (by omega) (by omega)
    have hsum {x : ℤ} (hx : -9223372036854775808 ≤ x) (hneg : x < 0) :
        wrap64 (x + size) = x + size := wrap64_of_range (by omega) (by omega)
    rw [if_neg hzero, if_neg hzero, hs, hlast]
    have hstart : (if a < 0 then wrap64 (a + size) else a) = if a < 0 then a + size else a := by
      split_ifs with hneg
      · exact hsum ha.1 hneg
      · rfl
    have hstop : (if b < 0 then wrap64 (b + size) else b) = if b < 0 then b + size else b := by
      split_ifs with hneg
      · exact hsum hb.1 hneg
      · rfl
    rw [hstart, hstop]

theorem forward_run (size k it : ℕ) (hk : (k : ℤ) < 9223372036854775808) (hit : it + k ≤ size) :
    forward size k it = .ok (it + k) := by
  induction k generalizing it with
  | zero =>
      rw [forward, if_neg (by unfold IsLong; omega), if_neg (by omega)]
      rfl
  | succ k ih =>
      rw [forward, if_neg (by unfold IsLong; omega), if_pos (by omega), if_pos (by omega),
        show ((k + 1 : ℕ) : ℤ) - 1 = k by omega, ih (it + 1) (by omega) (by omega)]
      rw [Nat.add_right_comm, Nat.add_assoc]

theorem backward_run (size : ℤ) (k it : ℕ) (hsize : size < 9223372036854775807)
    (hlow : -9223372036854775808 ≤ size - k) (hit : k ≤ it) :
    backward size (size - k) it = .ok (it - k) := by
  induction k generalizing it with
  | zero =>
      rw [backward, if_neg (by unfold IsLong; omega), if_neg (by omega)]
      rfl
  | succ k ih =>
      rw [backward, if_neg (by unfold IsLong; omega), if_pos (by omega), if_pos (by omega),
        show size - ((k + 1 : ℕ) : ℤ) + 1 = size - k by omega, ih (it - 1) (by omega) (by omega)]
      rw [Nat.sub_sub, Nat.add_comm 1 k]

/-- Both walks lead to the element at `start`. -/
theorem index2Iterator_run {start stop : ℤ} {size : ℕ} (h0 : 0 ≤ start) (hle : start ≤ stop)
    (hlt : stop < size) (hsize : size ≤ maxSize) :
    index2Iterator start stop size = .ok start.toNat := by
  unfold maxSize at hsize
  obtain ⟨k, rfl⟩ := Int.eq_ofNat_of_zero_le h0
  have hs : wrap64 size = size := wrap64_of_range (by omega) (by omega)
  have hdouble : long ((k : ℤ) * 2) = .ok ((k : ℤ) * 2) := if_pos ⟨by omega, by omega⟩
  have hassert : 0 ≤ (k : ℤ) ∧ 0 ≤ stop ∧ (k : ℤ) ≤ stop := ⟨h0, h0.trans hle, hle⟩
  have hforward := forward_run size k 0 (by omega) (by omega)
  have hbackward := backward_run size (size - k) size (by omega) (by omega) (by omega)
  rw [show (size : ℤ) - ((size - k : ℕ) : ℤ) = k by omega, show size - (size - k) = k by omega]
    at hbackward
  rw [Nat.zero_add] at hforward
  unfold index2Iterator
  rw [if_neg (not_not_intro hassert), hs, if_neg (not_not_intro hlt), hdouble]
  simp only [ok_bind, hforward, hbackward, ite_self]
  rfl

theorem isEntire_run {start stop : ℤ} {size : ℕ} (h0 : 0 ≤ start) (hle : start ≤ stop)
    (hlt : stop < size) (hsize : size ≤ maxSize) :
    isEntire start stop size = .ok (start = 0 ∧ stop + 1 = size) := by
  unfold maxSize at hsize
  have hs : wrap64 size = size := wrap64_of_range (by omega) (by omega)
  have hnext : long (stop + 1) = .ok (stop + 1) := if_pos ⟨by omega, by omega⟩
  unfold isEntire
  by_cases hstart : start = 0
  · rw [if_neg (not_not_intro hstart), hnext, hs]
    simp [hstart]
  · rw [if_pos hstart]
    simp [hstart]

theorem getRange_run {start stop : ℤ} {size : ℕ} (hsize : size ≤ maxSize)
    (h : stop < start ∨ (0 ≤ start ∧ start ≤ stop ∧ stop < size)) :
    getRange start stop size =
      .ok ((stop - start + 1).toNat, if stop < start then size else start.toNat) := by
  rcases h with hempty | ⟨h0, hle, hlt⟩
  · rw [getRange, if_pos hempty, if_pos hempty, Int.toNat_of_nonpos (by omega)]
    rfl
  · have hne : ¬ stop < start := by omega
    have hmax := hsize
    unfold maxSize at hmax
    have hdiff : long (stop - start) = .ok (stop - start) := if_pos ⟨by omega, by omega⟩
    have hlen : long (stop - start + 1) = .ok (stop - start + 1) := if_pos ⟨by omega, by omega⟩
    have hconv : toSize (stop - start + 1) = (stop - start + 1).toNat := by
      unfold toSize
      omega
    have hentire := isEntire_run h0 hle hlt hsize
    have hit := index2Iterator_run h0 hle hlt hsize
    rw [getRange, if_neg hne, if_neg hne]
    by_cases hall : start = 0 ∧ stop + 1 = size
    · obtain ⟨rfl, hstop⟩ := hall
      rw [hentire, show stop - 0 + 1 = size by omega]
      simp [ok_bind, hstop]
      rfl
    · rw [hentire]
      simp [ok_bind, hall, hdiff, hlen, hconv, hit]

theorem elements_run (list : List Bytes) (m it : ℕ) (h : it + m ≤ list.length) :
    elements list m it = .ok ((list.drop it).take m) := by
  induction m generalizing it with
  | zero => rfl
  | succ m ih =>
      have hlt : it < list.length := by omega
      rw [elements, List.getElem?_eq_getElem hlt, ih (it + 1) (by omega),
        List.drop_eq_getElem_cons hlt, List.take_succ_cons]
      rfl

theorem lrange_run {a b : ℤ} {list : List Bytes} (ha : IsLong a) (hb : IsLong b)
    (hsize : list.length ≤ maxSize) {vs : List Bytes}
    (hvs : between (YList.adjustIndex a b list.length).1
      (YList.adjustIndex a b list.length).2 list = vs) :
    lrange a b list = .ok (preFormatMultiBulk vs.length ++ vs.flatMap formatBulk) := by
  have hrange := adjustIndex_range a b list.length
  have hlen := between_length a b list
  rw [hvs] at hlen
  rw [lrange, adjustIndex_eq ha hb hsize]
  generalize YList.adjustIndex a b list.length = indices at hrange hlen hvs ⊢
  simp only [getRange_run hsize hrange, ok_bind, ← hlen]
  by_cases hempty : indices.2 < indices.1
  · rw [Int.toNat_of_nonpos (by omega), List.length_eq_zero_iff] at hlen
    rw [hlen, if_pos hempty, if_neg (not_not_intro rfl)]
    rfl
  · have htake : (list.drop indices.1.toNat).take vs.length = vs := by
      rw [hlen]
      exact hvs
    rw [if_neg hempty, if_pos (by omega), elements_run list _ _ (by omega), htake]
    rfl

end Checked

/-- A negative index counts from the end. -/
def index (x : ℤ) (n : ℕ) : ℤ := if x < 0 then x + n else x

/-- The positions that the two indices ask for. -/
def positions (start stop : ℤ) (n : ℕ) : List ℕ :=
  (List.range n).filter fun i : ℕ => max 0 (index start n) ≤ i ∧ i ≤ min (index stop n) (n - 1)

def slice (start stop : ℤ) (list : List Bytes) : List Bytes :=
  (positions start stop list.length).filterMap (list[·]?)

theorem filter_range (n low high : ℕ) (h : high ≤ n) :
    (List.range n).filter (fun i => low ≤ i ∧ i < high) = List.range' low (high - low) := by
  induction n generalizing high with
  | zero =>
      obtain rfl : high = 0 := by omega
      simp
  | succ n ih =>
      rw [List.range_succ, List.filter_append]
      by_cases hhigh : high ≤ n
      · rw [ih high hhigh]
        have hout : ¬ (low ≤ n ∧ n < high) := by omega
        simp [hout]
      · obtain rfl : high = n + 1 := by omega
        have hcongr : (List.range n).filter (fun i => low ≤ i ∧ i < n + 1) =
            (List.range n).filter fun i => low ≤ i ∧ i < n := by
          apply List.filter_congr
          intro i hi
          rw [List.mem_range] at hi
          simp only [decide_eq_decide]
          omega
        rw [hcongr, ih n (le_refl n)]
        by_cases hlow : low ≤ n
        · rw [show n + 1 - low = (n - low) + 1 by omega, List.range'_concat]
          simp [hlow]
        · rw [show n + 1 - low = 0 by omega, show n - low = 0 by omega]
          simp [hlow]

theorem filterMap_range' (list : List Bytes) (m low : ℕ) :
    (List.range' low m).filterMap (list[·]?) = (list.drop low).take m := by
  induction m generalizing low with
  | zero => simp
  | succ m ih =>
      rw [List.range'_succ]
      by_cases hlow : low < list.length
      · rw [List.filterMap_cons_some (List.getElem?_eq_getElem hlow), ih,
          List.drop_eq_getElem_cons hlow, List.take_succ_cons]
      · rw [List.filterMap_cons_none (List.getElem?_eq_none (by omega)), ih,
          List.drop_of_length_le (by omega), List.drop_of_length_le (by omega), List.take_nil,
          List.take_nil]

theorem adjustIndex_of_ne {n : ℕ} (hn : n ≠ 0) (a b : ℤ) :
    adjustIndex a b n = (max 0 (index a n), min (index b n) (n - 1)) := by
  unfold adjustIndex index
  rw [if_neg hn, Prod.mk.injEq]
  constructor
  · split_ifs <;> omega
  · split_ifs <;> omega

theorem positions_eq (a b : ℤ) (n : ℕ) :
    positions a b n = List.range' (adjustIndex a b n).1.toNat
      ((adjustIndex a b n).2 - (adjustIndex a b n).1 + 1).toNat := by
  by_cases hn : n = 0
  · rw [hn]
    rfl
  · rw [adjustIndex_of_ne hn, positions]
    have hlow : 0 ≤ max 0 (index a n) := le_max_left _ _
    have hhigh : min (index b n) ((n : ℤ) - 1) ≤ n - 1 := min_le_right _ _
    generalize max 0 (index a n) = low at hlow ⊢
    generalize min (index b n) ((n : ℤ) - 1) = high at hhigh ⊢
    have hcongr : (List.range n).filter (fun i : ℕ => low ≤ i ∧ i ≤ high) =
        (List.range n).filter fun i => low.toNat ≤ i ∧ i < (high + 1).toNat := by
      apply List.filter_congr
      intro i _
      rw [decide_eq_decide]
      omega
    rw [hcongr, filter_range n _ _ (by omega)]
    congr 1
    omega

theorem slice_eq (a b : ℤ) (list : List Bytes) :
    slice a b list =
      between (adjustIndex a b list.length).1 (adjustIndex a b list.length).2 list := by
  rw [slice, positions_eq, filterMap_range']
  rfl

theorem slice_length (a b : ℤ) (list : List Bytes) :
    (slice a b list).length = (positions a b list.length).length := by
  rw [slice_eq, between_length, positions_eq, List.length_range']

/-- `LRANGE` on a list replies with the elements at the positions that its indices ask for. In the
arithmetic of the machine it replies the same, with no overflow, no failing assertion and no
iterator out of the list. -/
theorem lrange_replies_slice (env : Env) {params : List Bytes} {w : World} {key p q : Bytes}
    {list : List Bytes} {start stop : ℤ} (hname : params[0]? = some (ascii "LRANGE"))
    (hkey : params[1]? = some key) (hget : w.store.getObject key = some (.list list))
    (hp : params[2]? = some p) (hstart : YedisStrtol p = some start)
    (hq : params[3]? = some q) (hstop : YedisStrtol q = some stop) :
    let reply := preFormatMultiBulk (positions start stop list.length).length ++
      (slice start stop list).flatMap formatBulk
    execCommand env params w = .ok true ⟨w.store, w.reply ++ reply⟩ ∧
      (list.length ≤ maxSize → Checked.lrange start stop list = .ok reply) := by
  intro reply
  have hreply : reply = preFormatMultiBulk (slice start stop list).length ++
      (slice start stop list).flatMap formatBulk := by
    rw [slice_length]
  have hlong {s : Bytes} {n : ℤ} (h : YedisStrtol s = some n) : Checked.IsLong n := by
    have htext := (stringToLong_eq_some_iff s n).mp h
    exact ⟨htext.lower, Int.lt_of_le_sub_one htext.upper⟩
  have hslice := (slice_eq start stop list).symm
  rw [hreply]
  constructor
  · exact execCommand_ok (c := .LRANGE) hname (lrange_run hkey hget hp hstart hq hstop hslice)
  · exact fun hsize => Checked.lrange_run (hlong hstart) (hlong hstop) hsize hslice

/-- From the last element but one to a position behind the end. -/
theorem lrange_replies_slice_tail :
    let list := [ascii "a", ascii "b", ascii "c"]
    let store := YStore.start.setValue (ascii "k") (.list list)
    execCommand default [ascii "LRANGE", ascii "k", ascii "-2", ascii "9"] ⟨store, []⟩ =
        .ok true ⟨store, ascii "*2\r\n$1\r\nb\r\n$1\r\nc\r\n"⟩ ∧
      Checked.lrange (-2) 9 list = .ok (ascii "*2\r\n$1\r\nb\r\n$1\r\nc\r\n") := by
  intro list store
  let params := [ascii "LRANGE", ascii "k", ascii "-2", ascii "9"]
  have hname : params[0]? = some (ascii "LRANGE") := rfl
  have hkey : params[1]? = some (ascii "k") := rfl
  have hget : (World.mk store []).store.getObject (ascii "k") = some (.list list) := by
    rw [YStore.getObject_setValue YStore.selected_start, if_pos rfl]
  have hp : params[2]? = some (ascii "-2") := rfl
  have hstart : YedisStrtol (ascii "-2") = some (-2) := rfl
  have hq : params[3]? = some (ascii "9") := rfl
  have hstop : YedisStrtol (ascii "9") = some 9 := rfl
  have hslice := lrange_replies_slice default hname hkey hget hp hstart hq hstop
  have hreply : preFormatMultiBulk (positions (-2) 9 list.length).length ++
      (slice (-2) 9 list).flatMap formatBulk = ascii "*2\r\n$1\r\nb\r\n$1\r\nc\r\n" := by
    decide
  rw [hreply] at hslice
  exact ⟨hslice.1, hslice.2 (by decide)⟩

end Yedis.YList
