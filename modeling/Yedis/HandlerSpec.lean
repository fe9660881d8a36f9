import Yedis.Handlers

/-!
# What the string and list handlers do

One equation for each handler and each kind of object its key can be bound to:
none, one of the handler's type, one of another type. Parameters that are read are
given by `params[i]? = some p`.
-/

namespace Yedis

variable {params : List Bytes} {w : World} {key : Bytes}

namespace YString

theorem setCmd_run {value : Bytes} (hkey : params[1]? = some key)
    (hvalue : params[2]? = some value) : setCmd params w =
      .ok .ok ⟨w.store.setValue key (.createString value), w.reply ++ ascii "+OK\r\n"⟩ := by
  simp [setCmd, setValue, param_run _ hkey, param_run _ hvalue]

theorem getCmd_string {obj : YObject} (hkey : params[1]? = some key)
    (hget : w.store.getObject key = some obj) (ht : obj.type = .string) : getCmd params w =
      .ok .ok ⟨w.store, w.reply ++ formatBulk (getDecodeString obj)⟩ := by
  simp [getCmd, param_run _ hkey, getValueByType_run hget ht]

theorem getCmd_absent (hkey : params[1]? = some key) (hget : w.store.getObject key = none) :
    getCmd params w = .ok .notExist ⟨w.store, w.reply ++ ascii "$-1\r\n"⟩ := by
  simp [getCmd, param_run _ hkey, getValueByType_absent hget]

theorem getCmd_other {obj : YObject} (hkey : params[1]? = some key)
    (hget : w.store.getObject key = some obj) (ht : obj.type ≠ .string) : getCmd params w =
      .ok .type ⟨w.store, w.reply ++ noSuchKey⟩ := by
  simp [getCmd, param_run _ hkey, getValueByType_other hget ht]

theorem setnxCmd_absent {value : Bytes} (hkey : params[1]? = some key)
    (hvalue : params[2]? = some value) (hget : w.store.getObject key = none) :
    setnxCmd params w =
      .ok .ok ⟨w.store.setValue key (.createString value), w.reply ++ ascii ":1\r\n"⟩ := by
  simp [setnxCmd, setValue, param_run _ hkey, param_run _ hvalue, YStore.getValue,
    YStore.getValueByType, hget]

theorem setnxCmd_present {value : Bytes} {obj : YObject} (hkey : params[1]? = some key)
    (hvalue : params[2]? = some value) (hget : w.store.getObject key = some obj) :
    setnxCmd params w = .ok .ok ⟨w.store, w.reply ++ ascii ":0\r\n"⟩ := by
  simp [setnxCmd, setValue, param_run _ hkey, param_run _ hvalue, YStore.getValue,
    YStore.getValueByType, hget]

end YString

namespace YList

theorem length_pushAll (pos : ListPosition) (l elements : List Bytes) :
    (pushAll pos l elements).length = l.length + elements.length := by
  induction elements generalizing l with
  | nil => rfl
  | cons p elements ih =>
      have hstep : pushAll pos l (p :: elements) =
          pushAll pos (if pos = .head then p :: l else l ++ [p]) elements := rfl
      rw [hstep, ih]
      split_ifs <;> simp <;> omega

theorem pushAll_eq_self (pos : ListPosition) (l elements : List Bytes) :
    pushAll pos l elements = l ↔ elements = [] := by
  constructor
  · intro h
    have hlen := length_pushAll pos l elements
    rw [h] at hlen
    exact List.length_eq_zero_iff.mp (by omega)
  · rintro rfl
    rfl

theorem pushAll_eq_nil (pos : ListPosition) (l elements : List Bytes) :
    pushAll pos l elements = [] ↔ l = [] ∧ elements = [] := by
  rw [← List.length_eq_zero_iff, length_pushAll, ← List.length_eq_zero_iff,
    ← List.length_eq_zero_iff]
  omega

theorem takeElement_length (pos : ListPosition) (front : Bytes) (rest : List Bytes) :
    (takeElement pos front rest).2.length = rest.length := by
  unfold takeElement
  split_ifs <;> simp

/-- The world after a push onto `l`. -/
def pushed (w : World) (key : Bytes) (pos : ListPosition) (l elements : List Bytes) : World :=
  ⟨w.store.setValue key (.list (pushAll pos l elements)),
    w.reply ++ formatInt (pushAll pos l elements).length⟩

theorem push_list {l : List Bytes} (hkey : params[1]? = some key)
    (hget : w.store.getObject key = some (.list l)) (pos : ListPosition) (create : Bool) :
    push params pos create w = .ok .ok (pushed w key pos l (params.drop 2)) := by
  simp [push, param_run _ hkey, getValueByType_run (t := .list) hget rfl, YObject.castList, pushed]

theorem push_create (hkey : params[1]? = some key) (hget : w.store.getObject key = none)
    (pos : ListPosition) : push params pos true w = .ok .ok
      (pushed ⟨w.store.setValue key .createList, w.reply⟩ key pos [] (params.drop 2)) := by
  simp [push, param_run _ hkey, getValueByType_absent hget, YObject.castList, YObject.createList,
    pushed]

theorem push_absent (hkey : params[1]? = some key) (hget : w.store.getObject key = none)
    (pos : ListPosition) :
    push params pos false w = .ok .notExist ⟨w.store, w.reply ++ noSuchKey⟩ := by
  simp [push, param_run _ hkey, getValueByType_absent hget]

theorem push_other {obj : YObject} (hkey : params[1]? = some key)
    (hget : w.store.getObject key = some obj) (ht : obj.type ≠ .list) (pos : ListPosition)
    (create : Bool) :
    push params pos create w = .ok .type ⟨w.store, w.reply ++ noSuchKey⟩ := by
  simp [push, param_run _ hkey, getValueByType_other hget ht]

theorem popCmd_list {front : Bytes} {rest : List Bytes} (hkey : params[1]? = some key)
    (hget : w.store.getObject key = some (.list (front :: rest))) (pos : ListPosition) :
    popCmd pos params w = .ok .ok ⟨if (takeElement pos front rest).2 = [] then w.store.deleteKey key
      else w.store.setValue key (.list (takeElement pos front rest).2),
      w.reply ++ formatBulk (takeElement pos front rest).1⟩ := by
  rcases hp : takeElement pos front rest with ⟨result, list⟩
  by_cases hnil : list = [] <;>
    simp [popCmd, pop, param_run _ hkey, getValueByType_run (t := .list) hget rfl,
      YObject.castList, hp, hnil]

theorem pop_empty (hget : w.store.getObject key = some (.list [])) (pos : ListPosition) :
    pop key pos w = .error .assertion w := by
  simp [pop, getValueByType_run (t := .list) hget rfl, YObject.castList]

theorem popCmd_empty (hkey : params[1]? = some key)
    (hget : w.store.getObject key = some (.list [])) (pos : ListPosition) :
    popCmd pos params w = .error .assertion w := by
  simp [popCmd, param_run _ hkey, pop_empty hget]

theorem popCmd_absent (hkey : params[1]? = some key) (hget : w.store.getObject key = none)
    (pos : ListPosition) : popCmd pos params w = .ok .notExist w := by
  simp [popCmd, pop, param_run _ hkey, getValueByType_absent hget]

theorem popCmd_other {obj : YObject} (hkey : params[1]? = some key)
    (hget : w.store.getObject key = some obj) (ht : obj.type ≠ .list) (pos : ListPosition) :
    popCmd pos params w = .ok .type w := by
  simp [popCmd, pop, param_run _ hkey, getValueByType_other hget ht]

theorem llen_list {l : List Bytes} (hkey : params[1]? = some key)
    (hget : w.store.getObject key = some (.list l)) :
    llen params w = .ok .ok ⟨w.store, w.reply ++ formatInt l.length⟩ := by
  simp [llen, param_run _ hkey, getValueByType_run (t := .list) hget rfl, YObject.castList]

theorem llen_absent (hkey : params[1]? = some key) (hget : w.store.getObject key = none) :
    llen params w = .ok .notExist ⟨w.store, w.reply ++ format0⟩ := by
  simp [llen, param_run _ hkey, getValueByType_absent hget]

theorem llen_other {obj : YObject} (hkey : params[1]? = some key)
    (hget : w.store.getObject key = some obj) (ht : obj.type ≠ .list) :
    llen params w = .ok .type ⟨w.store, w.reply ++ unknownCommand⟩ := by
  simp [llen, param_run _ hkey, getValueByType_other hget ht]

/-- `adjustIndex` leaves an empty range or one inside the list. -/
theorem adjustIndex_range (a b : ℤ) (size : ℕ) :
    (adjustIndex a b size).2 < (adjustIndex a b size).1 ∨
      (0 ≤ (adjustIndex a b size).1 ∧ (adjustIndex a b size).1 ≤ (adjustIndex a b size).2 ∧
        (adjustIndex a b size).2 < size) := by
  unfold adjustIndex
  split_ifs <;> simp only <;> omega

theorem index2Iterator_run {start stop : ℤ} {list : List Bytes} (h0 : 0 ≤ start)
    (hle : start ≤ stop) (hlt : stop < list.length) :
    index2Iterator start stop list w = .ok (list.drop start.toNat) w := by
  have hsame : list.length - (list.length - start.toNat) = start.toNat := by omega
  have hin : 0 ≤ start ∧ 0 ≤ stop ∧ start ≤ stop ∧ stop < list.length :=
    ⟨h0, h0.trans hle, hle, hlt⟩
  simp only [index2Iterator, hin, not_true_eq_false, if_false, hsame, and_self]
  split_ifs <;> rfl

/-- `getRange` passes its assertions. -/
theorem getRange_run {start stop : ℤ} {list : List Bytes}
    (h : stop < start ∨ (0 ≤ start ∧ start ≤ stop ∧ stop < list.length)) :
    getRange start stop list w =
      .ok ((stop - start + 1).toNat, if stop < start then [] else list.drop start.toNat) w := by
  rcases h with hempty | ⟨h0, hle, hlt⟩
  · rw [getRange, if_pos hempty, if_pos hempty, Int.toNat_of_nonpos (by omega)]
    rfl
  · have hne : ¬ stop < start := by omega
    by_cases hpart : start ≠ 0 ∨ stop + 1 ≠ list.length
    · rw [getRange, if_neg hne, if_pos hpart, if_neg hne]
      simp [index2Iterator_run h0 hle hlt]
    · obtain ⟨rfl, hall⟩ : start = 0 ∧ stop + 1 = list.length := by omega
      rw [getRange, if_neg hne, if_neg hpart, if_neg hne, show stop - 0 + 1 = list.length by omega]
      rfl

/-- The elements from `start` to `stop`. -/
def between (start stop : ℤ) (list : List Bytes) : List Bytes :=
  (list.drop start.toNat).take (stop - start + 1).toNat

theorem between_length (a b : ℤ) (list : List Bytes) :
    (between (adjustIndex a b list.length).1 (adjustIndex a b list.length).2 list).length =
      ((adjustIndex a b list.length).2 - (adjustIndex a b list.length).1 + 1).toNat := by
  have hrange := adjustIndex_range a b list.length
  rw [between, List.length_take, List.length_drop]
  omega

theorem lrange_run {l : List Bytes} {p q : Bytes} {a b : ℤ} (hkey : params[1]? = some key)
    (hget : w.store.getObject key = some (.list l)) (hp : params[2]? = some p)
    (ha : YedisStrtol p = some a) (hq : params[3]? = some q) (hb : YedisStrtol q = some b)
    {vs : List Bytes}
    (hvs : between (adjustIndex a b l.length).1 (adjustIndex a b l.length).2 l = vs) :
    lrange params w =
      .ok .ok ⟨w.store, w.reply ++ (preFormatMultiBulk vs.length ++ vs.flatMap formatBulk)⟩ := by
  have hrun := getRange_run (w := w) (adjustIndex_range a b l.length)
  have hlen := between_length a b l
  rw [hvs] at hlen
  rw [← hlen] at hrun
  have htake : (if (adjustIndex a b l.length).2 < (adjustIndex a b l.length).1 then []
      else l.drop (adjustIndex a b l.length).1.toNat).take vs.length = vs := by
    split_ifs with hempty
    · rw [Int.toNat_of_nonpos (by omega)] at hlen
      rw [List.length_eq_zero_iff.mp hlen]
      rfl
    · rw [hlen]
      exact hvs
  simp [lrange, param_run _ hkey, param_run _ hp, param_run _ hq,
    getValueByType_run (t := .list) hget rfl, YObject.castList, ha, hb, hrun, htake]

theorem lrange_list {l : List Bytes} {p q : Bytes} {a b : ℤ} (hkey : params[1]? = some key)
    (hget : w.store.getObject key = some (.list l)) (hp : params[2]? = some p)
    (ha : YedisStrtol p = some a) (hq : params[3]? = some q) (hb : YedisStrtol q = some b) :
    ∃ vs : List Bytes, lrange params w =
      .ok .ok ⟨w.store, w.reply ++ (preFormatMultiBulk vs.length ++ vs.flatMap formatBulk)⟩ :=
  ⟨_, lrange_run hkey hget hp ha hq hb rfl⟩

theorem lrange_absent (hkey : params[1]? = some key) (hget : w.store.getObject key = none) :
    lrange params w = .ok .notExist w := by
  simp [lrange, param_run _ hkey, getValueByType_absent hget]

theorem lrange_other {obj : YObject} (hkey : params[1]? = some key)
    (hget : w.store.getObject key = some obj) (ht : obj.type ≠ .list) :
    lrange params w = .ok .type w := by
  simp [lrange, param_run _ hkey, getValueByType_other hget ht]

/-- An index that is no integer, or is not there, stops `lrange` before it writes anything. -/
theorem lrange_no_index {l : List Bytes} (hkey : params[1]? = some key)
    (hget : w.store.getObject key = some (.list l))
    (hno : ¬ ∃ p q a b, params[2]? = some p ∧ YedisStrtol p = some a ∧ params[3]? = some q ∧
      YedisStrtol q = some b) :
    lrange params w = .ok .ok w ∨ lrange params w = .error .paramIndex w := by
  cases hp : params[2]? with
  | none =>
      right
      simp [lrange, param_run _ hkey, param_none _ hp,
        getValueByType_run (t := .list) hget rfl]
  | some p =>
      cases ha : YedisStrtol p with
      | none =>
          left
          simp [lrange, param_run _ hkey, param_run _ hp,
            getValueByType_run (t := .list) hget rfl, ha]
      | some a =>
          cases hq : params[3]? with
          | none =>
              right
              simp [lrange, param_run _ hkey, param_run _ hp, param_none _ hq,
                getValueByType_run (t := .list) hget rfl, ha]
          | some q =>
              cases hb : YedisStrtol q with
              | none =>
                  left
                  simp [lrange, param_run _ hkey, param_run _ hp, param_run _ hq,
                    getValueByType_run (t := .list) hget rfl, ha, hb]
              | some b => exact absurd ⟨p, q, a, b, hp, ha, hq, hb⟩ hno

end YList

end Yedis
