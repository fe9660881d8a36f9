import Yedis.Runs
import Yedis.Store

/-!
# Selecting databases

`init` resizes `m_vecStore`, `selectDB` checks the number it is given, and every operation on a
key goes to `m_vecStore[m_nDbno]` without a check. `init` leaves `m_nDbno` alone, so that a
smaller number of databases can leave it out of range.
-/

namespace Yedis
open Runs

inductive StoreCall
  | init (dbNum : ℤ)
  | selectDB (dbno : ℤ)
  | setValue (key : Bytes) (value : YObject)
  | deleteKey (key : Bytes)
  | getValueByType (key : Bytes) (type : YType)

namespace StoreCall

/-- The calls that go to `m_vecStore[m_nDbno]`. -/
def OnKey : StoreCall → Prop
  | init _ => False
  | selectDB _ => False
  | setValue _ _ => True
  | deleteKey _ => True
  | getValueByType _ _ => True

def after (self : YStore) : StoreCall → YStore
  | init dbNum => self.init dbNum
  | selectDB dbno => (self.selectDB dbno).2
  | setValue key value => self.setValue key value
  | deleteKey key => self.deleteKey key
  | getValueByType _ _ => self

end StoreCall

namespace YStore

/-- `m_nDbno` is an index of `m_vecStore`. -/
def ValidIndex (self : YStore) : Prop := 0 ≤ self.nDbno ∧ self.nDbno < self.vecStore.length

instance : DecidablePred ValidIndex := fun self =>
  inferInstanceAs (Decidable (0 ≤ self.nDbno ∧ self.nDbno < self.vecStore.length))

/-- The number of databases that `init(dbNum)` leaves. -/
def databases (dbNum : ℤ) : ℤ := max 1 (min dbNum kMaxDbNum)

variable {self : YStore}

theorem databases_pos (dbNum : ℤ) : 1 ≤ databases dbNum := le_max_left _ _

theorem length_init (self : YStore) (dbNum : ℤ) :
    ((self.init dbNum).vecStore.length : ℤ) = databases dbNum := by
  have hcount : (if dbNum < 1 then 1 else if kMaxDbNum < dbNum then kMaxDbNum else dbNum) =
      databases dbNum := by
    unfold databases kMaxDbNum
    split_ifs with hsmall hlarge
    · omega
    · omega
    · omega
  have hpos := databases_pos dbNum
  rw [init, hcount, List.length_append, List.length_take, List.length_replicate]
  omega

theorem validIndex_init_iff (h : self.ValidIndex) (dbNum : ℤ) :
    (self.init dbNum).ValidIndex ↔ self.nDbno < databases dbNum := by
  rw [ValidIndex, length_init]
  exact and_iff_right h.1

theorem validIndex_first (dbNum : ℤ) : (YStore.init {} dbNum).ValidIndex := by
  rw [ValidIndex, length_init]
  exact ⟨le_rfl, databases_pos dbNum⟩

theorem ValidIndex.selectDB (h : self.ValidIndex) (dbno : ℤ) :
    (self.selectDB dbno).2.ValidIndex := by
  unfold YStore.selectDB
  split_ifs with hsame hrange
  · exact h
  · exact hrange
  · exact h

/-- The number −1 that reports a refusal is no index. -/
theorem selectDB_refused (h : self.ValidIndex) {dbno : ℤ} (hrefused : (self.selectDB dbno).1 = -1) :
    (self.selectDB dbno).2 = self := by
  unfold YStore.selectDB at hrefused ⊢
  have hindex := h.1
  split_ifs at hrefused ⊢ with hsame hrange
  · rfl
  · change self.nDbno = -1 at hrefused
    omega
  · rfl

theorem ValidIndex.withDB (h : self.ValidIndex) (db : YDB) : (self.withDB db).ValidIndex := by
  unfold ValidIndex YStore.withDB
  rw [List.length_set]
  exact h

theorem getElem?_withDB (h : self.ValidIndex) (db : YDB) {i : ℕ} (hi : (i : ℤ) ≠ self.nDbno) :
    (self.withDB db).vecStore[i]? = self.vecStore[i]? := by
  have hindex := h.1
  exact List.getElem?_set_ne (by omega)

end YStore

/-- A call on a key without a selected database may do anything. -/
inductive StoreStep : YStore → StoreCall → YStore → Prop
  | defined (s : YStore) (call : StoreCall) (hindex : call.OnKey → s.ValidIndex) :
      StoreStep s call (call.after s)
  | undefined (s s' : YStore) (call : StoreCall) (hkey : call.OnKey) (hindex : ¬ s.ValidIndex) :
      StoreStep s call s'

/-- What a call promises of the databases. -/
structure StoreCall.Sound (t : Transition YStore StoreCall) : Prop where
  index : t.dst.ValidIndex
  refused : ∀ dbno, t.label = .selectDB dbno → (t.src.selectDB dbno).1 = -1 → t.dst = t.src
  selected : t.label.OnKey → t.dst.nDbno = t.src.nDbno
  others : t.label.OnKey → ∀ i : ℕ, (i : ℤ) ≠ t.src.nDbno →
    t.dst.vecStore[i]? = t.src.vecStore[i]?

/-- An `init` keeps the selected database. -/
def StoreCall.KeepsSelected (s : YStore) (call : StoreCall) : Prop :=
  ∀ dbNum, call = .init dbNum → s.nDbno < YStore.databases dbNum

namespace StoreStep
variable {s s' : YStore} {call : StoreCall}

theorem eq_after (h : StoreStep s call s') (hindex : s.ValidIndex) : s' = call.after s := by
  cases h with
  | defined => rfl
  | undefined _ _ _ hinvalid => exact absurd hindex hinvalid

theorem validIndex_iff (h : StoreStep s call s') (hindex : s.ValidIndex) :
    s'.ValidIndex ↔ call.KeepsSelected s := by
  rw [h.eq_after hindex]
  cases call with
  | init dbNum =>
      refine (YStore.validIndex_init_iff hindex dbNum).trans ⟨fun hkept n hn => ?_, fun hkept => ?_⟩
      · rw [← StoreCall.init.inj hn]
        exact hkept
      · exact hkept dbNum rfl
  | selectDB dbno => exact iff_of_true (hindex.selectDB dbno) nofun
  | setValue key value => exact iff_of_true (hindex.withDB _) nofun
  | deleteKey key => exact iff_of_true (hindex.withDB _) nofun
  | getValueByType key type => exact iff_of_true hindex nofun

theorem sound (h : StoreStep s call s') (hindex : s.ValidIndex) (hindex' : s'.ValidIndex) :
    StoreCall.Sound ⟨s, call, s'⟩ := by
  have hafter := h.eq_after hindex
  refine ⟨hindex', fun dbno hcall hrefused => ?_, fun hkey => ?_, fun hkey i hi => ?_⟩
  · obtain rfl : call = .selectDB dbno := hcall
    exact hafter.trans (YStore.selectDB_refused hindex hrefused)
  · change s'.nDbno = s.nDbno
    rw [hafter]
    cases call with
    | init => exact hkey.elim
    | selectDB => exact hkey.elim
    | setValue => rfl
    | deleteKey => rfl
    | getValueByType => rfl
  · change s'.vecStore[i]? = s.vecStore[i]?
    rw [hafter]
    cases call with
    | init => exact hkey.elim
    | selectDB => exact hkey.elim
    | setValue => exact YStore.getElem?_withDB hindex _ hi
    | deleteKey => exact YStore.getElem?_withDB hindex _ hi
    | getValueByType => rfl

end StoreStep

section Runs
variable {s₀ s : YStore} {trace : List (Transition YStore StoreCall)}

theorem sound_of_validIndex (run : Run StoreStep s₀ trace s) (h₀ : s₀.ValidIndex)
    (hall : ∀ t ∈ trace, t.dst.ValidIndex) : ∀ t ∈ trace, StoreCall.Sound t := by
  induction run with
  | start => simp
  | next run h ih =>
      rw [List.forall_mem_cons] at hall
      have hsrc := run.last_of_all h₀ hall.2
      exact List.forall_mem_cons.mpr ⟨h.sound hsrc hall.1, ih hall.2⟩

/-- From the first `init` on every call is sound if and only if no later `init` cuts the selected
database off. -/
theorem database_selection_sound {dbNum : ℤ}
    (run : Run StoreStep (YStore.init {} dbNum) trace s) :
    (YStore.init {} dbNum).ValidIndex ∧
      ((∀ t ∈ trace, StoreCall.Sound t) ↔ ∀ t ∈ trace, t.label.KeepsSelected t.src) := by
  have hfirst := YStore.validIndex_first dbNum
  refine ⟨hfirst, ?_⟩
  have hindex := run.always_iff (I := fun _ => True) (P := YStore.ValidIndex)
    (Q := fun s call => call.KeepsSelected s) trivial (fun _ _ _ _ _ => trivial) hfirst
    (fun _ _ _ _ hvalid hstep => hstep.validIndex_iff hvalid)
  rw [← hindex]
  exact ⟨fun hsound t ht => (hsound t ht).index, sound_of_validIndex run hfirst⟩

end Runs

/-- Eleven databases are enough for the one with the number 10. -/
theorem database_selection_sound_ten :
    ∃ trace s, Run StoreStep (YStore.init {} 16) trace s ∧
      labels trace = [.init 11, .setValue [107] (.raw [118]), .selectDB 10] ∧
      ∀ t ∈ trace, StoreCall.Sound t := by
  have run₁ := Run.start.next (StoreStep.defined (YStore.init {} 16) (.selectDB 10) nofun)
  have run₂ := run₁.next (.defined _ (.setValue [107] (.raw [118])) fun _ => by decide)
  have run₃ := run₂.next (.defined _ (.init 11) nofun)
  refine ⟨_, _, run₃, rfl, (database_selection_sound run₃).2.mpr ?_⟩
  refine List.forall_mem_cons.mpr ⟨fun dbNum hcall => ?_, List.forall_mem_cons.mpr ⟨nofun,
    List.forall_mem_cons.mpr ⟨nofun, by simp⟩⟩⟩
  rw [← StoreCall.init.inj hcall]
  decide

/-- The database with the number 10 stays selected when one database is left. -/
theorem database_selection_lost :
    ∃ trace s, Run StoreStep (YStore.init {} 16) trace s ∧
      labels trace = [.init 1, .selectDB 10] ∧ s.nDbno = 10 ∧ s.vecStore.length = 1 ∧
      ¬ s.ValidIndex ∧ ¬ ∀ t ∈ trace, StoreCall.Sound t := by
  have run₁ := Run.start.next (StoreStep.defined (YStore.init {} 16) (.selectDB 10) nofun)
  have run₂ := run₁.next (.defined _ (.init 1) nofun)
  refine ⟨_, _, run₂, rfl, rfl, rfl, by decide, fun hsound => ?_⟩
  exact absurd (hsound _ List.mem_cons_self).index (by decide)

end Yedis
