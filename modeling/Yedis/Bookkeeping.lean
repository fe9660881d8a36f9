import Yedis.EpollPoller
import Yedis.Runs

/-!
# The books of a poller

A channel's index, `mapChannels` and the interest table tell the same story after
every call as long as `remove` is never called on a channel that is registered for
no events: it is then forgotten and stays registered.
-/

namespace Yedis
open Function Runs EPollPoller

variable {Chan : Type} [DecidableEq Chan] {fd : Chan → ℤ}

/-- The calls of a channel on its poller. -/
inductive ChannelCall
  | interest (call : InterestCall)
  | remove
  deriving DecidableEq

def ChannelCall.run (fd : Chan → ℤ) (c : Chan) (s : EPollPoller Chan) :
    ChannelCall → EPollPoller Chan
  | interest call => (call.run fd c s).2
  | remove => s.removeChannel fd c

def PollerStep (fd : Chan → ℤ) (s : EPollPoller Chan) (l : Chan × ChannelCall)
    (s' : EPollPoller Chan) : Prop := l.2.run fd l.1 s = s'

/-- The index of a channel says where its descriptor is. -/
structure Bookkeeping (fd : Chan → ℤ) (s : EPollPoller Chan) (c : Chan) : Prop where
  added : (s.channels c).nIndex = .kAdded ↔ s.table (fd c) ≠ none
  deleted : (s.channels c).nIndex = .kDeleted ↔ s.mapChannels (fd c) ≠ none ∧ s.table (fd c) = none
  new : (s.channels c).nIndex = .kNew ↔ s.mapChannels (fd c) = none ∧ s.table (fd c) = none

/-- The call takes a channel out of the map that is registered for no events. -/
def Forgets (s : EPollPoller Chan) (l : Chan × ChannelCall) : Prop :=
  l.2 = .remove ∧ (s.channels l.1).nIndex = .kAdded ∧ (s.channels l.1).isNoneEvent

omit [DecidableEq Chan] in
theorem bookkeeping_iff {s : EPollPoller Chan} {c : Chan} (hp : s.Placed fd c) :
    Bookkeeping fd s c ↔ s.Registered fd c := by
  unfold Registered
  rw [Option.isSome_iff_ne_none]
  refine ⟨Bookkeeping.added, fun hadded => ⟨hadded, ?_, ?_⟩⟩
  · cases hindex : (s.channels c).nIndex <;> simp_all [Placed]
  · cases hindex : (s.channels c).nIndex <;> simp_all [Placed]

theorem PollerStep.placed {s s' : EPollPoller Chan} {l : Chan × ChannelCall} (hfd : Injective fd)
    (h : PollerStep fd s l s') (hp : ∀ c, s.Placed fd c) (c : Chan) : s'.Placed fd c := by
  obtain ⟨b, call⟩ := l
  obtain rfl := h
  cases call with
  | interest call => exact call.placed hfd hp b c
  | remove => exact placed_removeChannel hfd hp b c

/-- `remove` keeps the books exactly when it does not forget a registered channel. -/
theorem registered_remove_iff {s : EPollPoller Chan} (hp : ∀ c, s.Placed fd c)
    (hr : ∀ c, s.Registered fd c) (c : Chan) :
    (∀ c', (s.removeChannel fd c).Registered fd c') ↔
      ¬ ((s.channels c).nIndex = .kAdded ∧ (s.channels c).isNoneEvent) := by
  rw [removeChannel_eq (hp c)]
  constructor
  · rintro hall ⟨hadded, hnone⟩
    have hreg := hall c
    rw [if_pos ⟨by rw [hadded]; decide, hnone⟩, Registered, setIndex_self, setIndex_table] at hreg
    have htable := (hr c).mp hadded
    exact absurd (hreg.mpr htable) (by simp)
  · intro hkept c'
    split_ifs with htaken
    · by_cases h : c' = c
      · subst h
        have hindex : (s.channels c').nIndex ≠ .kAdded := fun hadded => hkept ⟨hadded, htaken.2⟩
        have htable := (hr c').not.mp hindex
        rw [Registered, setIndex_self, setIndex_table]
        exact iff_of_false (by simp) htable
      · rw [Registered, setIndex_of_ne _ _ h]
        exact hr c'
    · exact hr c'

/-- After every call of a run the books are right for every channel, if and only if no call forgets
a registered channel. -/
theorem poller_bookkeeping (hfd : Injective fd) {s : EPollPoller Chan}
    {trace : List (Transition (EPollPoller Chan) (Chan × ChannelCall))}
    (run : Run (PollerStep fd) {} trace s) :
    (∀ t ∈ trace, ∀ c, Bookkeeping fd t.dst c) ↔ ∀ t ∈ trace, ¬ Forgets t.src t.label := by
  refine run.always_iff (I := fun s => ∀ c, s.Placed fd c) (P := fun s => ∀ c, Bookkeeping fd s c)
    (Q := fun s l => ¬ Forgets s l) ?_ (fun s l s' hp h => h.placed hfd hp) ?_ ?_
  · exact fun c => rfl
  · intro c
    exact ⟨by simp, by simp, by simp⟩
  · intro s l s' hp hbooks h
    have hp' := h.placed hfd hp
    have hr : ∀ c, s.Registered fd c := fun c => (bookkeeping_iff (hp c)).mp (hbooks c)
    have hbooks' : (∀ c, Bookkeeping fd s' c) ↔ ∀ c, s'.Registered fd c :=
      forall_congr' fun c => bookkeeping_iff (hp' c)
    rw [hbooks']
    obtain ⟨c, call⟩ := l
    obtain rfl := h
    cases call with
    | interest call =>
        apply iff_of_true (call.registered hfd hp hr c)
        rintro ⟨hremove, -⟩
        cases hremove
    | remove =>
        have hforgets : Forgets s (c, .remove) ↔
            (s.channels c).nIndex = .kAdded ∧ (s.channels c).isNoneEvent := and_iff_right rfl
        rw [hforgets]
        exact registered_remove_iff hp hr c

/-- Reading enabled, everything disabled, and the channel removed. -/
theorem poller_bookkeeping_removed :
    let s₁ := (InterestCall.enableReading.run (fun _ : Unit => 7) () {}).2
    let s₂ := (InterestCall.disableAll.run (fun _ : Unit => 7) () s₁).2
    Bookkeeping (fun _ : Unit => 7) (s₂.removeChannel (fun _ => 7) ()) () := by
  intro s₁ s₂
  have hfd : Injective fun _ : Unit => (7 : ℤ) := fun a b _ => rfl
  have h₁ : PollerStep (fun _ : Unit => 7) {} ((), .interest .enableReading) s₁ := rfl
  have h₂ : PollerStep (fun _ : Unit => 7) s₁ ((), .interest .disableAll) s₂ := rfl
  have h₃ : PollerStep (fun _ : Unit => 7) s₂ ((), .remove) (s₂.removeChannel (fun _ => 7) ()) :=
    rfl
  have run := ((Run.start.next h₁).next h₂).next h₃
  refine (poller_bookkeeping hfd run).mpr ?_ _ List.mem_cons_self ()
  simp only [List.forall_mem_cons]
  refine ⟨?_, ?_, ?_, by simp⟩
  · rintro ⟨-, hadded, -⟩
    exact absurd hadded (by decide)
  · rintro ⟨hremove, -⟩
    cases hremove
  · rintro ⟨hremove, -⟩
    cases hremove

/-- A new channel on which `disableAll` and then `remove` is called stays registered. -/
theorem poller_bookkeeping_fails :
    let s₁ := (InterestCall.disableAll.run (fun _ : Unit => 7) () {}).2
    let s₂ := s₁.removeChannel (fun _ => 7) ()
    s₂.mapChannels 7 = none ∧ (s₂.channels ()).nIndex = .kNew ∧ (s₂.table 7).isSome ∧
      ¬ Bookkeeping (fun _ : Unit => 7) s₂ () := by
  intro s₁ s₂
  have hnew : (s₂.channels ()).nIndex = .kNew := by decide
  have htable : (s₂.table 7).isSome := by decide
  refine ⟨by decide, hnew, htable, fun h => ?_⟩
  have hnone := (h.new.mp hnew).2
  rw [hnone] at htable
  cases htable

end Yedis
