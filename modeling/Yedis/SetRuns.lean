import Yedis.KeySpace
import Yedis.Runs
import Yedis.Session

/-!
# Sets are finite sets

The abstract model keeps a finite set for each key. `SADD` makes it larger and counts
what is new, `SPOP` takes one member out, whichever it is, and the other two tell what
is there. The store simulates this model: a key is bound to its set, or to nothing
where the set is empty.
-/

namespace Yedis
open Function Runs YSet

/-- What a set command asks of a set. -/
inductive SetOp
  | add (members : List Bytes)
  | card
  | listing
  | pop

namespace SetOp

/-- The replies that an operation may give on a set, with what it leaves. On the empty set only
`add` promises one. -/
inductive Performs : SetOp → Finset Bytes → Bytes → Finset Bytes → Prop
  | add (members : List Bytes) (set : Finset Bytes) :
      Performs (.add members) set (formatInt (members.toFinset \ set).card)
        (set ∪ members.toFinset)
  | card {set : Finset Bytes} (h : set ≠ ∅) : Performs .card set (formatInt set.card) set
  | listing {set : Finset Bytes} {listed : List Bytes} (h : set ≠ ∅) (hnodup : listed.Nodup)
      (hlisted : ∀ x, x ∈ listed ↔ x ∈ set) :
      Performs .listing set (preFormatMultiBulk listed.length ++ listed.flatMap formatBulk) set
  | pop {set : Finset Bytes} {x : Bytes} (h : x ∈ set) :
      Performs .pop set (formatBulk x) (set.erase x)
  | nothing {op : SetOp} (hop : ∀ members, op ≠ .add members) (reply : Bytes) :
      Performs op ∅ reply ∅

/-- There is a member to add, and no more than an `int` counts, in which the parser counts the
parameters. -/
def Proper : SetOp → Prop
  | add members => members ≠ [] ∧ members.length < 2147483648
  | _ => True

end SetOp

def Command.setOp (params : List Bytes) : Command → Option SetOp
  | SADD => some (.add (params.drop 2))
  | SCARD => some .card
  | SMEMBERS => some .listing
  | SPOP => some .pop
  | _ => none

/-- The parameters ask for `op` on the set of `key`. -/
def AsksSet (params : List Bytes) (op : SetOp) (key : Bytes) : Prop :=
  ∃ c, addressed params = some (c, key) ∧ c.setOp params = some op ∧ op.Proper

/-- Parameters that a session hands on are few enough. -/
theorem setOp_proper {r : Bytes} {params : List Bytes} (hands : Hands r params) {c : Command}
    {op : SetOp} (hop : c.setOp params = some op)
    (hadd : ∀ members, op = .add members → members ≠ []) : op.Proper := by
  cases c with
  | SADD =>
      cases hop
      have hlen := hands_length hands
      refine ⟨hadd _ rfl, ?_⟩
      rw [List.length_drop]
      omega
  | SCARD | SMEMBERS | SPOP =>
      cases hop
      trivial
  | _ => cases hop

/-- One command on one of the sets. -/
inductive SetStep (sets : Bytes → Finset Bytes) : Call → (Bytes → Finset Bytes) → Prop
  | step {call : Call} {op : SetOp} {key : Bytes} {set' : Finset Bytes}
      (hop : AsksSet call.params op key) (h : op.Performs (sets key) call.reply set') :
      SetStep sets call (update sets key set')

/-- A set command on one of the keys in `K`. -/
def SetCall (K : Set Bytes) (s : YStore) (call : Call) (s' : YStore) : Prop :=
  CallStep s call s' ∧ ∃ op, ∃ key ∈ K, AsksSet call.params op key

/-- What the store holds for a set. -/
def storedSet (m : Finset Bytes) : Option YObject := if m = ∅ then none else some (.set m)

theorem storedSet_of_ne {m : Finset Bytes} (h : m ≠ ∅) : storedSet m = some (.set m) := if_neg h

/-- The handler ends, replies what `op` may reply on `m`, and leaves at the key what `op` then makes
of `m`. -/
def Does (x : Exec YError) (s : YStore) (key : Bytes) (op : SetOp) (m : Finset Bytes) : Prop :=
  ∃ e w' m', x ⟨s, []⟩ = .ok e w' ∧ op.Performs m w'.reply m' ∧
    w'.store.getObject key = storedSet m'

section Handlers
variable {s : YStore} {params : List Bytes} {key : Bytes} {m : Finset Bytes}

theorem sadd_does (hsel : s.Selected) (hkey : params[1]? = some key)
    (hget : s.getObject key = storedSet m) (hproper : (SetOp.add (params.drop 2)).Proper) :
    Does (sadd params) s key (.add (params.drop 2)) m := by
  obtain ⟨hsome, hlen⟩ := hproper
  have hcard : ((params.drop 2).toFinset \ m).card < 2147483648 :=
    (Finset.card_le_card Finset.sdiff_subset).trans_lt
      ((List.toFinset_card_le _).trans_lt hlen)
  have hreply : formatInt (wrap32 (insertAll m (params.drop 2)).2) =
      formatInt ((params.drop 2).toFinset \ m).card := by
    rw [insertAll_snd, wrap32_of_range (by omega) (by omega)]
  have hne : m ∪ (params.drop 2).toFinset ≠ ∅ := by
    obtain ⟨x, hx⟩ := List.exists_mem_of_ne_nil _ hsome
    exact Finset.ne_empty_of_mem (Finset.mem_union_right m (List.mem_toFinset.mpr hx))
  have hstored {t : YStore} (hsel : t.Selected) :
      (t.setValue key (.set (insertAll m (params.drop 2)).1)).getObject key =
        storedSet (m ∪ (params.drop 2).toFinset) := by
    rw [YStore.getObject_setValue hsel, if_pos rfl, insertAll_fst, storedSet_of_ne hne]
  by_cases hm : m = ∅
  · subst hm
    refine ⟨_, _, _, sadd_absent hkey hget, ?_, hstored (hsel.setValue key _)⟩
    rw [added, List.nil_append, hreply]
    exact .add _ _
  · rw [storedSet_of_ne hm] at hget
    refine ⟨_, _, _, sadd_set hkey hget, ?_, hstored hsel⟩
    rw [added, List.nil_append, hreply]
    exact .add _ _

theorem scard_does (hkey : params[1]? = some key) (hget : s.getObject key = storedSet m) :
    Does (scard params) s key .card m := by
  by_cases hm : m = ∅
  · subst hm
    refine ⟨_, _, ∅, scard_absent hkey hget, ?_, hget⟩
    exact .nothing (fun _ h => by cases h) _
  · have hset := hget
    rw [storedSet_of_ne hm] at hset
    exact ⟨_, _, m, scard_set hkey hset, .card hm, hget⟩

theorem smember_does (env : Env) (hkey : params[1]? = some key)
    (hget : s.getObject key = storedSet m) : Does (smember env params) s key .listing m := by
  by_cases hm : m = ∅
  · subst hm
    refine ⟨_, _, ∅, smember_absent hkey hget, ?_, hget⟩
    exact .nothing (fun _ h => by cases h) _
  · have hset := hget
    rw [storedSet_of_ne hm] at hset
    refine ⟨_, _, m, smember_set hkey hset, ?_, hget⟩
    rw [List.nil_append, ← order_length m]
    exact .listing hm (env.order_nodup m) (env.mem_order m)

theorem spop_does (env : Env) (hsel : s.Selected) (hkey : params[1]? = some key)
    (hget : s.getObject key = storedSet m) : Does (spop env params) s key .pop m := by
  by_cases hm : m = ∅
  · subst hm
    refine ⟨_, _, ∅, spop_absent hkey hget, ?_, hget⟩
    exact .nothing (fun _ h => by cases h) _
  · rw [storedSet_of_ne hm] at hget
    have hpick := env.pick_mem m (Finset.nonempty_iff_ne_empty.mpr hm)
    refine ⟨_, _, m.erase (env.pick m), spop_set hkey hget hm, .pop hpick, ?_⟩
    simp only
    rw [storedSet]
    split_ifs with hlast
    · rw [YStore.getObject_deleteKey hsel, if_pos rfl]
    · rw [YStore.getObject_setValue hsel, if_pos rfl]

/-- The handlers of sets do what they are asked for. -/
theorem handler_does (env : Env) {c : Command} {op : SetOp} (hsel : s.Selected)
    (hkey : params[1]? = some key) (hget : s.getObject key = storedSet m)
    (hop : c.setOp params = some op) (hproper : op.Proper) :
    Does (c.handler env params) s key op m := by
  cases c with
  | SADD =>
      cases hop
      exact sadd_does hsel hkey hget hproper
  | SCARD =>
      cases hop
      exact scard_does hkey hget
  | SMEMBERS =>
      cases hop
      exact smember_does env hkey hget
  | SPOP =>
      cases hop
      exact spop_does env hsel hkey hget
  | _ => cases hop

theorem execCommand_does (env : Env) {op : SetOp} (hsel : s.Selected)
    (hasks : AsksSet params op key) (hget : s.getObject key = storedSet m) :
    ∃ w' m', execCommand env params ⟨s, []⟩ = .ok true w' ∧ op.Performs m w'.reply m' ∧
      w'.store.getObject key = storedSet m' := by
  obtain ⟨c, haddr, hop, hproper⟩ := hasks
  obtain ⟨hname, hkey⟩ := addressed_eq_some haddr
  obtain ⟨e, w', m', hrun, hrest⟩ := handler_does env hsel hkey hget hop hproper
  exact ⟨w', m', execCommand_ok hname hrun, hrest⟩

end Handlers

/-- The store holds the sets of the keys in `K`. -/
structure HoldsSets (K : Set Bytes) (s : YStore) (sets : Bytes → Finset Bytes) : Prop where
  selected : s.Selected
  object : ∀ key ∈ K, s.getObject key = storedSet (sets key)

section Steps
variable {K : Set Bytes} {s s' : YStore} {call : Call} {sets : Bytes → Finset Bytes}

theorem SetCall.performs (hR : HoldsSets K s sets) (h : SetCall K s call s') :
    ∃ op key m', key ∈ K ∧ AsksSet call.params op key ∧ op.Performs (sets key) call.reply m' ∧
      HoldsSets K s' (update sets key m') := by
  obtain ⟨hcall, op, key, hK, hasks⟩ := h
  have ⟨env, b, hexec⟩ := hcall
  obtain ⟨w', m', hrun, hperforms, hobj⟩ :=
    execCommand_does env hR.selected hasks (hR.object key hK)
  rw [hexec] at hrun
  simp only [EStateM.Result.ok.injEq] at hrun
  rw [← hrun.2] at hperforms hobj
  have ⟨c, haddr, _⟩ := hasks
  exact ⟨op, key, m', hK, hasks, hperforms, hcall.selected hR.selected,
    hcall.holds_update hR.selected haddr hR.object hobj⟩

theorem SetCall.simulated (hR : HoldsSets K s sets) (h : SetCall K s call s') :
    ∃ sets', SetStep sets call sets' ∧ HoldsSets K s' sets' := by
  obtain ⟨op, key, m', -, hasks, hperforms, hR'⟩ := h.performs hR
  exact ⟨_, .step hasks hperforms, hR'⟩

end Steps

/-- The number in an integer reply. -/
def replied (reply : Bytes) : ℕ := numeral 10 ((reply.drop 1).take (reply.length - 3))

theorem replied_formatInt (n : ℕ) : replied (formatInt n) = n := by
  have htext : formatInt n = 58 :: (decimal n ++ crlf) := by
    rw [formatInt, signedDecimal, if_neg (by omega), Int.natAbs_natCast]
    rfl
  have hlen : (formatInt n).length - 3 = (decimal n).length := by
    rw [htext, List.length_cons, List.length_append, crlf_length]
    omega
  rw [replied, hlen, htext, List.drop_one, List.tail_cons, List.take_left', numeral_decimal]
  rfl

namespace SetOp.Performs
variable {op : SetOp} {m m' : Finset Bytes} {reply : Bytes}

theorem card_add {members : List Bytes} (h : (SetOp.add members).Performs m reply m') :
    m'.card = m.card + replied reply := by
  cases h with
  | add =>
      rw [replied_formatInt, Finset.union_comm, ← Finset.card_sdiff_add_card, Nat.add_comm]
  | nothing hop => exact absurd rfl (hop members)

theorem card_pop (h : SetOp.pop.Performs m reply m') :
    m'.card + (if m = ∅ then 0 else 1) = m.card := by
  cases h with
  | pop hx => rw [if_neg (Finset.ne_empty_of_mem hx), Finset.card_erase_add_one hx]
  | nothing => rw [if_pos rfl, Nat.add_zero]

theorem unchanged (h : op.Performs m reply m') (hadd : ∀ members, op ≠ .add members)
    (hpop : op ≠ .pop) : m' = m := by
  cases h with
  | add members => exact absurd rfl (hadd members)
  | pop => exact absurd rfl hpop
  | _ => rfl

end SetOp.Performs

theorem storedSet_eq_none {m : Finset Bytes} : storedSet m = none ↔ m = ∅ := by
  rw [storedSet]
  split_ifs with h <;> simp [h]

/-- The set of a key, the empty one where there is none. -/
def setAt (s : YStore) (key : Bytes) : Finset Bytes :=
  match s.getObject key with
  | some (.set m) => m
  | _ => ∅

/-- What a step replies as the number of members added to the key. -/
def addedAt (key : Bytes) (t : Transition YStore Call) : ℕ :=
  if addressed t.label.params = some (.SADD, key) then replied t.label.reply else 0

/-- Whether a step takes a member from the key. -/
def poppedAt (key : Bytes) (t : Transition YStore Call) : ℕ :=
  if addressed t.label.params = some (.SPOP, key) ∧ t.src.getObject key ≠ none then 1 else 0

section Steps
variable {K : Set Bytes} {s s' : YStore} {call : Call} {sets : Bytes → Finset Bytes} {key : Bytes}

theorem HoldsSets.setAt_eq (hR : HoldsSets K s sets) (hK : key ∈ K) : setAt s key = sets key := by
  rw [setAt, hR.object key hK]
  by_cases hempty : sets key = ∅
  · rw [hempty]
    rfl
  · rw [storedSet_of_ne hempty]

theorem SetCall.balance (hR : HoldsSets K s sets) (h : SetCall K s call s') (hK : key ∈ K) :
    (setAt s' key).card + poppedAt key ⟨s, call, s'⟩ =
      (setAt s key).card + addedAt key ⟨s, call, s'⟩ := by
  obtain ⟨op, key', m', hK', ⟨c, haddr, hop, -⟩, hperforms, hR'⟩ := h.performs hR
  rw [hR.setAt_eq hK, hR'.setAt_eq hK, poppedAt, addedAt]
  simp only [haddr, hR.object key hK]
  by_cases hkey : key = key'
  · subst hkey
    rw [update_self]
    have hsame (c' : Command) : some (c, key) = some (c', key) ↔ c = c' := by simp
    simp only [hsame, ne_eq, storedSet_eq_none]
    cases c with
    | SADD =>
        cases hop
        rw [hperforms.card_add]
        rfl
    | SPOP =>
        cases hop
        rw [← hperforms.card_pop]
        by_cases hempty : sets key = ∅ <;> simp [hempty]
    | SCARD =>
        cases hop
        rw [hperforms.unchanged (fun _ h => by cases h) (fun h => by cases h)]
        rfl
    | SMEMBERS =>
        cases hop
        rw [hperforms.unchanged (fun _ h => by cases h) (fun h => by cases h)]
        rfl
    | _ => cases hop
  · rw [update_of_ne hkey]
    have hother (c' : Command) : ¬ some (c, key') = some (c', key) := by
      simp [Ne.symm hkey]
    rw [if_neg (hother _), if_neg fun h => hother _ h.1]

end Steps

/-- Every run of set commands on absent keys is a run of the sets with the same commands and
replies. In the end each key is bound to its set, or to nothing if that is empty, its cardinality
is the sum of the replies of `SADD` less the members that were popped, and every further set
command comes to its end. -/
theorem sets_are_finite_sets {K : Set Bytes} {s₀ s : YStore}
    {trace : List (Transition YStore Call)} (hsel : s₀.Selected)
    (habsent : ∀ key ∈ K, s₀.getObject key = none) (run : Run (SetCall K) s₀ trace s) :
    (∃ trace' sets, Run SetStep (fun _ => ∅) trace' sets ∧ labels trace' = labels trace ∧
      ∀ key ∈ K, s.getObject key = (if sets key = ∅ then none else some (.set (sets key))) ∧
        (sets key).card + (trace.map (poppedAt key)).sum = (trace.map (addedAt key)).sum) ∧
    ∀ env params op, ∀ key ∈ K, AsksSet params op key →
      ∃ w', execCommand env params ⟨s, []⟩ = .ok true w' := by
  have hstart : HoldsSets K s₀ fun _ => ∅ := ⟨hsel, habsent⟩
  obtain ⟨trace', sets, hrun, hlabels, hR⟩ :=
    run.simulates hstart fun s l s' sets hR h => h.simulated hR
  refine ⟨⟨trace', sets, hrun, hlabels, fun key hK => ⟨hR.object key hK, ?_⟩⟩, ?_⟩
  · have hbalance : (setAt s key).card + (trace.map (poppedAt key)).sum =
        (setAt s₀ key).card + (trace.map (addedAt key)).sum := by
      apply run.balance (I := fun s => ∃ sets, HoldsSets K s sets) ⟨_, hstart⟩
      · rintro s l s' ⟨sets, hR⟩ h
        obtain ⟨sets', -, hR'⟩ := h.simulated hR
        exact ⟨sets', hR'⟩
      · rintro s l s' ⟨sets, hR⟩ h
        exact h.balance hR hK
    rw [hR.setAt_eq hK, hstart.setAt_eq hK, Finset.card_empty, Nat.zero_add] at hbalance
    exact hbalance
  · intro env params op key hK hasks
    obtain ⟨w', m', hexec, -⟩ := execCommand_does env hR.selected hasks (hR.object key hK)
    exact ⟨w', hexec⟩

/-- Two members, one of them named twice, are added to a key of the empty store. -/
theorem sets_are_finite_sets_sadd : ∃ (call : Call) (s : YStore),
    SetCall Set.univ .start call s ∧
      call = ⟨[ascii "SADD", ascii "k", ascii "a", ascii "b", ascii "a"], ascii ":2\r\n"⟩ ∧
      ∃ trace' sets, Run SetStep (fun _ => ∅) trace' sets ∧ labels trace' = [call] ∧
        ∀ key ∈ Set.univ,
          s.getObject key = (if sets key = ∅ then none else some (.set (sets key))) ∧
          (sets key).card + ([⟨.start, call, s⟩].map (poppedAt key)).sum =
            ([⟨.start, call, s⟩].map (addedAt key)).sum := by
  have hrun : execCommand default [ascii "SADD", ascii "k", ascii "a", ascii "b", ascii "a"]
      ⟨.start, []⟩ = .ok true (added ⟨YStore.start.setValue (ascii "k") .createSet, []⟩
        (ascii "k") ∅ [ascii "a", ascii "b", ascii "a"]) :=
    execCommand_ok (c := .SADD) rfl (sadd_absent rfl (YStore.getObject_start _))
  have hstep : SetCall Set.univ .start
      ⟨[ascii "SADD", ascii "k", ascii "a", ascii "b", ascii "a"], ascii ":2\r\n"⟩ _ :=
    ⟨⟨default, true, hrun⟩, _, ascii "k", Set.mem_univ _, .SADD, by decide, rfl,
      List.cons_ne_nil _ _, by decide⟩
  exact ⟨_, _, hstep, rfl, (sets_are_finite_sets YStore.selected_start
    (fun key _ => YStore.getObject_start key) (.next .start hstep)).1⟩

end Yedis
