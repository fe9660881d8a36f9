import Yedis.Deque
import Yedis.KeySpace
import Yedis.Runs

/-!
# Lists are double-ended sequences

The abstract model keeps a sequence for each key. The list commands read and change
it at its ends and reply with its length or with the element they took. The store
simulates this model: a key is bound to its sequence, or to nothing where the
sequence is empty.
-/

namespace Yedis
open Deque Runs YList

/-- What a list command asks of a sequence. Without `create` nothing is pushed onto an empty one. -/
inductive DequeOp
  | push (e : End) (create : Bool) (elements : List Bytes)
  | pop (e : End)
  | length

namespace DequeOp

def next : DequeOp → List Bytes → List Bytes
  | push e create elements, l => if create = false ∧ l = [] then l else pushAll e elements l
  | pop e, l =>
    match Deque.pop e l with
    | some (_, rest) => rest
    | none => l
  | length, l => l

def reply : DequeOp → List Bytes → Bytes
  | push e create elements, l =>
    if create = false ∧ l = [] then noSuchKey else formatInt (pushAll e elements l).length
  | pop e, l =>
    match Deque.pop e l with
    | some (x, _) => formatBulk x
    | none => []
  | length, l => formatInt l.length

/-- A push has an element. -/
def Proper : DequeOp → Prop
  | push _ _ elements => elements ≠ []
  | _ => True

end DequeOp

def Command.dequeOp (params : List Bytes) : Command → Option DequeOp
  | LPUSH => some (.push .front true (params.drop 2))
  | RPUSH => some (.push .back true (params.drop 2))
  | LPUSHX => some (.push .front false (params.drop 2))
  | RPUSHX => some (.push .back false (params.drop 2))
  | LPOP => some (.pop .front)
  | RPOP => some (.pop .back)
  | LLEN => some .length
  | _ => none

/-- The parameters ask for `op` on the sequence of `key`. -/
def AsksFor (params : List Bytes) (op : DequeOp) (key : Bytes) : Prop :=
  ∃ c, addressed params = some (c, key) ∧ c.dequeOp params = some op ∧ op.Proper

/-- One command on one of the sequences. -/
inductive DequeStep (seqs : Bytes → List Bytes) : Call → (Bytes → List Bytes) → Prop
  | step {call : Call} {op : DequeOp} {key : Bytes} (hop : AsksFor call.params op key)
      (hreply : call.reply = op.reply (seqs key)) :
      DequeStep seqs call (Function.update seqs key (op.next (seqs key)))

/-- A list command on one of the keys in `K`, a push with an element. -/
def ListStep (K : Set Bytes) (s : YStore) (call : Call) (s' : YStore) : Prop :=
  CallStep s call s' ∧ ∃ op, ∃ key ∈ K, AsksFor call.params op key

/-- What the store holds for a sequence. -/
def stored (l : List Bytes) : Option YObject := if l = [] then none else some (.list l)

/-- The sequences of the keys that hold lists. -/
def sequences (s : YStore) (key : Bytes) : List Bytes :=
  match s.getObject key with
  | some (.list l) => l
  | _ => []

def toEnd : ListPosition → End
  | .head => .front
  | .tail => .back

theorem pushAll_eq (pos : ListPosition) (l elements : List Bytes) :
    YList.pushAll pos l elements = Deque.pushAll (toEnd pos) elements l := by
  unfold YList.pushAll Deque.pushAll
  congr 1
  funext list p
  cases pos <;> rfl

theorem pop_cons (pos : ListPosition) (front : Bytes) (rest : List Bytes) :
    Deque.pop (toEnd pos) (front :: rest) = some (takeElement pos front rest) := by
  cases pos <;> rfl

theorem stored_of_ne {l : List Bytes} (h : l ≠ []) : stored l = some (.list l) := if_neg h

/-- The handler ends, replies what `op` replies on `l`, and leaves at the key what `op` makes of
`l`. -/
def Performs (x : Exec YError) (s : YStore) (key : Bytes) (op : DequeOp) (l : List Bytes) : Prop :=
  ∃ e w', x ⟨s, []⟩ = .ok e w' ∧ w'.reply = op.reply l ∧
    w'.store.getObject key = stored (op.next l)

section Handlers
variable {s : YStore} {params : List Bytes} {key : Bytes} {l : List Bytes}

theorem push_performs (hsel : s.Selected) (hkey : params[1]? = some key)
    (hget : s.getObject key = stored l) (pos : ListPosition) (create : Bool)
    (hproper : params.drop 2 ≠ []) :
    Performs (push params pos create) s key (.push (toEnd pos) create (params.drop 2)) l := by
  by_cases hrefused : create = false ∧ l = []
  · obtain ⟨rfl, rfl⟩ := hrefused
    exact ⟨_, _, push_absent hkey hget pos, rfl, hget⟩
  · have hne : Deque.pushAll (toEnd pos) (params.drop 2) l ≠ [] := pushAll_ne_nil _ l hproper
    have hreply : DequeOp.reply (.push (toEnd pos) create (params.drop 2)) l =
        formatInt (Deque.pushAll (toEnd pos) (params.drop 2) l).length := if_neg hrefused
    have hnext : DequeOp.next (.push (toEnd pos) create (params.drop 2)) l =
        Deque.pushAll (toEnd pos) (params.drop 2) l := if_neg hrefused
    unfold Performs
    rw [hreply, hnext, stored_of_ne hne]
    by_cases hl : l = []
    · subst hl
      obtain rfl : create = true := by simpa using hrefused
      refine ⟨_, _, push_create hkey hget pos, ?_, ?_⟩
      · rw [pushed, pushAll_eq]
        rfl
      · simp only [pushed]
        rw [YStore.getObject_setValue (hsel.setValue key _), if_pos rfl, pushAll_eq]
    · rw [stored_of_ne hl] at hget
      refine ⟨_, _, push_list hkey hget pos create, ?_, ?_⟩
      · rw [pushed, pushAll_eq]
        rfl
      · simp only [pushed]
        rw [YStore.getObject_setValue hsel, if_pos rfl, pushAll_eq]

theorem popCmd_performs (hsel : s.Selected) (hkey : params[1]? = some key)
    (hget : s.getObject key = stored l) (pos : ListPosition) :
    Performs (popCmd pos params) s key (.pop (toEnd pos)) l := by
  cases l with
  | nil =>
      have hnone := pop_nil (α := Bytes) (toEnd pos)
      refine ⟨_, _, popCmd_absent hkey hget pos, ?_, ?_⟩
      · rw [DequeOp.reply, hnone]
      · rw [DequeOp.next, hnone]
        exact hget
  | cons front rest =>
      rw [stored_of_ne (List.cons_ne_nil front rest)] at hget
      refine ⟨_, _, popCmd_list hkey hget pos, ?_, ?_⟩
      · rw [DequeOp.reply, pop_cons]
        rfl
      · rw [DequeOp.next, pop_cons]
        simp only
        rw [stored]
        split_ifs with hlast
        · rw [YStore.getObject_deleteKey hsel, if_pos rfl]
        · rw [YStore.getObject_setValue hsel, if_pos rfl]

theorem llen_performs (hkey : params[1]? = some key) (hget : s.getObject key = stored l) :
    Performs (llen params) s key .length l := by
  by_cases hl : l = []
  · subst hl
    exact ⟨_, _, llen_absent hkey hget, rfl, hget⟩
  · have hlist := hget
    rw [stored_of_ne hl] at hlist
    exact ⟨_, _, llen_list hkey hlist, rfl, hget⟩

/-- The handlers of lists do what they are asked for. -/
theorem handler_performs (env : Env) {c : Command} {op : DequeOp} (hsel : s.Selected)
    (hkey : params[1]? = some key) (hget : s.getObject key = stored l)
    (hop : c.dequeOp params = some op) (hproper : op.Proper) :
    Performs (c.handler env params) s key op l := by
  cases c with
  | LPUSH =>
      cases hop
      exact push_performs hsel hkey hget .head true hproper
  | RPUSH =>
      cases hop
      exact push_performs hsel hkey hget .tail true hproper
  | LPUSHX =>
      cases hop
      exact push_performs hsel hkey hget .head false hproper
  | RPUSHX =>
      cases hop
      exact push_performs hsel hkey hget .tail false hproper
  | LPOP =>
      cases hop
      exact popCmd_performs hsel hkey hget .head
  | RPOP =>
      cases hop
      exact popCmd_performs hsel hkey hget .tail
  | LLEN =>
      cases hop
      exact llen_performs hkey hget
  | _ => cases hop

theorem execCommand_performs (env : Env) {op : DequeOp} (hsel : s.Selected)
    (hasks : AsksFor params op key) (hget : s.getObject key = stored l) :
    ∃ w', execCommand env params ⟨s, []⟩ = .ok true w' ∧ w'.reply = op.reply l ∧
      w'.store.getObject key = stored (op.next l) := by
  obtain ⟨c, haddr, hop, hproper⟩ := hasks
  obtain ⟨hname, hkey⟩ := addressed_eq_some haddr
  obtain ⟨e, w', hrun, hrest⟩ := handler_performs env hsel hkey hget hop hproper
  exact ⟨w', execCommand_ok hname hrun, hrest⟩

end Handlers

/-- The store holds the sequences of the keys in `K`. -/
structure HoldsSequences (K : Set Bytes) (s : YStore) (seqs : Bytes → List Bytes) : Prop where
  selected : s.Selected
  object : ∀ key ∈ K, s.getObject key = stored (seqs key)

/-- A list command is a step of the model. -/
theorem ListStep.simulated {K : Set Bytes} {s s' : YStore} {call : Call}
    {seqs : Bytes → List Bytes} (hR : HoldsSequences K s seqs) (h : ListStep K s call s') :
    ∃ seqs', DequeStep seqs call seqs' ∧ HoldsSequences K s' seqs' := by
  obtain ⟨hcall, op, key, hK, hasks⟩ := h
  have ⟨env, b, hexec⟩ := hcall
  obtain ⟨w', hrun, hreply, hobj⟩ :=
    execCommand_performs env hR.selected hasks (hR.object key hK)
  rw [hexec] at hrun
  simp only [EStateM.Result.ok.injEq] at hrun
  rw [← hrun.2] at hreply hobj
  have ⟨c, haddr, _⟩ := hasks
  exact ⟨_, .step hasks hreply, hcall.selected hR.selected,
    hcall.holds_update hR.selected haddr hR.object hobj⟩

theorem holdsSequences_start {K : Set Bytes} {s : YStore} (hsel : s.Selected)
    (hlists : ∀ key ∈ K, s.getObject key = none ∨
      ∃ l, l ≠ [] ∧ s.getObject key = some (.list l)) :
    HoldsSequences K s (sequences s) := by
  refine ⟨hsel, fun key hK => ?_⟩
  rcases hlists key hK with hnone | ⟨l, hne, hlist⟩
  · rw [sequences, hnone]
    rfl
  · rw [sequences, hlist, stored_of_ne hne]

/-- Every run of list commands on keys that hold lists or nothing is a run of the sequences with the
same commands and replies. In the end each key is bound to its sequence, or to nothing if that is
empty, and every further list command comes to its end. -/
theorem lists_are_deques {K : Set Bytes} {s₀ s : YStore} {trace : List (Transition YStore Call)}
    (hsel : s₀.Selected)
    (hlists : ∀ key ∈ K, s₀.getObject key = none ∨
      ∃ l, l ≠ [] ∧ s₀.getObject key = some (.list l))
    (run : Run (ListStep K) s₀ trace s) :
    (∃ trace' seqs, Run DequeStep (sequences s₀) trace' seqs ∧ labels trace' = labels trace ∧
      ∀ key ∈ K, s.getObject key = if seqs key = [] then none else some (.list (seqs key))) ∧
    ∀ env params op, ∀ key ∈ K, AsksFor params op key →
      ∃ w', execCommand env params ⟨s, []⟩ = .ok true w' := by
  obtain ⟨trace', seqs, hrun, hlabels, hR⟩ := run.simulates
    (holdsSequences_start hsel hlists) fun s l s' seqs hR h => h.simulated hR
  refine ⟨⟨trace', seqs, hrun, hlabels, hR.object⟩, fun env params op key hK hasks => ?_⟩
  obtain ⟨w', hexec, -⟩ := execCommand_performs env hR.selected hasks (hR.object key hK)
  exact ⟨w', hexec⟩

/-- A push of two elements onto a key of the empty store. -/
theorem lists_are_deques_push : ∃ (call : Call) (s : YStore),
    ListStep Set.univ .start call s ∧
      call.params = [ascii "LPUSH", ascii "k", ascii "a", ascii "b"] ∧
      ∃ trace' seqs, Run DequeStep (sequences .start) trace' seqs ∧ labels trace' = [call] ∧
        ∀ key ∈ Set.univ,
          s.getObject key = if seqs key = [] then none else some (.list (seqs key)) := by
  have hrun : execCommand default [ascii "LPUSH", ascii "k", ascii "a", ascii "b"] ⟨.start, []⟩ =
      .ok true (pushed ⟨YStore.start.setValue (ascii "k") .createList, []⟩ (ascii "k") .head []
        [ascii "a", ascii "b"]) :=
    execCommand_ok (c := .LPUSH) rfl (push_create rfl (YStore.getObject_start _) .head)
  have hstep : ListStep Set.univ .start
      ⟨[ascii "LPUSH", ascii "k", ascii "a", ascii "b"], ascii ":2\r\n"⟩ _ :=
    ⟨⟨default, true, hrun⟩, _, ascii "k", Set.mem_univ _, .LPUSH, by decide, rfl,
      List.cons_ne_nil _ _⟩
  exact ⟨_, _, hstep, rfl, (lists_are_deques YStore.selected_start
    (fun key _ => Or.inl (YStore.getObject_start key)) (.next .start hstep)).1⟩

end Yedis
