import Yedis.Exec

/-!
# A random member of a hash container

`randomHashMember` draws buckets until one is not empty and then walks to a random offset in it.
A container is its buckets, and a stream of numbers is what the calls of `random` return. The
loop is cut after a number of rounds; `none` means that it is still running.
-/

namespace Yedis

/-- What the standard library leaves undefined. -/
inductive HashFault
  | divisionByZero
  | noBucket
  | pastEnd
  deriving DecidableEq, Repr

/-- A local iterator walks one bucket, of which `rest` is left; `singular` is in no container. -/
inductive LocalIterator (α : Type)
  | singular
  | inBucket (bucket : ℕ) (rest : List α)
  deriving DecidableEq, Repr

variable {α : Type}

def modulo (x n : ℕ) : Except HashFault ℕ :=
  if n = 0 then .error .divisionByZero else .ok (x % n)

def bucketAt (container : List (List α)) (bucket : ℕ) : Except HashFault (List α) :=
  match container[bucket]? with
  | some members => .ok members
  | none => .error .noBucket

/-- `++it`, `lucky` times. -/
def advance : ℕ → LocalIterator α → Except HashFault (LocalIterator α)
  | 0, it => .ok it
  | _ + 1, .singular => .error .pastEnd
  | _ + 1, .inBucket _ [] => .error .pastEnd
  | lucky + 1, .inBucket bucket (_ :: rest) => advance lucky (.inBucket bucket rest)

/-- The `while` loop after some `calls` of `random`. -/
def chooseLoop (random : ℕ → ℕ) (container : List (List α)) :
    ℕ → ℕ → Except HashFault (Option (LocalIterator α))
  | 0, _ => .ok none
  | rounds + 1, calls => do
    let bucket ← modulo (random calls) container.length
    let members ← bucketAt container bucket
    if members.length = 0 then
      chooseLoop random container rounds (calls + 1)
    else
      let lucky ← modulo (random (calls + 1)) members.length
      return some (← advance lucky (.inBucket bucket members))

def randomHashMember (random : ℕ → ℕ) (container : List (List α)) (rounds : ℕ) :
    Except HashFault (Option (LocalIterator α)) :=
  if container.flatten.isEmpty then .ok (some .singular) else chooseLoop random container rounds 0

/-- `random` returns numbers of 31 bits. -/
def FromRandom (random : ℕ → ℕ) : Prop := ∀ i, random i < 2147483648

variable {random : ℕ → ℕ} {container : List (List α)} {members : List α}

theorem advance_inBucket {lucky : ℕ} (h : lucky ≤ members.length) (bucket : ℕ) :
    advance lucky (.inBucket bucket members) = .ok (.inBucket bucket (members.drop lucky)) := by
  induction lucky generalizing members with
  | zero => rfl
  | succ lucky ih =>
      cases members with
      | nil => exact absurd h (Nat.not_succ_le_zero lucky)
      | cons x members =>
          rw [advance, ih (Nat.le_of_succ_le_succ h)]
          rfl

/-- The draw of a bucket. -/
theorem chooseLoop_succ {calls : ℕ}
    (h : container[random calls % container.length]? = some members) (rounds : ℕ) :
    chooseLoop random container (rounds + 1) calls =
      if members = [] then chooseLoop random container rounds (calls + 1)
      else .ok (some (.inBucket (random calls % container.length)
        (members.drop (random (calls + 1) % members.length)))) := by
  have hlen : container.length ≠ 0 := by
    intro hzero
    obtain rfl := List.eq_nil_of_length_eq_zero hzero
    cases h
  have hdraw : modulo (random calls) container.length = .ok (random calls % container.length) :=
    if_neg hlen
  have hat : bucketAt container (random calls % container.length) = .ok members := by
    rw [bucketAt, h]
  rw [chooseLoop, hdraw]
  change (bucketAt container _ >>= _) = _
  rw [hat]
  change (if members.length = 0 then _ else _) = _
  by_cases hempty : members = []
  · rw [if_pos (by rw [hempty]; rfl), if_pos hempty]
  · have hpos := List.length_pos_of_ne_nil hempty
    have hwalk : modulo (random (calls + 1)) members.length =
        .ok (random (calls + 1) % members.length) := if_neg hpos.ne'
    rw [if_neg hpos.ne', if_neg hempty, hwalk]
    change (advance _ _ >>= _) = _
    rw [advance_inBucket (Nat.mod_lt _ hpos).le]
    rfl

/-- A draw is a bucket. -/
theorem exists_drawn (hsome : container ≠ []) (x : ℕ) :
    ∃ members, container[x % container.length]? = some members :=
  ⟨_, List.getElem?_eq_getElem (Nat.mod_lt x (List.length_pos_of_ne_nil hsome))⟩

/-- Whatever is returned is a place in a bucket, which 31 bits can number. -/
theorem chooseLoop_sound (hsome : container ≠ []) (hrandom : FromRandom random) (rounds calls : ℕ) :
    chooseLoop random container rounds calls = .ok none ∨
      ∃ bucket offset members, container[bucket]? = some members ∧ offset < members.length ∧
        bucket < 2147483648 ∧ offset < 2147483648 ∧
        chooseLoop random container rounds calls =
          .ok (some (.inBucket bucket (members.drop offset))) := by
  induction rounds generalizing calls with
  | zero => exact .inl rfl
  | succ rounds ih =>
      obtain ⟨members, hdrawn⟩ := exists_drawn hsome (random calls)
      rw [chooseLoop_succ hdrawn]
      by_cases hempty : members = []
      · rw [if_pos hempty]
        exact ih (calls + 1)
      · rw [if_neg hempty]
        refine .inr ⟨_, _, members, hdrawn, ?_, ?_, ?_, rfl⟩
        · exact Nat.mod_lt _ (List.length_pos_of_ne_nil hempty)
        · exact (Nat.mod_le _ _).trans_lt (hrandom calls)
        · exact (Nat.mod_le _ _).trans_lt (hrandom (calls + 1))

theorem drawn_of_running {calls : ℕ} (hsome : container ≠ [])
    (h : ∀ rounds, chooseLoop random container rounds calls = .ok none) :
    container[random calls % container.length]? = some [] ∧
      ∀ rounds, chooseLoop random container rounds (calls + 1) = .ok none := by
  obtain ⟨members, hdrawn⟩ := exists_drawn hsome (random calls)
  by_cases hempty : members = []
  · subst hempty
    refine ⟨hdrawn, fun rounds => ?_⟩
    have hround := h (rounds + 1)
    rw [chooseLoop_succ hdrawn, if_pos rfl] at hround
    exact hround
  · have hround := h 1
    rw [chooseLoop_succ hdrawn, if_neg hempty] at hround
    cases hround

/-- The loop runs on for ever if and only if all its draws are empty buckets. -/
theorem chooseLoop_running_iff (hsome : container ≠ []) (calls : ℕ) :
    (∀ rounds, chooseLoop random container rounds calls = .ok none) ↔
      ∀ i, container[random (calls + i) % container.length]? = some [] := by
  constructor
  · intro hrunning i
    induction i generalizing calls with
    | zero => exact (drawn_of_running hsome hrunning).1
    | succ i ih =>
        rw [Nat.add_comm i, ← Nat.add_assoc]
        exact ih (calls + 1) (drawn_of_running hsome hrunning).2
  · intro hempty rounds
    induction rounds generalizing calls with
    | zero => rfl
    | succ rounds ih =>
        have hdrawn : container[random calls % container.length]? = some [] := hempty 0
        rw [chooseLoop_succ hdrawn, if_pos rfl]
        refine ih (calls + 1) fun i => ?_
        rw [Nat.add_assoc, Nat.add_comm 1]
        exact hempty (i + 1)

/-- A stream that draws a bucket and then an offset. -/
def twoDraws (bucket offset : ℕ) : ℕ → ℕ
  | 0 => bucket
  | _ + 1 => offset

theorem chooseLoop_twoDraws {bucket offset : ℕ} (hbucket : container[bucket]? = some members)
    (hoffset : offset < members.length) :
    chooseLoop (twoDraws bucket offset) container 1 0 =
      .ok (some (.inBucket bucket (members.drop offset))) := by
  have hmod : bucket % container.length = bucket :=
    Nat.mod_eq_of_lt (List.getElem?_eq_some_iff.mp hbucket).1
  have hne : members ≠ [] := List.ne_nil_of_length_pos (Nat.zero_lt_of_lt hoffset)
  have hdrawn : container[twoDraws bucket offset 0 % container.length]? = some members := by
    rw [twoDraws, hmod, hbucket]
  rw [chooseLoop_succ hdrawn, if_neg hne, twoDraws, twoDraws, hmod, Nat.mod_eq_of_lt hoffset]

/-- The place is returned for some stream. -/
def Reached (container : List (List α)) (it : LocalIterator α) : Prop :=
  ∃ random rounds, FromRandom random ∧ randomHashMember random container rounds = .ok (some it)

theorem randomHashMember_eq (hsome : container.flatten ≠ []) (rounds : ℕ) :
    randomHashMember random container rounds = chooseLoop random container rounds 0 := by
  rw [randomHashMember, if_neg (by simpa using hsome)]

theorem ne_nil_of_flatten (hsome : container.flatten ≠ []) : container ≠ [] := by
  rintro rfl
  exact hsome rfl

theorem place_of_reached (hsome : container.flatten ≠ []) {it : LocalIterator α}
    (h : Reached container it) :
    ∃ bucket offset members, container[bucket]? = some members ∧ offset < members.length ∧
      bucket < 2147483648 ∧ offset < 2147483648 ∧ it = .inBucket bucket (members.drop offset) := by
  obtain ⟨random, rounds, hrandom, hreturned⟩ := h
  rw [randomHashMember_eq hsome] at hreturned
  rcases chooseLoop_sound (ne_nil_of_flatten hsome) hrandom rounds 0 with
    hrunning | ⟨bucket, offset, members, hbucket, hoffset, hb31, ho31, hplace⟩
  · rw [hrunning] at hreturned
    cases hreturned
  · rw [hplace] at hreturned
    have hit := Option.some.inj (Except.ok.inj hreturned)
    exact ⟨bucket, offset, members, hbucket, hoffset, hb31, ho31, hit.symm⟩

theorem reached_iff (hsome : container.flatten ≠ []) {bucket offset : ℕ}
    (hbucket : container[bucket]? = some members) (hoffset : offset < members.length) :
    Reached container (.inBucket bucket (members.drop offset)) ↔
      bucket < 2147483648 ∧ offset < 2147483648 := by
  constructor
  · intro hreached
    obtain ⟨b, o, ms, hb, ho, hb31, ho31, hplace⟩ := place_of_reached hsome hreached
    obtain ⟨rfl, hrest⟩ := LocalIterator.inBucket.inj hplace
    rw [hbucket] at hb
    obtain rfl := Option.some.inj hb
    have hlen := congrArg List.length hrest
    rw [List.length_drop, List.length_drop] at hlen
    exact ⟨hb31, by omega⟩
  · rintro ⟨hb31, ho31⟩
    refine ⟨twoDraws bucket offset, 1, fun i => ?_, ?_⟩
    · cases i with
      | zero => exact hb31
      | succ i => exact ho31
    · rw [randomHashMember_eq hsome]
      exact chooseLoop_twoDraws hbucket hoffset

/-- Of a container that is not empty nothing but the place of a member is returned, every place
that 31 bits can number for some stream and no other; and only draws that are all empty buckets
keep the loop running. -/
theorem random_member_sound_and_reaching {α : Type} (container : List (List α))
    (hsome : container.flatten ≠ []) :
    (∀ random, FromRandom random → ∀ rounds,
      randomHashMember random container rounds = .ok none ∨
        ∃ bucket members x rest, container[bucket]? = some members ∧ x :: rest <:+ members ∧
          randomHashMember random container rounds =
            .ok (some (.inBucket bucket (x :: rest)))) ∧
    (∀ (bucket : ℕ) (members : List α) (offset : ℕ), container[bucket]? = some members →
      offset < members.length →
      (Reached container (.inBucket bucket (members.drop offset)) ↔
        bucket < 2147483648 ∧ offset < 2147483648)) ∧
    ∀ random, (∀ rounds, randomHashMember random container rounds = .ok none) ↔
      ∀ i, container[random i % container.length]? = some [] := by
  refine ⟨fun random hrandom rounds => ?_, fun bucket members offset => reached_iff hsome,
    fun random => ?_⟩
  · rw [randomHashMember_eq hsome]
    rcases chooseLoop_sound (ne_nil_of_flatten hsome) hrandom rounds 0 with
      hrunning | ⟨bucket, offset, members, hbucket, hoffset, -, -, hreturned⟩
    · exact .inl hrunning
    · rw [List.drop_eq_getElem_cons hoffset] at hreturned
      refine .inr ⟨bucket, members, _, _, hbucket, ?_, hreturned⟩
      rw [← List.drop_eq_getElem_cons hoffset]
      exact List.drop_suffix offset members
  · have hrunning : (∀ rounds, chooseLoop random container rounds 0 = .ok none) ↔
        ∀ i, container[random (0 + i) % container.length]? = some [] :=
      chooseLoop_running_iff (ne_nil_of_flatten hsome) 0
    simp only [Nat.zero_add] at hrunning
    rw [← hrunning]
    exact forall_congr' fun rounds => by rw [randomHashMember_eq hsome]

theorem random_member_sound_and_reaching_second :
    (∀ rounds, randomHashMember (twoDraws 1 1) [[], [5, 7]] rounds = .ok none ∨
      ∃ bucket members x rest, [[], [5, 7]][bucket]? = some members ∧ x :: rest <:+ members ∧
        randomHashMember (twoDraws 1 1) [[], [5, 7]] rounds =
          .ok (some (.inBucket bucket (x :: rest)))) ∧
      Reached [[], [5, 7]] (.inBucket 1 [7]) := by
  have hall := random_member_sound_and_reaching [[], [5, 7]] (by decide)
  refine ⟨hall.1 (twoDraws 1 1) fun i => ?_, (hall.2.1 1 [5, 7] 1 rfl (by decide)).mpr (by decide)⟩
  cases i with
  | zero => decide
  | succ i =>
      change 1 < 2147483648
      decide

theorem singular_of_empty (h : container.flatten = []) (rounds : ℕ) :
    randomHashMember random container rounds = .ok (some .singular) := by
  rw [randomHashMember, h]
  rfl

/-- One member behind `n` empty buckets. -/
def lastBucket (n : ℕ) : List (List Unit) := List.replicate n [] ++ [[()]]

theorem lastBucket_flatten (n : ℕ) : (lastBucket n).flatten = [()] := by
  rw [lastBucket, List.flatten_append, List.flatten_replicate_nil]
  rfl

theorem running_of_lastBucket {n : ℕ} (hn : 2147483648 ≤ n) (hrandom : FromRandom random)
    (rounds : ℕ) : randomHashMember random (lastBucket n) rounds = .ok none := by
  have hsome : (lastBucket n).flatten ≠ [] := by
    rw [lastBucket_flatten]
    exact List.cons_ne_nil _ _
  rw [randomHashMember_eq hsome]
  rcases chooseLoop_sound (ne_nil_of_flatten hsome) hrandom rounds 0 with
    hrunning | ⟨bucket, offset, members, hbucket, hoffset, hsmall, -, -⟩
  · exact hrunning
  · have hempty : (lastBucket n)[bucket]? = some [] := by
      rw [lastBucket, List.getElem?_append_left (by rw [List.length_replicate]; omega),
        List.getElem?_replicate, if_pos (by omega)]
    rw [hempty] at hbucket
    obtain rfl := Option.some.inj hbucket
    exact absurd hoffset (Nat.not_lt_zero offset)

/-- A member in a bucket that 31 bits cannot number is returned for no stream. -/
theorem random_member_out_of_reach :
    (lastBucket 2147483648).flatten = [()] ∧
      ∀ random rounds, FromRandom random → ∀ it,
        randomHashMember random (lastBucket 2147483648) rounds ≠ .ok (some it) := by
  refine ⟨lastBucket_flatten _, fun random rounds hrandom it hreturned => ?_⟩
  rw [running_of_lastBucket le_rfl hrandom] at hreturned
  cases hreturned

/-! ### The members that `SPOP` may pick -/

theorem mem_of_reached (hsome : container.flatten ≠ []) {bucket : ℕ} {x : α} {rest : List α}
    (h : Reached container (.inBucket bucket (x :: rest))) : x ∈ container.flatten := by
  obtain ⟨b, o, members, hb, -, -, -, hplace⟩ := place_of_reached hsome h
  obtain ⟨rfl, hrest⟩ := LocalIterator.inBucket.inj hplace
  have hx : x ∈ members := by
    refine List.mem_of_mem_drop (i := o) ?_
    rw [← hrest]
    exact List.mem_cons_self
  exact List.mem_flatten.mpr ⟨members, List.mem_of_getElem? hb, hx⟩

theorem update_pick_mem {m : Finset Bytes} {x : Bytes} (h : x ∈ m) (s : Finset Bytes)
    (hs : s.Nonempty) : Function.update (default : Env).pick m x s ∈ s := by
  by_cases hm : s = m
  · rw [hm, Function.update_self]
    exact h
  · rw [Function.update_of_ne hm]
    exact (default : Env).pick_mem s hs

/-- An environment that picks `x` from `m`. -/
def Env.picking {m : Finset Bytes} {x : Bytes} (h : x ∈ m) : Env :=
  { (default : Env) with
    pick := Function.update (default : Env).pick m x
    pick_mem := update_pick_mem h }

/-- Where 31 bits number all places of a set, `randomHashMember` returns just the members that an
environment picks from it. -/
theorem env_pick_iff_reached {m : Finset Bytes} {container : List (List Bytes)}
    (hm : ∀ x, x ∈ container.flatten ↔ x ∈ m) (hne : m.Nonempty)
    (hbuckets : container.length ≤ 2147483648)
    (hsizes : ∀ members ∈ container, members.length ≤ 2147483648) (x : Bytes) :
    (∃ env : Env, env.pick m = x) ↔
      ∃ bucket rest, Reached container (.inBucket bucket (x :: rest)) := by
  have hsome : container.flatten ≠ [] := by
    obtain ⟨y, hy⟩ := hne
    exact List.ne_nil_of_mem ((hm y).mpr hy)
  constructor
  · rintro ⟨env, rfl⟩
    obtain ⟨members, hmembers, hx⟩ := List.mem_flatten.mp ((hm _).mpr (env.pick_mem m hne))
    obtain ⟨bucket, hbucket, hat⟩ := List.getElem_of_mem hmembers
    obtain ⟨offset, hoffset, hpicked⟩ := List.getElem_of_mem hx
    refine ⟨bucket, members.drop (offset + 1), ?_⟩
    rw [← hpicked, ← List.drop_eq_getElem_cons hoffset, reached_iff hsome
      (List.getElem?_eq_some_iff.mpr ⟨hbucket, hat⟩) hoffset]
    have hsize := hsizes members hmembers
    omega
  · rintro ⟨bucket, rest, hreached⟩
    refine ⟨Env.picking ((hm x).mp (mem_of_reached hsome hreached)), ?_⟩
    exact Function.update_self _ _ _

end Yedis
