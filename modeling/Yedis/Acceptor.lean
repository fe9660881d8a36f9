import Yedis.Fifo
import Yedis.Runs

/-!
# When no descriptor is left

`AcceptNew::handleRead` hands a client with its descriptor to the server. If the process
has no descriptor left it closes `idleFd_`, accepts a client with the one that is free
then, refuses it and opens `/dev/null` again. The constructor leaves `idleFd_` as it is,
so what is closed first is whatever that happens to be. The calls of the system are
single steps, between which other threads open and close files of their own.
-/

namespace Yedis.Net.AcceptNew
open Fifo Function Runs

/-- What a descriptor names. -/
inductive File (Client : Type)
  | connection (c : Client)
  | refused (c : Client)
  | devNull
  | other

/-- How far `handleRead` has come when `accept4` has set `errno` to `EMFILE`. -/
inductive Place
  | waiting
  | exhausted
  | released
  | refusing
  | reopening

structure Process (Client : Type) where
  files : ℤ → Option (File Client)
  idleFd_ : ℤ
  place : Place := .waiting
  /-- the clients that have connected and have not been accepted -/
  backlog : List Client := []
  handed : List (Client × ℤ) := []
  refused : List Client := []
  aborted : List Client := []

inductive AcceptEvent (Client : Type)
  | connects (c : Client)
  | aborts (c : Client)
  | opens (fd : ℤ)
  | closes (fd : ℤ)
  | accepts (c : Client) (fd : ℤ)
  | fails
  | exhausted
  | closesIdle (closed : Option (File Client))
  | acceptsIdle (c : Client)
  | acceptIdleFails
  | closesRefused (closed : Option (File Client))
  | reopens
  | reopenFails

def AcceptEvent.connected {Client : Type} : AcceptEvent Client → List Client
  | connects c => [c]
  | _ => []

variable {Client : Type}

/-- A descriptor that the system may give out. -/
def Process.Free (limit : ℤ) (s : Process Client) (fd : ℤ) : Prop :=
  0 ≤ fd ∧ fd < limit ∧ s.files fd = none

inductive Step (limit : ℤ) (s : Process Client) : AcceptEvent Client → Process Client → Prop
  | connects (c : Client) : Step limit s (.connects c) { s with backlog := s.backlog ++ [c] }
  | aborts (c : Client) (before after : List Client) (hbacklog : s.backlog = before ++ c :: after) :
      Step limit s (.aborts c)
        { s with backlog := before ++ after, aborted := s.aborted ++ [c] }
  | opens (fd : ℤ) (hfree : s.Free limit fd) :
      Step limit s (.opens fd) { s with files := update s.files fd (some .other) }
  | closes (fd : ℤ) (hfile : s.files fd = some .other) :
      Step limit s (.closes fd) { s with files := update s.files fd none }
  | accepts (c : Client) (fd : ℤ) (rest : List Client) (hplace : s.place = .waiting)
      (hbacklog : s.backlog = c :: rest) (hfree : s.Free limit fd) :
      Step limit s (.accepts c fd)
        { s with
          files := update s.files fd (some (.connection c))
          backlog := rest
          handed := s.handed ++ [(c, fd)] }
  | fails (hplace : s.place = .waiting) : Step limit s .fails s
  | exhausted (hplace : s.place = .waiting) (hfull : ∀ fd, ¬ s.Free limit fd) :
      Step limit s .exhausted { s with place := .exhausted }
  | closesIdle (hplace : s.place = .exhausted) :
      Step limit s (.closesIdle (s.files s.idleFd_))
        { s with files := update s.files s.idleFd_ none, place := .released }
  | acceptsIdle (c : Client) (fd : ℤ) (rest : List Client) (hplace : s.place = .released)
      (hbacklog : s.backlog = c :: rest) (hfree : s.Free limit fd) :
      Step limit s (.acceptsIdle c)
        { s with
          files := update s.files fd (some (.refused c))
          idleFd_ := fd
          place := .refusing
          backlog := rest
          refused := s.refused ++ [c] }
  | acceptIdleFails (hplace : s.place = .released) :
      Step limit s .acceptIdleFails { s with idleFd_ := -1, place := .refusing }
  | closesRefused (hplace : s.place = .refusing) :
      Step limit s (.closesRefused (s.files s.idleFd_))
        { s with files := update s.files s.idleFd_ none, place := .reopening }
  | reopens (fd : ℤ) (hplace : s.place = .reopening) (hfree : s.Free limit fd) :
      Step limit s .reopens
        { s with
          files := update s.files fd (some .devNull)
          idleFd_ := fd
          place := .waiting }
  | reopenFails (hplace : s.place = .reopening) :
      Step limit s .reopenFails { s with idleFd_ := -1, place := .waiting }

/-- The constructor, with the files that are open then and whatever is in `idleFd_`. -/
def Process.start (files : ℤ → Option (File Client)) (idleFd_ : ℤ) : Process Client where
  files := files
  idleFd_ := idleFd_

/-- The first `close` has hit the client. -/
def Hit (c : Client) (history : List (AcceptEvent Client)) : Prop :=
  .closesIdle (some (.connection c)) ∈ history

/-- What `idleFd_` may be when `handleRead` comes to the first `close`. -/
def Process.Reserve (x : ℤ) (history : List (AcceptEvent Client)) (s : Process Client) : Prop :=
  (s.idleFd_ = x ∧ ∀ closed, .closesIdle closed ∉ history) ∨ s.idleFd_ = -1 ∨
    s.files s.idleFd_ = some .devNull

/-- What it may be when `handleRead` comes to the second. -/
def Process.Refused (s : Process Client) : Prop :=
  s.idleFd_ = -1 ∨ ∃ c, s.files s.idleFd_ = some (.refused c)

structure Owns (x : ℤ) (history : List (AcceptEvent Client)) (s : Process Client) : Prop where
  range : ∀ fd file, s.files fd = some file → 0 ≤ fd
  reserve : s.place = .waiting ∨ s.place = .exhausted → s.Reserve x history
  refusing : s.place = .refusing → s.Refused
  handed : ∀ p ∈ s.handed, s.files p.2 = some (.connection p.1) ∨ p.2 = x ∧ Hit p.1 history
  clients : (moved AcceptEvent.connected history).Perm
    (s.handed.map Prod.fst ++ s.refused ++ s.aborted ++ s.backlog)

/-- Nothing but files of others is closed or replaced from `s` to `s'`. -/
def Process.Spares (s s' : Process Client) : Prop :=
  ∀ fd file, file ≠ .other → s.files fd = some file → s'.files fd = some file

section Steps
variable {limit x : ℤ} {history : List (AcceptEvent Client)} {s s' : Process Client}
  {e : AcceptEvent Client} {fd : ℤ}

namespace Process.Spares

theorem of_eq (hfiles : s'.files = s.files) : s.Spares s' := by
  intro fd file _ hfile
  rw [hfiles, hfile]

theorem of_free {file : Option (File Client)} (hfree : s.files fd = none)
    (hfiles : s'.files = update s.files fd file) : s.Spares s' := by
  intro fd' file' _ hfile
  have hne : fd' ≠ fd := by
    rintro rfl
    rw [hfree] at hfile
    cases hfile
  rw [hfiles, update_of_ne hne, hfile]

theorem of_other (hother : s.files fd = some .other) (hfiles : s'.files = update s.files fd none) :
    s.Spares s' := by
  intro fd' file hne hfile
  have hfd : fd' ≠ fd := by
    rintro rfl
    rw [hother, Option.some.injEq] at hfile
    exact hne hfile.symm
  rw [hfiles, update_of_ne hfd, hfile]

end Process.Spares

theorem Owns.not_open (h : Owns x history s) (hfd : fd < 0) : s.files fd = none := by
  cases hfile : s.files fd with
  | none => rfl
  | some file => exact absurd (h.range fd file hfile) (not_le.mpr hfd)

theorem Hit.cons {c : Client} (h : Hit c history) : Hit c (e :: history) :=
  List.mem_cons_of_mem _ h

theorem Process.Reserve.spared (h : s.Reserve x history) (hspares : s.Spares s')
    (hidle : s'.idleFd_ = s.idleFd_) (he : ∀ closed, e ≠ .closesIdle closed) :
    s'.Reserve x (e :: history) := by
  unfold Process.Reserve at *
  rw [hidle]
  rcases h with ⟨hx, hfirst⟩ | hnone | hnull
  · refine Or.inl ⟨hx, fun closed hmem => ?_⟩
    rcases List.mem_cons.mp hmem with heq | hmem
    · exact he closed heq.symm
    · exact hfirst closed hmem
  · exact Or.inr (Or.inl hnone)
  · exact Or.inr (Or.inr (hspares _ _ (by simp) hnull))

theorem Process.Refused.spared (h : s.Refused) (hspares : s.Spares s')
    (hidle : s'.idleFd_ = s.idleFd_) : s'.Refused := by
  unfold Process.Refused at *
  rw [hidle]
  exact h.imp id fun ⟨c, hfile⟩ => ⟨c, hspares _ _ (by simp) hfile⟩

/-- What `close(idleFd_)` closes first. -/
theorem Owns.closed_idle (h : Owns x history s) (hplace : s.place = .exhausted) :
    s.files s.idleFd_ = none ∨ s.files s.idleFd_ = some .devNull ∨
      s.idleFd_ = x ∧ ∀ closed, .closesIdle closed ∉ history := by
  rcases h.reserve (Or.inr hplace) with hfirst | hnone | hnull
  · exact Or.inr (Or.inr hfirst)
  · exact Or.inl (hnone ▸ h.not_open (by decide))
  · exact Or.inr (Or.inl hnull)

theorem Owns.closed_refused (h : Owns x history s) (hplace : s.place = .refusing) :
    s.files s.idleFd_ = none ∨ ∃ c, s.files s.idleFd_ = some (.refused c) := by
  rcases h.refusing hplace with hnone | hrefused
  · exact Or.inl (hnone ▸ h.not_open (by decide))
  · exact Or.inr hrefused

theorem Owns.range_update (h : Owns x history s) {file : Option (File Client)}
    (hfd : file.isSome → 0 ≤ fd) :
    ∀ fd' file', update s.files fd file fd' = some file' → 0 ≤ fd' := by
  intro fd' file' hfile
  by_cases heq : fd' = fd
  · rw [heq, update_self] at hfile
    exact heq ▸ hfd (by rw [hfile]; rfl)
  · rw [update_of_ne heq] at hfile
    exact h.range fd' file' hfile

theorem Owns.handed_spared (h : Owns x history s) (hspares : s.Spares s')
    (hhanded : s'.handed = s.handed) :
    ∀ p ∈ s'.handed, s'.files p.2 = some (.connection p.1) ∨ p.2 = x ∧ Hit p.1 (e :: history) := by
  rw [hhanded]
  intro p hp
  exact (h.handed p hp).imp (hspares _ _ (by simp)) fun hhit => ⟨hhit.1, hhit.2.cons⟩

/-- The steps of the others, and of `accept4` when it opens nothing. -/
theorem Owns.spared (h : Owns x history s) (hspares : s.Spares s')
    (hrange : ∀ fd file, s'.files fd = some file → 0 ≤ fd)
    (hplace : s'.place = s.place) (hidle : s'.idleFd_ = s.idleFd_)
    (he : ∀ closed, e ≠ .closesIdle closed) (hhanded : s'.handed = s.handed)
    (hclients : (moved AcceptEvent.connected (e :: history)).Perm
      (s.handed.map Prod.fst ++ s'.refused ++ s'.aborted ++ s'.backlog)) :
    Owns x (e :: history) s' where
  range := hrange
  reserve := fun hp => (h.reserve (hplace ▸ hp)).spared hspares hidle he
  refusing := fun hp => (h.refusing (hplace ▸ hp)).spared hspares hidle
  handed := h.handed_spared hspares hhanded
  clients := by rw [hhanded]; exact hclients

theorem Owns.step (h : Owns x history s) (hstep : Step limit s e s') :
    Owns x (e :: history) s' := by
  have hsame : e.connected = [] → (moved AcceptEvent.connected (e :: history)).Perm
      (s.handed.map Prod.fst ++ s.refused ++ s.aborted ++ s.backlog) := by
    intro hnone
    rw [moved_cons, hnone, List.append_nil]
    exact h.clients
  cases hstep with
  | connects c =>
      refine h.spared (.of_eq rfl) h.range rfl rfl (by simp) rfl ?_
      rw [moved_cons, ← List.append_assoc]
      exact h.clients.append_right [c]
  | aborts c before after hbacklog =>
      refine h.spared (.of_eq rfl) h.range rfl rfl (by simp) rfl ((hsame rfl).trans ?_)
      rw [hbacklog, List.append_assoc _ s.aborted, List.append_assoc _ (s.aborted ++ [c])]
      refine List.Perm.append_left _ ?_
      rw [List.append_assoc]
      exact List.Perm.append_left _ List.perm_middle
  | opens fd hfree =>
      exact h.spared (.of_free hfree.2.2 rfl) (h.range_update fun _ => hfree.1) rfl rfl (by simp)
        rfl (hsame rfl)
  | closes fd hfile =>
      exact h.spared (.of_other hfile rfl) (h.range_update (by simp)) rfl rfl (by simp) rfl
        (hsame rfl)
  | accepts c fd rest hplace hbacklog hfree =>
      have hspares : s.Spares { s with files := update s.files fd (some (.connection c)) } :=
        .of_free hfree.2.2 rfl
      refine
        { range := h.range_update fun _ => hfree.1
          reserve := fun hp => (h.reserve hp).spared hspares rfl (by simp)
          refusing := fun hp => (h.refusing hp).spared hspares rfl
          handed := ?_
          clients := (hsame rfl).trans ?_ }
      · intro p hp
        rcases List.mem_append.mp hp with hold | hnew
        · exact h.handed_spared hspares rfl p hold
        · rw [List.mem_singleton.mp hnew]
          exact Or.inl (update_self _ _ _)
      · rw [hbacklog]
        simp only [List.map_append, List.map_cons, List.map_nil, List.append_assoc,
          List.singleton_append]
        refine List.Perm.append_left _ ?_
        rw [← List.append_assoc, ← List.append_assoc]
        exact List.perm_middle
  | fails hplace => exact h.spared (.of_eq rfl) h.range rfl rfl (by simp) rfl (hsame rfl)
  | exhausted hplace hfull =>
      have hspares : s.Spares { s with place := .exhausted } := .of_eq rfl
      exact
        { range := h.range
          reserve := fun _ => (h.reserve (Or.inl hplace)).spared hspares rfl (by simp)
          refusing := by simp
          handed := h.handed_spared hspares rfl
          clients := hsame rfl }
  | closesIdle hplace =>
      refine
        { range := h.range_update (by simp)
          reserve := by simp
          refusing := by simp
          handed := ?_
          clients := hsame rfl }
      intro p hp
      rcases h.handed p hp with hfile | hhit
      · by_cases hidle : p.2 = s.idleFd_
        · rcases h.closed_idle hplace with hnone | hnull | hfirst
          · rw [← hidle, hfile] at hnone
            cases hnone
          · rw [← hidle, hfile] at hnull
            cases hnull
          · exact Or.inr ⟨hidle.trans hfirst.1, by simp [Hit, ← hidle, hfile]⟩
        · exact Or.inl ((update_of_ne hidle _ _).trans hfile)
      · exact Or.inr ⟨hhit.1, hhit.2.cons⟩
  | acceptsIdle c fd rest hplace hbacklog hfree =>
      refine
        { range := h.range_update fun _ => hfree.1
          reserve := by simp
          refusing := fun _ => Or.inr ⟨c, update_self _ _ _⟩
          handed := h.handed_spared (.of_free hfree.2.2 rfl) rfl
          clients := (hsame rfl).trans ?_ }
      rw [hbacklog]
      simp only [List.append_assoc, List.singleton_append]
      refine List.Perm.append_left _ (List.Perm.append_left _ ?_)
      exact List.perm_middle
  | acceptIdleFails hplace =>
      exact
        { range := h.range
          reserve := by simp
          refusing := fun _ => Or.inl rfl
          handed := h.handed_spared (.of_eq rfl) rfl
          clients := hsame rfl }
  | closesRefused hplace =>
      refine
        { range := h.range_update (by simp)
          reserve := by simp
          refusing := by simp
          handed := ?_
          clients := hsame rfl }
      intro p hp
      rcases h.handed p hp with hfile | hhit
      · have hidle : p.2 ≠ s.idleFd_ := by
          intro hidle
          rcases h.closed_refused hplace with hnone | ⟨c, hrefused⟩
          · rw [← hidle, hfile] at hnone
            cases hnone
          · rw [← hidle, hfile] at hrefused
            cases hrefused
        exact Or.inl ((update_of_ne hidle _ _).trans hfile)
      · exact Or.inr ⟨hhit.1, hhit.2.cons⟩
  | reopens fd hplace hfree =>
      exact
        { range := h.range_update fun _ => hfree.1
          reserve := fun _ => Or.inr (Or.inr (update_self _ _ _))
          refusing := by simp
          handed := h.handed_spared (.of_free hfree.2.2 rfl) rfl
          clients := hsame rfl }
  | reopenFails hplace =>
      exact
        { range := h.range
          reserve := fun _ => Or.inr (Or.inl rfl)
          refusing := by simp
          handed := h.handed_spared (.of_eq rfl) rfl
          clients := hsame rfl }

/-- What a step of the acceptor closes. -/
def Closed (history : List (AcceptEvent Client)) : AcceptEvent Client → Prop
  | .closesIdle (some file) => file = .devNull ∨ ∀ closed, .closesIdle closed ∉ history
  | .closesRefused (some file) => ∃ c, file = .refused c
  | _ => True

theorem Owns.closed (h : Owns x history s) (hstep : Step limit s e s') : Closed history e := by
  cases hstep with
  | closesIdle hplace =>
      rcases h.closed_idle hplace with hnone | hnull | hfirst
      · rw [hnone]
        trivial
      · rw [hnull]
        exact Or.inl rfl
      · cases s.files s.idleFd_ with
        | none => trivial
        | some file => exact Or.inr hfirst.2
  | closesRefused hplace =>
      rcases h.closed_refused hplace with hnone | ⟨c, hrefused⟩
      · rw [hnone]
        trivial
      · rw [hrefused]
        exact ⟨c, rfl⟩
  | _ => trivial

/-- Nobody closes a descriptor: what is in `idleFd_` is not open, and once all are in use they stay
in use. -/
structure Kept (limit x : ℤ) (history : List (AcceptEvent Client)) (s : Process Client) : Prop where
  range : ∀ fd file, s.files fd = some file → 0 ≤ fd ∧ fd < limit
  idle : s.idleFd_ = x ∨ s.idleFd_ = -1
  place : s.place ≠ .waiting → .exhausted ∈ history
  full : .exhausted ∈ history → ∀ fd, ¬ s.Free limit fd
  refused : s.refused = []

theorem Kept.idle_not_open (h : Kept limit x history s) (hx : x < 0 ∨ limit ≤ x) :
    s.files s.idleFd_ = none := by
  cases hfile : s.files s.idleFd_ with
  | none => rfl
  | some file =>
      have hin := h.range _ _ hfile
      rcases h.idle with hidle | hidle <;> omega

theorem Kept.close_idle (h : Kept limit x history s) (hx : x < 0 ∨ limit ≤ x) :
    update s.files s.idleFd_ none = s.files := by
  rw [← h.idle_not_open hx, update_eq_self]

theorem Kept.unchanged (h : Kept limit x history s) (hfiles : s'.files = s.files)
    (hidle : s'.idleFd_ = x ∨ s'.idleFd_ = -1) (hplace : s'.place ≠ .waiting → .exhausted ∈ history)
    (hrefused : s'.refused = s.refused) (he : e ≠ .exhausted) : Kept limit x (e :: history) s' where
  range := by rw [hfiles]; exact h.range
  idle := hidle
  place := fun hp => List.mem_cons_of_mem _ (hplace hp)
  full := by
    intro hmem
    rcases List.mem_cons.mp hmem with heq | hmem
    · exact absurd heq.symm he
    · unfold Process.Free
      rw [hfiles]
      exact h.full hmem
  refused := hrefused.trans h.refused

theorem Kept.filled (h : Kept limit x history s) (hfree : s.Free limit fd) {file : File Client}
    (hfiles : s'.files = update s.files fd (some file)) (hidle : s'.idleFd_ = s.idleFd_)
    (hplace : s'.place = s.place) (hrefused : s'.refused = s.refused) (he : e ≠ .exhausted) :
    Kept limit x (e :: history) s' where
  range := by
    intro fd' file' hfile
    rw [hfiles] at hfile
    by_cases heq : fd' = fd
    · rw [heq]
      exact ⟨hfree.1, hfree.2.1⟩
    · rw [update_of_ne heq] at hfile
      exact h.range fd' file' hfile
  idle := hidle ▸ h.idle
  place := fun hp => List.mem_cons_of_mem _ (h.place (hplace ▸ hp))
  full := by
    intro hmem
    rcases List.mem_cons.mp hmem with heq | hmem
    · exact absurd heq.symm he
    · exact absurd hfree (h.full hmem fd)
  refused := hrefused.trans h.refused

theorem Kept.step (h : Kept limit x history s) (hx : x < 0 ∨ limit ≤ x)
    (hkept : ∀ fd, e ≠ .closes fd) (hstep : Step limit s e s') :
    Kept limit x (e :: history) s' := by
  have hpast : ∀ {place : Place}, s.place = place → place ≠ .waiting → .exhausted ∈ history :=
    fun hplace hne => h.place (hplace ▸ hne)
  cases hstep with
  | connects c => exact h.unchanged rfl h.idle h.place rfl (by simp)
  | aborts c before after hbacklog => exact h.unchanged rfl h.idle h.place rfl (by simp)
  | opens fd hfree => exact h.filled hfree rfl rfl rfl rfl (by simp)
  | closes fd hfile => exact absurd rfl (hkept fd)
  | accepts c fd rest hplace hbacklog hfree => exact h.filled hfree rfl rfl rfl rfl (by simp)
  | fails hplace => exact h.unchanged rfl h.idle h.place rfl (by simp)
  | exhausted hplace hfull =>
      exact ⟨h.range, h.idle, fun _ => List.mem_cons_self, fun _ => hfull, h.refused⟩
  | closesIdle hplace =>
      exact h.unchanged (h.close_idle hx) h.idle (fun _ => hpast hplace (by simp)) rfl (by simp)
  | acceptsIdle c fd rest hplace hbacklog hfree =>
      exact absurd hfree (h.full (hpast hplace (by simp)) fd)
  | acceptIdleFails hplace =>
      exact h.unchanged rfl (Or.inr rfl) (fun _ => hpast hplace (by simp)) rfl (by simp)
  | closesRefused hplace =>
      exact h.unchanged (h.close_idle hx) h.idle (fun _ => hpast hplace (by simp)) rfl (by simp)
  | reopens fd hplace hfree => exact absurd hfree (h.full (hpast hplace (by simp)) fd)
  | reopenFails hplace =>
      exact h.unchanged rfl (Or.inr rfl) (fun _ => hpast hplace (by simp)) rfl (by simp)

theorem Kept.not_accepted (h : Kept limit x history s) (hstep : Step limit s e s')
    (hmem : .exhausted ∈ history) (c : Client) :
    (∀ fd, e ≠ .accepts c fd) ∧ e ≠ .acceptsIdle c := by
  cases hstep with
  | accepts c fd rest hplace hbacklog hfree => exact absurd hfree (h.full hmem fd)
  | acceptsIdle c fd rest hplace hbacklog hfree => exact absurd hfree (h.full hmem fd)
  | _ => simp

end Steps

theorem Process.not_free_one {s : Process Client} (h : s.files 0 ≠ none) (fd : ℤ) :
    ¬ s.Free 1 fd := by
  rintro ⟨hle, hlt, hnone⟩
  obtain rfl : fd = 0 := by omega
  exact h hnone

/-- As long as nobody closes a descriptor and the constructor has left no descriptor in `idleFd_`,
the overload guard does nothing: it refuses no client, and once `accept4` has found no descriptor
free, no client is accepted any more. -/
theorem overload_guard_is_inert {limit x : ℤ} (hx : x < 0 ∨ limit ≤ x)
    {files : ℤ → Option (File Client)}
    (hfiles : ∀ fd file, files fd = some file → 0 ≤ fd ∧ fd < limit)
    {trace : List (Transition (Process Client) (AcceptEvent Client))} {s : Process Client}
    (run : Run (Step limit) (.start files x) trace s) (hkept : ∀ fd, .closes fd ∉ labels trace) :
    s.refused = [] ∧
      ∀ later e earlier, labels trace = later ++ e :: earlier → .exhausted ∈ earlier →
        ∀ c, (∀ fd, e ≠ .accepts c fd) ∧ e ≠ .acceptsIdle c := by
  have hstart : (∀ fd, AcceptEvent.closes fd ∉ ([] : List (AcceptEvent Client))) →
      Kept limit x [] (.start files x : Process Client) :=
    fun _ => ⟨hfiles, Or.inl rfl, by simp [Process.start], by simp, rfl⟩
  have hstep : ∀ history s e s', ((∀ fd, .closes fd ∉ history) → Kept limit x history s) →
      Step limit s e s' → ((∀ fd, .closes fd ∉ e :: history) → Kept limit x (e :: history) s') ∧
        ((∀ fd, .closes fd ∉ history) → .exhausted ∈ history →
          ∀ c : Client, (∀ fd, e ≠ .accepts c fd) ∧ e ≠ .acceptsIdle c) := by
    intro history s e s' h hstep
    refine ⟨fun hkept => ?_, fun hkept => (h hkept).not_accepted hstep⟩
    have hpast := h fun fd hmem => hkept fd (List.mem_cons_of_mem _ hmem)
    exact hpast.step hx (fun fd heq => hkept fd (heq ▸ List.mem_cons_self)) hstep
  refine ⟨?_, fun later e earlier hsplit => ?_⟩
  · have hend := run.invariant_labels hstart fun history s e s' h hs =>
      (hstep history s e s' h hs).1
    exact (hend hkept).refused
  · refine run.each_label hstart hstep hsplit fun fd hmem => hkept fd ?_
    rw [hsplit]
    exact List.mem_append_right _ (List.mem_cons_of_mem _ hmem)

/-- The second client waits for ever. -/
theorem overload_guard_is_inert_crowded :
    ∃ (trace : List (Transition (Process ℕ) (AcceptEvent ℕ))) (s : Process ℕ),
      Run (Step 1) (.start (fun _ => none) (-1)) trace s ∧ s.backlog = [8] ∧ s.place = .waiting ∧
        s.refused = [] := by
  have served : Run (Step 1) (.start (fun _ => none) (-1) : Process ℕ) _ _ :=
    .next (.next (.next .start (.connects 7)) (.accepts 7 0 [] rfl rfl
      ⟨le_rfl, Int.zero_lt_one, rfl⟩)) (.connects 8)
  have full := served.next (.exhausted rfl (Process.not_free_one (Option.some_ne_none _)))
  have closed := (full.next (.closesIdle rfl)).next (.acceptIdleFails rfl)
  have run := (closed.next (.closesRefused rfl)).next (.reopenFails rfl)
  exact ⟨_, _, run, rfl, rfl, (overload_guard_is_inert (Or.inl (by decide))
    (fun _ _ hfile => by cases hfile) run (by simp)).1⟩

end Yedis.Net.AcceptNew
