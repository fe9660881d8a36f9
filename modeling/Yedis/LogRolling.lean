import Mathlib.Data.Int.Notation
import Yedis.IntToken
import Yedis.Runs

/-!
# Rolling log files

The writer thread of `CAsyncLog` creates a log file when it has none or the current one
is full, takes a line from the queue and writes it. The file is named after the clock
in seconds, and `fopen` with the mode `w+` truncates a file of that name. Every line is
kept exactly when no file with a line in it is truncated.
-/

namespace Yedis
open Runs

namespace CAsyncLog

theorem length_pos_of_wrap32 {n : ℕ} (h : ¬ wrap32 n ≤ 0) : 0 < n := by
  by_contra hzero
  obtain rfl : n = 0 := by omega
  exact h (by rw [wrap32_of_range (by simp) (by simp), Nat.cast_zero])

theorem length_drop_wrap32 {data : Bytes} (h : ¬ wrap32 data.length ≤ 0) :
    (data.drop (wrap32 data.length).toNat).length < data.length := by
  have hpos := length_pos_of_wrap32 h
  rw [List.length_drop]
  omega

/-- The loop of `writeToFile`: what the calls of `fwrite` put into the file, each the whole rest of
the line, and the result. -/
def writeLoop : ℕ → Bytes → List Bytes × Bool
  | 0, _ => ([], false)
  | fuel + 1, strLocal =>
    let ret := wrap32 strLocal.length
    if ret ≤ 0 then ([strLocal], false)
    else if strLocal.drop ret.toNat = [] then ([strLocal], true)
    else
      let (calls, result) := writeLoop fuel (strLocal.drop ret.toNat)
      (strLocal :: calls, result)

/-- Every round erases some of the line. -/
theorem writeLoop_enough {fuel fuel' : ℕ} {strLocal : Bytes} (h : strLocal.length < fuel)
    (h' : strLocal.length < fuel') : writeLoop fuel strLocal = writeLoop fuel' strLocal := by
  induction fuel generalizing fuel' strLocal with
  | zero => omega
  | succ fuel ih =>
      cases fuel' with
      | zero => omega
      | succ fuel' =>
          rw [writeLoop, writeLoop]
          split_ifs with hret hdone
          · rfl
          · rfl
          · have hdrop := length_drop_wrap32 hret
            rw [ih (by omega) (by omega : (strLocal.drop _).length < fuel')]

def writeToFile (data : Bytes) : List Bytes × Bool := writeLoop (data.length + 1) data

theorem length_le_of_mem_writeLoop {fuel : ℕ} {strLocal c : Bytes}
    (h : c ∈ (writeLoop fuel strLocal).1) : c.length ≤ strLocal.length := by
  induction fuel generalizing strLocal with
  | zero => cases h
  | succ fuel ih =>
      rw [writeLoop] at h
      simp only at h
      split_ifs at h with hret hdone
      · rw [List.mem_singleton.mp h]
      · rw [List.mem_singleton.mp h]
      · rcases List.mem_cons.mp h with rfl | hmem
        · exact le_refl _
        · exact (ih hmem).trans (length_drop_wrap32 hret).le

/-- The first call writes the line in full, the others write less. -/
theorem writeToFile_calls (data : Bytes) :
    ∃ calls, (writeToFile data).1 = data :: calls ∧ data ∉ calls := by
  rw [writeToFile, writeLoop]
  simp only
  split_ifs with hret hdone
  · exact ⟨[], rfl, List.not_mem_nil⟩
  · exact ⟨[], rfl, List.not_mem_nil⟩
  · refine ⟨_, rfl, fun hmem => ?_⟩
    exact absurd (length_le_of_mem_writeLoop hmem) (Nat.not_le.mpr (length_drop_wrap32 hret))

/-- A line that is neither empty nor too long for an `int` is written by one call. -/
theorem writeToFile_of_range {data : Bytes} (hne : data ≠ []) (h : data.length < 2147483648) :
    writeToFile data = ([data], true) := by
  have hpos := List.length_pos_iff.mpr hne
  rw [writeToFile, writeLoop, wrap32_of_range (by omega) (by omega)]
  simp only
  rw [if_neg (by omega), if_pos (by rw [Int.toNat_natCast, List.drop_length])]

structure LogConfig where
  m_strFileName : Bytes
  m_strFileNamePID : Bytes
  m_nFileRollSize : ℤ
  /-- `strftime` of the local time of a clock reading -/
  szNow : ℤ → Bytes

def LogConfig.newFileName (cfg : LogConfig) (now : ℤ) : Bytes :=
  cfg.m_strFileName ++ ascii "." ++ cfg.szNow now ++ ascii "." ++ cfg.m_strFileNamePID ++
    ascii ".log"

inductive WriterPhase
  | opening
  | taking
  | returned
  deriving DecidableEq

/-- The writer thread and the files. What a call of `fwrite` has written is kept with the number of
the line it belongs to. -/
structure LogWriter where
  m_hLogFile : Option Bytes := none
  m_nCurrentWrittenSize : ℤ := 0
  disk : Bytes → List (ℕ × Bytes) := fun _ => []
  /-- the lines passed to `writeToFile` -/
  passed : List Bytes := []
  phase : WriterPhase := .opening

inductive WriterEvent
  | keepFile
  | createNewFile (now : ℤ)
  | line (strLine : Bytes)

/-- What `writeToFile` adds to the file for the line with the number `k`. -/
def chunks (k : ℕ) (strLine : Bytes) : List (ℕ × Bytes) :=
  (writeToFile strLine).1.map fun c => (k, c)

inductive WriterStep (cfg : LogConfig) (s : LogWriter) : WriterEvent → LogWriter → Prop
  | keepFile (h : s.phase = .opening)
      (hkeep : cfg.m_strFileName = [] ∨
        s.m_hLogFile ≠ none ∧ ¬ s.m_nCurrentWrittenSize ≥ cfg.m_nFileRollSize) :
      WriterStep cfg s .keepFile { s with phase := .taking }
  | createNewFile (now : ℤ) (h : s.phase = .opening) (hname : cfg.m_strFileName ≠ [])
      (hroll : s.m_hLogFile = none ∨ s.m_nCurrentWrittenSize ≥ cfg.m_nFileRollSize) :
      WriterStep cfg s (.createNewFile now)
        { s with
          m_nCurrentWrittenSize := 0
          m_hLogFile := some (cfg.newFileName now)
          disk := Function.update s.disk (cfg.newFileName now) []
          phase := .taking }
  | console (strLine : Bytes) (h : s.phase = .taking) (hname : cfg.m_strFileName = []) :
      WriterStep cfg s (.line strLine) { s with phase := .opening }
  | writeToFile (strLine : Bytes) {file : Bytes} (h : s.phase = .taking)
      (hname : cfg.m_strFileName ≠ []) (hfile : s.m_hLogFile = some file) :
      WriterStep cfg s (.line strLine)
        { s with
          disk := Function.update s.disk file (s.disk file ++ chunks s.passed.length strLine)
          passed := s.passed ++ [strLine]
          m_nCurrentWrittenSize :=
            if (writeToFile strLine).2 then wrap64 (s.m_nCurrentWrittenSize + strLine.length)
            else s.m_nCurrentWrittenSize
          phase := if (writeToFile strLine).2 then .opening else .returned }

/-- The chunk is in the files exactly once. -/
def Once (disk : Bytes → List (ℕ × Bytes)) (c : ℕ × Bytes) : Prop :=
  ∃ file, (disk file).count c = 1 ∧ ∀ other, other ≠ file → c ∉ disk other

/-- Every line passed to `writeToFile` is in the files in full and exactly once. -/
def LogWriter.Lossless (s : LogWriter) : Prop :=
  ∀ k strLine, s.passed[k]? = some strLine → Once s.disk (k, strLine)

/-- A file that is created has no line in it. -/
def KeepsFiles (cfg : LogConfig) (s : LogWriter) : WriterEvent → Prop
  | .createNewFile now => s.disk (cfg.newFileName now) = []
  | _ => True

/-- Chunks belong to lines passed, a line is in one file at most, and a file begins with a line. -/
structure Filed (disk : Bytes → List (ℕ × Bytes)) (passed : List Bytes) : Prop where
  number_lt : ∀ file, ∀ c ∈ disk file, c.1 < passed.length
  one_file : ∀ c file file', c ∈ disk file → c ∈ disk file' → file = file'
  headed : ∀ file c rest, disk file = c :: rest → passed[c.1]? = some c.2

theorem chunks_eq (k : ℕ) (strLine : Bytes) :
    ∃ rest, chunks k strLine = (k, strLine) :: rest ∧ (k, strLine) ∉ rest := by
  obtain ⟨calls, hcalls, hnot⟩ := writeToFile_calls strLine
  refine ⟨calls.map fun c => (k, c), by rw [chunks, hcalls, List.map_cons], fun hmem => ?_⟩
  obtain ⟨c, hc, heq⟩ := List.mem_map.mp hmem
  exact hnot ((Prod.mk.inj heq).2 ▸ hc)

theorem fst_of_mem_chunks {k : ℕ} {strLine : Bytes} {c : ℕ × Bytes} (h : c ∈ chunks k strLine) :
    c.1 = k := by
  obtain ⟨b, -, rfl⟩ := List.mem_map.mp h
  rfl

section Disk
variable {disk disk' : Bytes → List (ℕ × Bytes)} {file f : Bytes} {c : ℕ × Bytes}

theorem mem_append_file (cs : List (ℕ × Bytes)) :
    c ∈ Function.update disk file (disk file ++ cs) f ↔ c ∈ disk f ∨ f = file ∧ c ∈ cs := by
  by_cases hf : f = file
  · rw [hf, Function.update_self, List.mem_append]
    simp
  · rw [Function.update_of_ne hf]
    simp [hf]

theorem truncate_file (disk : Bytes → List (ℕ × Bytes)) (file f : Bytes) :
    Function.update disk file [] f = [] ∨ Function.update disk file [] f = disk f := by
  by_cases hf : f = file
  · left
    rw [hf, Function.update_self]
  · right
    rw [Function.update_of_ne hf]

theorem mem_truncate_file (h : c ∈ Function.update disk file [] f) : c ∈ disk f := by
  rcases truncate_file disk file f with hempty | hsame
  · rw [hempty] at h
    cases h
  · exact hsame ▸ h

theorem count_append_file {cs : List (ℕ × Bytes)} (h : c ∉ cs) :
    (Function.update disk file (disk file ++ cs) f).count c = (disk f).count c := by
  by_cases hf : f = file
  · rw [hf, Function.update_self, List.count_append, List.count_eq_zero_of_not_mem h, Nat.add_zero]
  · rw [Function.update_of_ne hf]

theorem Once.congr (hcount : ∀ file, (disk' file).count c = (disk file).count c) :
    Once disk' c ↔ Once disk c := by
  simp only [Once, ← List.count_eq_zero, hcount]

/-- A chunk in no file is in the files once when it has been written once. -/
theorem once_append_file {cs : List (ℕ × Bytes)} (hnone : ∀ f, c ∉ disk f)
    (hcs : cs.count c = 1) : Once (Function.update disk file (disk file ++ cs)) c := by
  refine ⟨file, ?_, fun other hother hmem => ?_⟩
  · rw [Function.update_self, List.count_append, List.count_eq_zero_of_not_mem (hnone file), hcs]
  · rw [Function.update_of_ne hother] at hmem
    exact hnone other hmem

variable {passed : List Bytes}

theorem Filed.truncate (h : Filed disk passed) (file : Bytes) :
    Filed (Function.update disk file []) passed where
  number_lt f c hc := h.number_lt f c (mem_truncate_file hc)
  one_file c f f' hc hc' := h.one_file c f f' (mem_truncate_file hc) (mem_truncate_file hc')
  headed f c rest hf := by
    rcases truncate_file disk file f with hempty | hsame
    · rw [hempty] at hf
      cases hf
    · exact h.headed f c rest (hsame ▸ hf)

theorem Filed.write (h : Filed disk passed) (file strLine : Bytes) :
    Filed (Function.update disk file (disk file ++ chunks passed.length strLine))
      (passed ++ [strLine]) where
  number_lt f c hc := by
    rw [List.length_append, List.length_singleton]
    rcases (mem_append_file _).mp hc with hold | ⟨-, hnew⟩
    · exact (h.number_lt f c hold).trans (Nat.lt_succ_self _)
    · rw [fst_of_mem_chunks hnew]
      exact Nat.lt_succ_self _
  one_file c f f' hc hc' := by
    have hnew : ∀ g, c ∈ disk g → c ∉ chunks passed.length strLine := fun g hg hmem =>
      absurd (fst_of_mem_chunks hmem) (h.number_lt g c hg).ne
    rcases (mem_append_file _).mp hc with hold | ⟨hfile, hc⟩
    · rcases (mem_append_file _).mp hc' with hold' | ⟨hfile', hc'⟩
      · exact h.one_file c f f' hold hold'
      · exact absurd hc' (hnew f hold)
    · rcases (mem_append_file _).mp hc' with hold' | ⟨hfile', hc'⟩
      · exact absurd hc (hnew f' hold')
      · rw [hfile, hfile']
  headed f c rest hf := by
    have hkeep : ∀ c : ℕ × Bytes, passed[c.1]? = some c.2 →
        (passed ++ [strLine])[c.1]? = some c.2 := fun c hc => by
      rw [List.getElem?_append_left (List.getElem?_eq_some_iff.mp hc).1]
      exact hc
    by_cases hff : f = file
    · rw [hff, Function.update_self] at hf
      cases hdisk : disk file with
      | nil =>
          obtain ⟨calls, hchunks, -⟩ := chunks_eq passed.length strLine
          rw [hdisk, List.nil_append, hchunks, List.cons.injEq] at hf
          rw [← hf.1]
          exact List.getElem?_concat_length
      | cons c₀ rest₀ =>
          rw [hdisk, List.cons_append, List.cons.injEq] at hf
          rw [← hf.1]
          exact hkeep c₀ (h.headed file c₀ rest₀ hdisk)
    · rw [Function.update_of_ne hff] at hf
      exact hkeep c (h.headed f c rest hf)

end Disk

variable {cfg : LogConfig} {s s' : LogWriter} {e : WriterEvent}

theorem filed_start : Filed (fun _ => []) [] where
  number_lt _ _ h := by cases h
  one_file _ _ _ h := by cases h
  headed _ _ _ h := by cases h

theorem filed_step (h : Filed s.disk s.passed) (hstep : WriterStep cfg s e s') :
    Filed s'.disk s'.passed := by
  cases hstep with
  | keepFile => exact h
  | console => exact h
  | createNewFile now => exact h.truncate (cfg.newFileName now)
  | @writeToFile strLine file => exact h.write file strLine

/-- Where the truncated file is not empty it begins with a line, which is lost. -/
theorem lossless_truncate (h : Filed s.disk s.passed) {file : Bytes}
    (hdisk : s'.disk = Function.update s.disk file []) (hpassed : s'.passed = s.passed) :
    s'.Lossless ↔ s.Lossless ∧ s.disk file = [] := by
  have hkept : s.disk file = [] → s'.disk = s.disk := fun hempty =>
    hdisk.trans (Function.update_eq_self_iff.mpr hempty.symm)
  unfold LogWriter.Lossless
  rw [hpassed]
  constructor
  · intro hl
    have hempty : s.disk file = [] := by
      by_contra hne
      obtain ⟨c, rest, hfile⟩ := List.exists_cons_of_ne_nil hne
      have hmem : c ∈ s.disk file := by
        rw [hfile]
        exact List.mem_cons_self
      obtain ⟨other, hcount, -⟩ := hl c.1 c.2 (h.headed _ _ _ hfile)
      have hother : c ∈ Function.update s.disk file [] other :=
        List.count_pos_iff.mp (by rw [← hdisk, hcount]; exact Nat.one_pos)
      by_cases hf : other = file
      · rw [hf, Function.update_self] at hother
        cases hother
      · rw [Function.update_of_ne hf] at hother
        exact hf (h.one_file c other _ hother hmem)
    rw [hkept hempty] at hl
    exact ⟨hl, hempty⟩
  · rintro ⟨hl, hempty⟩
    rwa [hkept hempty]

/-- A line that is passed gets its own number, so that the others stay as they are. -/
theorem lossless_write (h : Filed s.disk s.passed) {file strLine : Bytes}
    (hdisk : s'.disk = Function.update s.disk file (s.disk file ++ chunks s.passed.length strLine))
    (hpassed : s'.passed = s.passed ++ [strLine]) : s'.Lossless ↔ s.Lossless := by
  have hold : ∀ k line, k < s.passed.length →
      (Once s'.disk (k, line) ↔ Once s.disk (k, line)) := by
    intro k line hk
    rw [hdisk]
    exact Once.congr fun f => count_append_file fun hmem => absurd (fst_of_mem_chunks hmem) hk.ne
  unfold LogWriter.Lossless
  rw [hpassed]
  constructor
  · intro hl k line hk
    have hlt := (List.getElem?_eq_some_iff.mp hk).1
    exact (hold k line hlt).mp (hl k line (by rw [List.getElem?_append_left hlt]; exact hk))
  · intro hl k line hk
    by_cases hlt : k < s.passed.length
    · rw [List.getElem?_append_left hlt] at hk
      exact (hold k line hlt).mpr (hl k line hk)
    · have hlen := (List.getElem?_eq_some_iff.mp hk).1
      rw [List.length_append, List.length_singleton] at hlen
      obtain rfl : k = s.passed.length := by omega
      obtain rfl : strLine = line := Option.some.inj (List.getElem?_concat_length.symm.trans hk)
      obtain ⟨calls, hchunks, hnot⟩ := chunks_eq s.passed.length strLine
      rw [hdisk]
      refine once_append_file (fun f hmem => (h.number_lt f _ hmem).false) ?_
      rw [hchunks, List.count_cons_self, List.count_eq_zero_of_not_mem hnot]

/-- A step keeps the lines if it creates no file over one with a line in it, and loses one
otherwise. -/
theorem lossless_step (h : Filed s.disk s.passed) (hstep : WriterStep cfg s e s') :
    s'.Lossless ↔ s.Lossless ∧ KeepsFiles cfg s e := by
  cases hstep with
  | keepFile hp hkeep => exact (and_iff_left trivial).symm
  | console strLine hp hname => exact (and_iff_left trivial).symm
  | createNewFile now hp hname hroll => exact lossless_truncate h rfl rfl
  | writeToFile strLine hp hname hfile =>
      exact (lossless_write h rfl rfl).trans (and_iff_left trivial).symm

/-- For every roll size and every sequence of lines and clock readings the lines are all in the
files, in full and once each, exactly when no file with a line in it was created again. -/
theorem log_lines_kept {trace : List (Transition LogWriter WriterEvent)}
    (run : Run (WriterStep cfg) {} trace s) :
    s.Lossless ↔ ∀ t ∈ trace, KeepsFiles cfg t.src t.label :=
  run.holds_iff (I := fun s => Filed s.disk s.passed) (Q := KeepsFiles cfg) filed_start
    (fun _ _ _ => filed_step) (fun _ _ h => by cases h) fun _ _ _ => lossless_step

/-- A roll size of one byte, in the first second of the epoch. -/
def LogConfig.small : LogConfig where
  m_strFileName := ascii "yedis"
  m_strFileNamePID := ascii "00042"
  m_nFileRollSize := 1
  szNow _ := ascii "19700101000000"

theorem writeToFile_small (c : UInt8) : writeToFile [c, 10] = ([[c, 10]], true) :=
  writeToFile_of_range (List.cons_ne_nil _ _) (show 2 < 2147483648 by decide)

/-- The first line is kept. -/
theorem log_lines_kept_one : ∃ (s : LogWriter) (trace : List (Transition _ _)),
    Run (WriterStep .small) {} trace s ∧ s.passed = [[97, 10]] ∧
      (s.Lossless ↔ ∀ t ∈ trace, KeepsFiles .small t.src t.label) := by
  have created := Run.start.next
    (@WriterStep.createNewFile .small {} 0 rfl (by decide) (Or.inl rfl))
  have written := created.next (.writeToFile [97, 10] rfl (by decide) rfl)
  exact ⟨_, _, written, rfl, log_lines_kept written⟩

/-- Two lines in one second: the file of the second is the truncated file of the first. -/
theorem log_line_lost : ∃ (s : LogWriter) (trace : List (Transition _ _)),
    Run (WriterStep .small) {} trace s ∧
      labels trace =
        [.line [98, 10], .createNewFile 0, .line [97, 10], .createNewFile 0] ∧
      s.passed = [[97, 10], [98, 10]] ∧ ¬ s.Lossless := by
  have created := Run.start.next
    (@WriterStep.createNewFile .small {} 0 rfl (by decide) (Or.inl rfl))
  have written := created.next (.writeToFile [97, 10] rfl (by decide) rfl)
  have again := written.next (.createNewFile 0 (by rw [writeToFile_small]; rfl) (by decide)
    (Or.inr (by rw [writeToFile_small]; decide)))
  have written' := again.next (.writeToFile [98, 10] rfl (by decide) rfl)
  refine ⟨_, _, written', rfl, rfl, fun hl => ?_⟩
  obtain ⟨file, hcount, -⟩ := hl 0 [97, 10] rfl
  have hmem := List.count_pos_iff.mp (hcount.symm ▸ Nat.one_pos)
  rcases (mem_append_file _).mp hmem with hold | ⟨-, hnew⟩
  · simp only [Function.update_apply] at hold
    split_ifs at hold
    · exact absurd hold List.not_mem_nil
    · exact absurd hold List.not_mem_nil
  · exact absurd (fst_of_mem_chunks hnew) (by decide)

end CAsyncLog

end Yedis
