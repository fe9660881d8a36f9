import Yedis.HexDump
import Yedis.LogRolling
import Yedis.LogShutdown

/-!
# From `output` to the files

The calls of `output` and `outputBinary` from any number of threads, the queue between
them and the writer thread, and the files. Calls below the level in force are dropped,
the others leave a line in the queue. Two dumps at a time share the buffer of
`ullto4Str`, and their lines may be anything. A fatal line is written by its own thread,
past the queue and its lock, and ends the program. Nothing is said of runs in which a
fatal call overlaps with another use of the files. A call of `fwrite` writes all that it
is given or, where it fails, nothing, and `fflush` succeeds.
-/

namespace Yedis
open Fifo Locks Runs

namespace CAsyncLog

def LOG_LEVEL_TRACE : ℤ := 0
def LOG_LEVEL_DEBUG : ℤ := 1
def LOG_LEVEL_INFO : ℤ := 2
def LOG_LEVEL_WARNING : ℤ := 3
def LOG_LEVEL_ERROR : ℤ := 4
def LOG_LEVEL_SYSERROR : ℤ := 5
def LOG_LEVEL_FATAL : ℤ := 6
def LOG_LEVEL_CRITICAL : ℤ := 7

def MAX_LINE_LENGTH : ℕ := 256

def setLevel (nLevel m_nCurrentLevel : ℤ) : ℤ :=
  if nLevel < LOG_LEVEL_TRACE ∨ nLevel > LOG_LEVEL_FATAL then m_nCurrentLevel else nLevel

def levelName (nLevel : ℤ) : Bytes :=
  if nLevel = LOG_LEVEL_TRACE then ascii "[TRACE]"
  else if nLevel = LOG_LEVEL_DEBUG then ascii "[DEBUG]"
  else if nLevel = LOG_LEVEL_WARNING then ascii "[WARN]"
  else if nLevel = LOG_LEVEL_ERROR then ascii "[ERROR]"
  else if nLevel = LOG_LEVEL_SYSERROR then ascii "[SYSE]"
  else if nLevel = LOG_LEVEL_FATAL then ascii "[FATAL]"
  else if nLevel = LOG_LEVEL_CRITICAL then ascii "[CRITICAL]"
  else ascii "[INFO]"

/-- With what `getTime` has written, and the number of the thread as text. -/
def makeLinePrefix (nLevel : ℤ) (szTime osThreadID : Bytes) : Bytes :=
  levelName nLevel ++ ascii "[" ++ szTime ++ ascii "]" ++
    (ascii "[" ++ osThreadID ++ ascii "]").take 31

/-- A call of `output`, with the place in the source where it is the overload that has it. -/
structure OutputCall where
  nLevel : ℤ
  szTime : Bytes
  osThreadID : Bytes
  source : Option (Bytes × ℤ)
  strLogMsg : Bytes

def OutputCall.szFileName (call : OutputCall) : Bytes :=
  match call.source with
  | none => []
  | some (pszFileName, nLineNo) =>
    (ascii "[" ++ pszFileName ++ ascii ":" ++ signedDecimal nLineNo ++ ascii "]").take 511

/-- The line that `output` makes. -/
def OutputCall.strLine (cfg : LogConfig) (m_bTruncateLongLog : Bool) (call : OutputCall) : Bytes :=
  makeLinePrefix call.nLevel call.szTime call.osThreadID ++ call.szFileName ++
    (if m_bTruncateLongLog then call.strLogMsg.take MAX_LINE_LENGTH else call.strLogMsg) ++
    if cfg.m_strFileName = [] then [] else ascii "\n"

/-- The test at the beginning of `output`. -/
def passes (m_nCurrentLevel nLevel : ℤ) : Prop :=
  ¬ (nLevel ≠ LOG_LEVEL_CRITICAL ∧ nLevel < m_nCurrentLevel)

instance (m_nCurrentLevel nLevel : ℤ) : Decidable (passes m_nCurrentLevel nLevel) :=
  inferInstanceAs (Decidable (¬ _))

variable {T : Type} [DecidableEq T]

/-- A call of `outputBinary` that has not come to the lock. -/
structure Dump (T : Type) where
  t : T
  address : ℤ
  buffer : Bytes
  /-- another thread has used the buffer of `ullto4Str` at the same time -/
  shared : Bool

/-- Another thread comes into `outputBinary`. -/
def Dump.share (d : Dump T) : Dump T := { d with shared := true }

/-- A fatal call has passed its test of the level, has found no file, has one, or has written. -/
inductive FatalPlace
  | testing
  | creating
  | writing
  | crashing

structure FatalOutput (T : Type) where
  t : T
  call : OutputCall
  place : FatalPlace

structure Logging (T : Type) where
  log : Log T := {}
  files : LogWriter := {}
  m_nCurrentLevel : ℤ := LOG_LEVEL_INFO
  dumps : List (Dump T) := []
  fatal : Option (FatalOutput T) := none
  crashed : Bool := false

/-- A file that a thread other than the writer creates, which leaves `m_nCurrentWrittenSize`. -/
def LogWriter.create (files : LogWriter) (file : Bytes) : LogWriter :=
  { files with m_hLogFile := some file, disk := Function.update files.disk file [] }

/-- A line that it writes. -/
def LogWriter.append (files : LogWriter) (file strLine : Bytes) : LogWriter :=
  { files with
    disk := Function.update files.disk file (files.disk file ++ chunks files.passed.length strLine)
    passed := files.passed ++ [strLine] }

inductive LoggingEvent (T : Type)
  | setLevel (nLevel : ℤ)
  | output (t : T) (call : OutputCall)
  | dumped (d : Dump T) (strLine : Bytes)
  /-- a step between calls of the thread that holds the lock, or of none -/
  | thread (owner : Option (LogThread T)) (e : LogEvent)
  | written (strLine : Bytes)
  /-- the writer has shown a line that `fwrite` did not write -/
  | fwriteFails (strLine : Bytes)
  | file (e : WriterEvent)
  | fatalCreates (now : ℤ)
  | fatalWrites (strLine : Bytes)
  | other

open LogPlace LogThread

/-- A thread has entered the part of `output` with the lock. -/
def Log.call (s : Log T) (t : T) (strLine : Bytes) : Log T :=
  { s with place := Function.update s.place (logger t) (calling strLine) }

def Log.writerAt (s : Log T) (p : LogPlace) : Log T :=
  { s with place := Function.update s.place writer p }

section Places
variable (s : Log T) (t : T) (strLine : Bytes) (p : LogPlace)

theorem Log.call_self : (s.call t strLine).place (logger t) = calling strLine := by
  simp [Log.call]

theorem Log.call_of_ne {u : T} (h : u ≠ t) :
    (s.call t strLine).place (logger u) = s.place (logger u) := by
  simp [Log.call, h]

theorem Log.call_writer : (s.call t strLine).place writer = s.place writer := by
  simp [Log.call]

theorem Log.writerAt_self : (s.writerAt p).place writer = p := by
  simp [Log.writerAt]

theorem Log.writerAt_logger : (s.writerAt p).place (logger t) = s.place (logger t) := by
  simp [Log.writerAt]

end Places

/-- A step in which no thread enters `output`, and the writer does nothing with the files. -/
structure Within (s : Logging T) (log' : Log T) : Prop where
  idle : ∀ t, s.log.place (logger t) = idle → log'.place (logger t) = LogPlace.idle
  writer : log'.place writer = s.log.place writer ∨
    s.log.place writer = opening ∧ log'.place writer = testing ∧ s.files.phase = .taking ∨
    s.log.place writer ≠ opening ∧ ∀ strLine, s.log.place writer ≠ writing strLine

section Steps
variable (cfg : LogConfig) (m_bTruncateLongLog : Bool)

/-- The thread is in none of the functions of the log. -/
structure Logging.Free (s : Logging T) (t : T) : Prop where
  alive : s.crashed = false
  idle : s.log.place (logger t) = idle
  dumps : ∀ d ∈ s.dumps, d.t ≠ t
  fatal : ∀ call ∈ s.fatal, call.t ≠ t

/-- The writer and `uninit` use the files only while there is no fatal call. -/
inductive LoggingStep (s : Logging T) : LoggingEvent T → Logging T → Prop
  | setLevel (nLevel : ℤ) (halive : s.crashed = false) :
      LoggingStep s (.setLevel nLevel)
        { s with m_nCurrentLevel := CAsyncLog.setLevel nLevel s.m_nCurrentLevel }
  | drops (t : T) (call : OutputCall) (hfree : s.Free t)
      (hlow : ¬ passes s.m_nCurrentLevel call.nLevel) :
      LoggingStep s (.output t call) s
  | output (t : T) (call : OutputCall) (hfree : s.Free t)
      (hpasses : passes s.m_nCurrentLevel call.nLevel) (hlevel : call.nLevel ≠ LOG_LEVEL_FATAL) :
      LoggingStep s (.output t call)
        { s with log := s.log.call t (call.strLine cfg m_bTruncateLongLog) }
  | outputBinary (t : T) (address : ℤ) (buffer : Bytes) (hfree : s.Free t) :
      LoggingStep s .other
        { s with dumps := ⟨t, address, buffer, !s.dumps.isEmpty⟩ :: s.dumps.map Dump.share }
  | dumped (d : Dump T) {strLine : Bytes} (halive : s.crashed = false) (hd : d ∈ s.dumps)
      (hline : d.shared = false → CAsyncLog.outputBinary d.address d.buffer = .ok strLine) :
      LoggingStep s (.dumped d strLine)
        { s with
          log := s.log.call d.t strLine
          dumps := s.dumps.filter fun d' => d'.t ≠ d.t }
  | fatal (t : T) (call : OutputCall) (hfree : s.Free t)
      (hpasses : passes s.m_nCurrentLevel call.nLevel) (hlevel : call.nLevel = LOG_LEVEL_FATAL)
      (halone : s.fatal = none) :
      LoggingStep s (.output t call)
        { s with
          fatal := some ⟨t, call, if cfg.m_strFileName = [] then .crashing else .testing⟩ }
  | fatalTests {t : T} {call : OutputCall} (halive : s.crashed = false)
      (h : s.fatal = some ⟨t, call, .testing⟩) :
      LoggingStep s .other
        { s with
          fatal := some ⟨t, call, if s.files.m_hLogFile = none then .creating else .writing⟩ }
  | fatalFopenFails {t : T} {call : OutputCall} (halive : s.crashed = false)
      (h : s.fatal = some ⟨t, call, .creating⟩) :
      LoggingStep s .other
        { s with files := { s.files with m_hLogFile := none }, fatal := none }
  | fatalCreates {t : T} {call : OutputCall} (now : ℤ) (halive : s.crashed = false)
      (h : s.fatal = some ⟨t, call, .creating⟩) :
      LoggingStep s (.fatalCreates now)
        { s with
          files := s.files.create (cfg.newFileName now)
          fatal := some ⟨t, call, .writing⟩ }
  | fatalWrites {t : T} {call : OutputCall} {file : Bytes} (halive : s.crashed = false)
      (h : s.fatal = some ⟨t, call, .writing⟩) (hfile : s.files.m_hLogFile = some file) :
      LoggingStep s (.fatalWrites (call.strLine cfg m_bTruncateLongLog))
        { s with
          files := s.files.append file (call.strLine cfg m_bTruncateLongLog)
          fatal := some ⟨t, call, .crashing⟩ }
  | fatalFwriteFails {t : T} {call : OutputCall} (halive : s.crashed = false)
      (h : s.fatal = some ⟨t, call, .writing⟩) :
      LoggingStep s .other { s with fatal := some ⟨t, call, .crashing⟩ }
  | crash {t : T} {call : OutputCall} (halive : s.crashed = false)
      (h : s.fatal = some ⟨t, call, .crashing⟩) : LoggingStep s .other { s with crashed := true }
  | thread {e : LogEvent} {log' : Log T} (halive : s.crashed = false) (h : LogStep s.log e log')
      (hwithin : Within s log') :
      LoggingStep s (.thread s.log.m_mutexWrite e) { s with log := log' }
  | opens {e : WriterEvent} {files' : LogWriter} (halive : s.crashed = false)
      (halone : s.fatal = none) (hplace : s.log.place writer = opening)
      (hphase : s.files.phase = .opening) (h : WriterStep cfg s.files e files') :
      LoggingStep s (.file e) { s with files := files' }
  | fopenFails (halive : s.crashed = false) (halone : s.fatal = none)
      (hplace : s.log.place writer = opening) (hphase : s.files.phase = .opening)
      (hname : cfg.m_strFileName ≠ [])
      (hroll : s.files.m_hLogFile = none ∨
        s.files.m_nCurrentWrittenSize ≥ cfg.m_nFileRollSize) :
      LoggingStep s .other
        { s with
          log := s.log.writerAt failed
          files := { s.files with m_hLogFile := none, m_nCurrentWrittenSize := 0 } }
  | writes {strLine : Bytes} {files' : LogWriter} (halive : s.crashed = false)
      (halone : s.fatal = none) (hplace : s.log.place writer = writing strLine)
      (h : WriterStep cfg s.files (.line strLine) files') :
      LoggingStep s (.written strLine)
        { s with
          log := s.log.writerAt (if files'.phase = .returned then failed else opening)
          files := files' }
  | fwriteFails {strLine : Bytes} (halive : s.crashed = false) (halone : s.fatal = none)
      (hplace : s.log.place writer = writing strLine) (hname : cfg.m_strFileName ≠ []) :
      LoggingStep s (.fwriteFails strLine)
        { s with
          log := s.log.writerAt failed
          files := { s.files with phase := .returned } }
  | closes (halive : s.crashed = false) (halone : s.fatal = none)
      (hjoined : s.log.uninit = .joined) :
      LoggingStep s .other { s with files := { s.files with m_hLogFile := none } }

end Steps

/-! ### What the history says -/

/-- The level that the last call of `setLevel` with a level in range has set. -/
def levelOf : List (LoggingEvent T) → ℤ
  | [] => LOG_LEVEL_INFO
  | .setLevel nLevel :: history =>
    if LOG_LEVEL_TRACE ≤ nLevel ∧ nLevel ≤ LOG_LEVEL_FATAL then nLevel else levelOf history
  | _ :: history => levelOf history

section History
variable (cfg : LogConfig) (m_bTruncateLongLog : Bool) (t : T)

/-- What a dump leaves in the queue: its line, but any where the buffer was shared. -/
def Dump.lines (d : Dump T) (strLine : Bytes) : List Bytes :=
  if d.shared then [strLine] else (outputBinary d.address d.buffer).toOption.toList

/-- The lines of a thread for the queue: those not below the level in force, but for the fatal ones,
and all dumps. -/
def accepted : List (LoggingEvent T) → List Bytes
  | [] => []
  | .output t' call :: history =>
    accepted history ++
      if t' = t ∧ levelOf history ≤ call.nLevel ∧ call.nLevel ≠ LOG_LEVEL_FATAL then
        [call.strLine cfg m_bTruncateLongLog]
      else []
  | .dumped d strLine :: history => accepted history ++ if d.t = t then d.lines strLine else []
  | _ :: history => accepted history

end History

namespace LoggingEvent

def queuedBy : LoggingEvent T → List (T × Bytes)
  | .thread (some (logger t)) e => e.queuedLines.map fun strLine => (t, strLine)
  | _ => []

def writtenLines : LoggingEvent T → List Bytes
  | .written strLine => [strLine]
  | .fwriteFails strLine => [strLine]
  | _ => []

/-- The lines that `writeToFile` has written. -/
def passedLines : LoggingEvent T → List Bytes
  | .written strLine => [strLine]
  | .fatalWrites strLine => [strLine]
  | _ => []

def threadEvent : LoggingEvent T → Option LogEvent
  | .thread _ e => some e
  | _ => none

end LoggingEvent

open LoggingEvent LogEvent

/-- The line that a thread has at a place, to be queued or to be written. -/
def LogPlace.inHand : LogPlace → List Bytes
  | calling strLine => [strLine]
  | pushing strLine => [strLine]
  | writing strLine => [strLine]
  | _ => []

structure Traced (cfg : LogConfig) (m_bTruncateLongLog : Bool) (history : List (LoggingEvent T))
    (s : Logging T) : Prop where
  level : s.m_nCurrentLevel = levelOf history
  queued : Queued (history.filterMap threadEvent) s.log
  pushed : moved queuedLines (history.filterMap threadEvent) = (moved queuedBy history).map Prod.snd
  lanes : ∀ t, accepted cfg m_bTruncateLongLog t history =
    ofKey t (moved queuedBy history) ++ (s.log.place (logger t)).inHand
  taken : moved takenLines (history.filterMap threadEvent) =
    moved writtenLines history ++ (s.log.place writer).inHand
  passed : cfg.m_strFileName ≠ [] →
    s.files.passed = moved passedLines history

section Traces
variable {cfg : LogConfig} {m_bTruncateLongLog : Bool} {s s' : Logging T} {log log' : Log T}
  {e : LoggingEvent T} {history : List (LoggingEvent T)} {t : T} {p : LogPlace} {strLine : Bytes}

omit [DecidableEq T] in
theorem levelOf_range (history : List (LoggingEvent T)) :
    LOG_LEVEL_TRACE ≤ levelOf history ∧ levelOf history ≤ LOG_LEVEL_FATAL := by
  induction history with
  | nil => exact ⟨show (0 : ℤ) ≤ 2 by decide, show (2 : ℤ) ≤ 6 by decide⟩
  | cons e history ih =>
      cases e with
      | setLevel nLevel =>
          rw [levelOf]
          split_ifs with hrange
          · exact hrange
          · exact ih
      | _ => exact ih

/-- The exception for critical lines makes no difference. -/
theorem passes_iff {m_nCurrentLevel : ℤ} (h : m_nCurrentLevel ≤ LOG_LEVEL_FATAL) (nLevel : ℤ) :
    passes m_nCurrentLevel nLevel ↔ m_nCurrentLevel ≤ nLevel := by
  unfold passes
  rw [not_and, not_lt]
  refine ⟨fun hpasses => ?_, fun hle _ => hle⟩
  by_cases hcritical : nLevel = LOG_LEVEL_CRITICAL
  · rw [hcritical]
    exact h.trans (by decide)
  · exact hpasses hcritical

omit [DecidableEq T] in
/-- A step in which nothing is queued or taken leaves the queue. -/
theorem Queued.of_other {log : Log T} {history : List LogEvent} (h : Queued (.other :: history) log) :
    Queued history log where
  lock := h.lock
  empty := h.empty
  moved := by simpa [queuedLines, takenLines] using h.moved

theorem inHand_notifyOne (p : LogPlace) : p.notifyOne.inHand = p.inHand := by
  cases p <;> rfl

theorem inHand_update {place : LogThread T → LogPlace} {t : LogThread T} {p : LogPlace}
    (h : p.inHand = (place t).inHand) (u : LogThread T) :
    (Function.update place t p u).inHand = (place u).inHand := by
  by_cases hu : u = t
  · rw [hu, Function.update_self, h]
  · rw [Function.update_of_ne hu]

/-- What a step between calls moves: a line from its thread to the queue, or from the queue to the
writer. -/
structure Handed (log : Log T) (e : LogEvent) (log' : Log T) : Prop where
  pushed : e.queuedLines = (queuedBy (.thread log.m_mutexWrite e : LoggingEvent T)).map Prod.snd
  lanes : ∀ t, ofKey t (queuedBy (.thread log.m_mutexWrite e)) ++
    (log'.place (logger t)).inHand = (log.place (logger t)).inHand
  taken : (log'.place writer).inHand = (log.place writer).inHand ++ e.takenLines

omit [DecidableEq T] in
theorem queuedBy_thread {e : LogEvent} (h : e.queuedLines = []) (owner : Option (LogThread T)) :
    (LoggingEvent.thread owner e).queuedBy = [] := by
  rcases owner with _ | _ | t
  · rfl
  · rfl
  · rw [queuedBy, h, List.map_nil]

theorem Handed.of_same {e : LogEvent} (hqueued : e.queuedLines = []) (htaken : e.takenLines = [])
    (h : ∀ u, (log'.place u).inHand = (log.place u).inHand) : Handed log e log' where
  pushed := by rw [queuedBy_thread hqueued, hqueued, List.map_nil]
  lanes t := by rw [queuedBy_thread hqueued, ofKey_nil, List.nil_append, h]
  taken := by rw [h, htaken, List.append_nil]

theorem Handed.of_update {e : LogEvent} {u : LogThread T} (hqueued : e.queuedLines = [])
    (htaken : e.takenLines = []) (h : p.inHand = (log.place u).inHand)
    (hplace : log'.place = Function.update log.place u p) : Handed log e log' :=
  .of_same hqueued htaken fun v => by rw [hplace, inHand_update h]

/-- A step of `Within` hands on what the thread has in hand. -/
theorem Within.handed {e : LogEvent} (h : Within s log') (hlock : Held s.log.m_mutexWrite s.log.place
    LogPlace.HoldsMutexWrite) (hstep : LogStep s.log e log') : Handed s.log e log' := by
  have hidle := h.idle
  have hwriter := h.writer
  cases hstep with
  | @output t strLine hp =>
      have hsame := hidle t hp
      simp at hsame
  | lockLogger hp hfree => exact .of_update rfl rfl (by rw [hp]; rfl) rfl
  | @push_back t strLine hp =>
      have howner : s.log.m_mutexWrite = some (logger t) :=
        (hlock (logger t)).mpr (by rw [hp]; trivial)
      refine ⟨?_, fun u => ?_, ?_⟩
      · rw [howner, queuedBy, List.map_map]
        rfl
      · rw [howner, inHand_notifyOne, queuedBy]
        by_cases hu : u = t
        · rw [hu, Function.update_self, hp]
          simp [queuedLines, LogPlace.inHand]
        · rw [Function.update_of_ne (by simpa using hu)]
          simp [queuedLines, ofKey_cons_of_ne (Ne.symm hu)]
      · rw [inHand_notifyOne, update_logger_writer, takenLines, List.append_nil]
        simp
  | unlockLogger hp => exact .of_update rfl rfl (by rw [hp]; rfl) rfl
  | fopenFails hp => exact .of_update rfl rfl (by rw [hp]; rfl) rfl
  | lockWriter hp hfree => exact .of_update rfl rfl (by rw [hp]; rfl) rfl
  | empty hp hlist => exact .of_update rfl rfl (by rw [hp]; rfl) rfl
  | @pop_front strLine rest hp hline =>
      refine ⟨?_, fun u => ?_, ?_⟩
      · rw [queuedBy_thread rfl]
        rfl
      · rw [queuedBy_thread rfl]
        simp
      · simp [hp, LogPlace.inHand, takenLines]
  | exits hp hexit => exact .of_update rfl rfl (by rw [hp]; rfl) rfl
  | stays hp hexit => exact .of_update rfl rfl (by rw [hp]; rfl) rfl
  | wait hp => exact .of_update rfl rfl (by rw [hp]; rfl) rfl
  | lockAgain hp hfree => exact .of_update rfl rfl (by rw [hp]; rfl) rfl
  | written hp => simp [hp] at hwriter
  | fwriteFails hp => simp [hp] at hwriter
  | setExit hp => exact .of_same rfl rfl fun u => rfl
  | notify_one hp => exact .of_same rfl rfl fun u => inHand_notifyOne _
  | join hp hdone => exact .of_same rfl rfl fun u => rfl

theorem Traced.start : Traced cfg m_bTruncateLongLog [] ({} : Logging T) where
  level := rfl
  queued := queued_start
  pushed := rfl
  lanes _ := rfl
  taken := rfl
  passed _ := rfl

/-- A step that is none between calls. -/
theorem Traced.outside (h : Traced cfg m_bTruncateLongLog history s) (hevent : threadEvent e = none)
    (howner : queuedBy e = []) (hlevel : s'.m_nCurrentLevel = levelOf (e :: history))
    (hqueued : Queued (history.filterMap threadEvent) s'.log)
    (hlanes : ∀ t, ∃ lines, accepted cfg m_bTruncateLongLog t (e :: history) =
        accepted cfg m_bTruncateLongLog t history ++ lines ∧
      (s'.log.place (logger t)).inHand = (s.log.place (logger t)).inHand ++ lines)
    (htaken : (s.log.place writer).inHand = writtenLines e ++ (s'.log.place writer).inHand)
    (hpassed : cfg.m_strFileName ≠ [] →
      s'.files.passed = s.files.passed ++ passedLines e) :
    Traced cfg m_bTruncateLongLog (e :: history) s' where
  level := hlevel
  queued := by rwa [List.filterMap_cons_none hevent]
  pushed := by rw [List.filterMap_cons_none hevent, moved_cons, howner, List.append_nil, h.pushed]
  lanes t := by
    obtain ⟨lines, haccepted, hplace⟩ := hlanes t
    rw [haccepted, hplace, moved_cons, howner, List.append_nil, h.lanes t, List.append_assoc]
  taken := by
    rw [List.filterMap_cons_none hevent, moved_cons, h.taken, htaken, List.append_assoc]
  passed hname := by rw [hpassed hname, h.passed hname, moved_cons]

/-- A step that leaves the queue and the threads. -/
theorem Traced.same_log (h : Traced cfg m_bTruncateLongLog history s) (hlog : s'.log = s.log)
    (hevent : threadEvent e = none) (howner : queuedBy e = []) (hwritten : writtenLines e = [])
    (hlevel : s'.m_nCurrentLevel = levelOf (e :: history))
    (haccepted : ∀ t, accepted cfg m_bTruncateLongLog t (e :: history) =
      accepted cfg m_bTruncateLongLog t history)
    (hpassed : cfg.m_strFileName ≠ [] →
      s'.files.passed = s.files.passed ++ passedLines e) :
    Traced cfg m_bTruncateLongLog (e :: history) s' := by
  refine h.outside hevent howner hlevel (hlog ▸ h.queued) (fun t => ⟨[], ?_, ?_⟩) ?_ hpassed
  · rw [haccepted t, List.append_nil]
  · rw [hlog, List.append_nil]
  · rw [hlog, hwritten, List.nil_append]

/-- A step that nothing is said about. -/
theorem Traced.silent (h : Traced cfg m_bTruncateLongLog history s) (hlog : s'.log = s.log)
    (hlevel : s'.m_nCurrentLevel = s.m_nCurrentLevel)
    (hpassed : s'.files.passed = s.files.passed) :
    Traced cfg m_bTruncateLongLog (.other :: history) s' :=
  h.same_log hlog rfl rfl rfl (hlevel.trans h.level) (fun _ => rfl)
    fun _ => hpassed.trans (List.append_nil _).symm

/-- A thread has a line for the queue. -/
theorem Traced.calls (h : Traced cfg m_bTruncateLongLog history s)
    (hidle : s.log.place (logger t) = LogPlace.idle) (hevent : threadEvent e = none)
    (howner : queuedBy e = []) (hwritten : writtenLines e = [])
    (hpassed : passedLines e = [])
    (hlevel : levelOf (e :: history) = levelOf history)
    {dumps : List (Dump T)} (haccepted : ∀ u, accepted cfg m_bTruncateLongLog u (e :: history) =
      accepted cfg m_bTruncateLongLog u history ++ if t = u then [strLine] else []) :
    Traced cfg m_bTruncateLongLog (e :: history)
      { s with log := s.log.call t strLine, dumps := dumps } := by
  refine h.outside hevent howner (h.level.trans hlevel.symm)
    (h.queued.step (.output strLine hidle)).of_other (fun u => ⟨_, haccepted u, ?_⟩) ?_ fun _ => ?_
  · by_cases hu : u = t
    · rw [hu, if_pos rfl, hidle, Log.call_self]
      rfl
    · rw [if_neg (Ne.symm hu), List.append_nil, Log.call_of_ne _ _ _ hu]
  · rw [hwritten, List.nil_append, Log.call_writer]
  · rw [hpassed, List.append_nil]

/-- The writer is done with what it has in hand. -/
theorem Traced.writerAt {files : LogWriter} (h : Traced cfg m_bTruncateLongLog history s)
    (hstep : LogStep s.log .other (s.log.writerAt p)) (hp : p.inHand = [])
    (hevent : threadEvent e = none) (howner : queuedBy e = [])
    (hwritten : writtenLines e = (s.log.place writer).inHand)
    (hlevel : levelOf (e :: history) = levelOf history)
    (haccepted : ∀ t, accepted cfg m_bTruncateLongLog t (e :: history) =
      accepted cfg m_bTruncateLongLog t history)
    (hpassed : cfg.m_strFileName ≠ [] → files.passed = s.files.passed ++ passedLines e) :
    Traced cfg m_bTruncateLongLog (e :: history)
      { s with log := s.log.writerAt p, files := files } := by
  refine h.outside hevent howner (h.level.trans hlevel.symm) (h.queued.step hstep).of_other
    (fun t => ⟨[], ?_, ?_⟩) ?_ hpassed
  · rw [haccepted t, List.append_nil]
  · rw [Log.writerAt_logger, List.append_nil]
  · rw [Log.writerAt_self, hp, hwritten, List.append_nil]

theorem Traced.threadStep {e : LogEvent} (h : Traced cfg m_bTruncateLongLog history s)
    (hstep : LogStep s.log e log') (hwithin : Within s log') :
    Traced cfg m_bTruncateLongLog (.thread s.log.m_mutexWrite e :: history)
      { s with log := log' } := by
  have hhanded := hwithin.handed h.queued.lock hstep
  have hcons : (LoggingEvent.thread s.log.m_mutexWrite e :: history).filterMap threadEvent =
      e :: history.filterMap threadEvent := rfl
  refine ⟨h.level, hcons ▸ h.queued.step hstep, ?_, fun t => ?_, ?_, fun hname => ?_⟩
  · rw [hcons, moved_cons, moved_cons, h.pushed, hhanded.pushed, List.map_append]
  · rw [moved_cons, ofKey_append, List.append_assoc, hhanded.lanes t]
    exact h.lanes t
  · have hwritten : writtenLines (.thread s.log.m_mutexWrite e) = [] := rfl
    rw [hcons, moved_cons, moved_cons, h.taken, hhanded.taken, hwritten, List.append_nil,
      List.append_assoc]
  · have hpassed : passedLines (.thread s.log.m_mutexWrite e) = [] := rfl
    rw [moved_cons, hpassed, List.append_nil]
    exact h.passed hname

omit [DecidableEq T] in
theorem levelOf_setLevel (nLevel : ℤ) (history : List (LoggingEvent T)) :
    CAsyncLog.setLevel nLevel (levelOf history) = levelOf (.setLevel nLevel :: history) := by
  rw [levelOf, CAsyncLog.setLevel]
  split_ifs with hout hin hin
  · omega
  · rfl
  · rfl
  · omega

theorem accepted_of_not {call : OutputCall}
    (h : ¬ (levelOf history ≤ call.nLevel ∧ call.nLevel ≠ LOG_LEVEL_FATAL)) (u : T) :
    accepted cfg m_bTruncateLongLog u (.output t call :: history) =
      accepted cfg m_bTruncateLongLog u history := by
  rw [accepted, if_neg fun hall => h hall.2, List.append_nil]

/-- A thread that has come into `outputBinary` is not yet at the lock. -/
def Dumping (s : Logging T) : Prop := ∀ d ∈ s.dumps, s.log.place (logger d.t) = LogPlace.idle

theorem Dumping.calls (h : Dumping s) {dumps : List (Dump T)} (hdumps : ∀ d ∈ dumps, d ∈ s.dumps)
    (hother : ∀ d ∈ dumps, d.t ≠ t) :
    Dumping { s with log := s.log.call t strLine, dumps := dumps } := by
  intro d hd
  rw [Log.call_of_ne _ _ _ (hother d hd)]
  exact h d (hdumps d hd)

theorem Dumping.writerAt (h : Dumping s) (files : LogWriter) :
    Dumping { s with log := s.log.writerAt p, files := files } := by
  intro d hd
  rw [Log.writerAt_logger]
  exact h d hd

theorem Dumping.step (h : Dumping s) (hstep : LoggingStep cfg m_bTruncateLongLog s e s') :
    Dumping s' := by
  cases hstep with
  | output t call hfree hpass hlevel => exact h.calls (fun _ hd => hd) hfree.dumps
  | outputBinary t address buffer hfree =>
      refine List.forall_mem_cons.mpr ⟨hfree.idle, fun d hd => ?_⟩
      obtain ⟨d', hd', rfl⟩ := List.mem_map.mp hd
      exact h d' hd'
  | dumped d halive hd hline =>
      refine h.calls (fun _ hd' => List.mem_of_mem_filter hd') fun _ hd' => ?_
      exact of_decide_eq_true (List.mem_filter.mp hd').2
  | thread halive hlog hwithin => exact fun d hd => hwithin.idle d.t (h d hd)
  | fopenFails halive halone hplace hphase hname hroll => exact h.writerAt _
  | writes halive halone hplace hfile => exact h.writerAt _
  | fwriteFails halive halone hplace hname => exact h.writerAt _
  | _ => exact h

theorem Traced.step (h : Traced cfg m_bTruncateLongLog history s) (hdumping : Dumping s)
    (hstep : LoggingStep cfg m_bTruncateLongLog s e s') :
    Traced cfg m_bTruncateLongLog (e :: history) s' := by
  have hpasses : ∀ nLevel, passes s.m_nCurrentLevel nLevel ↔ levelOf history ≤ nLevel := by
    rw [h.level]
    exact passes_iff (levelOf_range history).2
  cases hstep with
  | setLevel nLevel halive =>
      refine h.same_log rfl rfl rfl rfl ?_ (fun _ => rfl) fun _ => (List.append_nil _).symm
      simp only [h.level, levelOf_setLevel]
  | drops t call hfree hlow =>
      refine h.same_log rfl rfl rfl rfl h.level (accepted_of_not fun hall => ?_)
        fun _ => (List.append_nil _).symm
      exact hlow ((hpasses _).mpr hall.1)
  | output t call hfree hpass hlevel =>
      refine h.calls hfree.idle rfl rfl rfl rfl rfl fun u => ?_
      rw [accepted]
      simp only [(hpasses _).mp hpass, hlevel, ne_eq, not_false_eq_true, and_true]
  | outputBinary t address buffer hfree => exact h.silent rfl rfl rfl
  | @dumped d strLine halive hd hline =>
      refine h.calls (hdumping d hd) rfl rfl rfl rfl rfl fun u => ?_
      rw [accepted, Dump.lines]
      split_ifs with hu hshared
      · rfl
      · rw [hline (by simpa using hshared)]
        rfl
      · rfl
  | fatal t call hfree hpass hlevel halone =>
      refine h.same_log rfl rfl rfl rfl h.level (accepted_of_not fun hall => ?_)
        fun _ => (List.append_nil _).symm
      exact hall.2 hlevel
  | fatalTests halive hcall => exact h.silent rfl rfl rfl
  | fatalFopenFails halive hcall => exact h.silent rfl rfl rfl
  | fatalCreates now halive hcall =>
      exact h.same_log rfl rfl rfl rfl h.level (fun _ => rfl) fun _ => (List.append_nil _).symm
  | fatalWrites halive hcall hfile =>
      exact h.same_log rfl rfl rfl rfl h.level (fun _ => rfl) fun _ => rfl
  | fatalFwriteFails halive hcall => exact h.silent rfl rfl rfl
  | crash halive hcall => exact h.silent rfl rfl rfl
  | thread halive hlog hwithin => exact h.threadStep hlog hwithin
  | @opens e files' halive halone hplace hphase hfile =>
      refine h.same_log rfl rfl rfl rfl h.level (fun _ => rfl) fun _ => ?_
      cases hfile with
      | keepFile _ hkeep => exact (List.append_nil _).symm
      | createNewFile now _ hname hroll => exact (List.append_nil _).symm
      | console strLine htaking hname => exact absurd (hphase.symm.trans htaking) (by simp)
      | writeToFile strLine htaking hname hopen =>
          exact absurd (hphase.symm.trans htaking) (by simp)
  | fopenFails halive halone hplace hphase hname hroll =>
      refine h.writerAt (.fopenFails hplace) rfl rfl rfl ?_ rfl (fun _ => rfl)
        fun _ => (List.append_nil _).symm
      rw [hplace]
      rfl
  | @writes strLine files' halive halone hplace hfile =>
      have hlog : LogStep s.log .other
          (s.log.writerAt (if files'.phase = .returned then failed else opening)) := by
        split_ifs with hreturned
        · exact .fwriteFails hplace
        · exact .written hplace
      refine h.writerAt hlog ?_ rfl rfl ?_ rfl (fun _ => rfl) fun hname => ?_
      · split_ifs with hreturned
        · rfl
        · rfl
      · rw [hplace]
        rfl
      · cases hfile with
        | console _ htaking hconsole => exact absurd hconsole hname
        | writeToFile _ htaking _ hopen => rfl
  | fwriteFails halive halone hplace hname =>
      refine h.writerAt (.fwriteFails hplace) rfl rfl rfl ?_ rfl (fun _ => rfl)
        fun _ => (List.append_nil _).symm
      rw [hplace]
      rfl
  | closes halive halone hjoined => exact h.silent rfl rfl rfl

/-! ### The files -/

end Traces

/-- No thread has a line that is not yet queued, the queue is empty and the writer has no line that
is not yet written. -/
structure Logging.AtRest (s : Logging T) : Prop where
  queue : s.log.m_listLinesToWrite = []
  inHand : ∀ u, (s.log.place u).inHand = []

/-- The lines written come from the calls of every thread in its order, and from all of them once
nothing is under way. -/
theorem Traced.written {cfg : LogConfig} {m_bTruncateLongLog : Bool} {s : Logging T}
    {history : List (LoggingEvent T)} (h : Traced cfg m_bTruncateLongLog history s) :
    ∃ ws : List (T × Bytes), ws.map Prod.snd = moved writtenLines history ∧
      ∀ t, ofKey t ws <+: accepted cfg m_bTruncateLongLog t history ∧
        (s.AtRest → ofKey t ws = accepted cfg m_bTruncateLongLog t history) := by
  have hall : (moved queuedBy history).map Prod.snd = moved writtenLines history ++
      ((s.log.place writer).inHand ++ s.log.m_listLinesToWrite) := by
    rw [← h.pushed, h.queued.moved, h.taken, List.append_assoc]
  let n := (moved writtenLines history).length
  refine ⟨(moved queuedBy history).take n, ?_, fun t => ⟨?_, fun hrest => ?_⟩⟩
  · rw [List.map_take, hall, List.take_left]
  · have hqueued := ofKey_prefix t (List.take_prefix n (moved queuedBy history))
    rw [h.lanes t]
    exact hqueued.trans (List.prefix_append _ _)
  · have hlength := congrArg List.length hall
    rw [hrest.queue, hrest.inHand, List.append_nil, List.append_nil, List.length_map] at hlength
    rw [h.lanes t, hrest.inHand, List.append_nil, List.take_of_length_le hlength.le]

/-- A call in the first second of the epoch. -/
def OutputCall.small (nLevel : ℤ) : OutputCall where
  nLevel := nLevel
  szTime := ascii "[1970-01-01 00:00:00:000]"
  osThreadID := ascii "1"
  source := some (ascii "main.cpp", 1)
  strLogMsg := ascii "start"

end CAsyncLog

end Yedis
