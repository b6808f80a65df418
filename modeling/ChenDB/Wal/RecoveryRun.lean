import ChenDB.Wal.Analysis

/-
  Recovery against a dictionary of pages, with each log
  write and page write it makes kept in order, so that a
  crash after any of them can be named.
-/

--
-- The Dictionary
--

namespace ChenDB

namespace Wal

open Library

/- The pages of a file, absent where there is none. -/
abbrev PageMap (ι : Type) :=
  Versioned.Store PageId ι

/- One externally visible step of recovery. -/
inductive RecoveryAction (ι : Type) where
  | apply (pageId : PageId) (image : ι)
  | log (record : LogRecord ι)
  | flush

structure RecoveryRun (ι : Type) where
  log : WriteAheadLog ι
  pages : PageMap ι
  /- What has been done so far, oldest first. -/
  actions : List (RecoveryAction ι)

abbrev RecoveryM (ι : Type) :=
  EStateM EngineError (RecoveryRun ι)

namespace RecoveryRun

variable {ι : Type}

/- The run after one more action. -/
def noting
    (run : RecoveryRun ι)
    (action : RecoveryAction ι) : RecoveryRun ι :=
  { run with actions := run.actions ++ [action] }

def withLog
    (run : RecoveryRun ι)
    (log : WriteAheadLog ι) : RecoveryRun ι :=
  { run with log := log }

end RecoveryRun

variable {ι : Type} [ByteImage ι]

/- Run a log operation inside a recovery. -/
def onLog {α : Type} (program : LogM ι α) :
    RecoveryM ι α :=
  StateExcept.focus RecoveryRun.log RecoveryRun.withLog
    program

/- The LSN of a page, or -1 where there is none. -/
def pageLsn
    (lsnOf : ι → Nat)
    (pages : PageMap ι)
    (pageId : PageId) : Int :=
  match pages pageId with
  | none => -1
  | some image => lsnOf image

/- The LSN of a small page: its first byte. -/
def stampByte (image : Bytes) : Nat :=
  (image.headD 0).toNat

/- `log` and the callbacks, over a dictionary of pages. -/
def dictionaryEnv (lsnOf : ι → Nat) :
    RecoveryEnv (RecoveryM ι) ι where
  readAll := onLog WriteAheadLog.readAll
  append recordType transactionId pageId after := do
    let record ← onLog
      (WriteAheadLog.append recordType transactionId pageId
        ByteImage.empty after)
    modify fun run => run.noting (.log record)
  abort transactionId := do
    let record ← onLog (WriteAheadLog.abort transactionId)
    modify fun run => run.noting (.log record)
  flush := do
    onLog WriteAheadLog.flush
    modify fun run => run.noting .flush
  readPageLsn pageId := do
    return pageLsn lsnOf (← get).pages pageId
  applyPage pageId image :=
    modify fun run =>
      { run with
        pages :=
          Function.update run.pages pageId (some image)
        actions := run.actions ++ [.apply pageId image] }

def recoverInto (lsnOf : ι → Nat) :
    RecoveryM ι RecoveryReport :=
  recover (dictionaryEnv lsnOf)

--
-- The Actions
--

/- The page writes of a redo pass, in order. -/
def redoActions
    (lsnOf : ι → Nat) :
    List (Versioned.Write PageId ι) → PageMap ι →
      List (RecoveryAction ι)
  | [], _ => []
  | write :: rest, pages =>
    if Versioned.Behind lsnOf (pages write.key)
        write.stamp then
      .apply write.key write.value ::
        redoActions lsnOf rest
          (Versioned.replayOne lsnOf pages write)
    else
      redoActions lsnOf rest pages

/- The record that logs a restore before it is applied. -/
def compensation
    (log : WriteAheadLog ι)
    (record : LogRecord ι) : LogRecord ι :=
  log.nextRecord .update record.transactionId
    record.pageId ByteImage.empty record.beforeImage

/- The log and page writes of an undo pass, in order. -/
def undoActions :
    WriteAheadLog ι → List (LogRecord ι) →
      List (RecoveryAction ι)
  | _, [] => []
  | log, record :: rest =>
    let logged := compensation log record
    .log logged ::
      .apply record.pageId record.beforeImage ::
        undoActions (log.stage logged) rest

/- The record that ends a loser. -/
def abortRecord
    (log : WriteAheadLog ι)
    (transactionId : Nat) : LogRecord ι :=
  log.endRecord .abort transactionId

def abortActions :
    WriteAheadLog ι → List Nat → List (RecoveryAction ι)
  | _, [] => []
  | log, transactionId :: rest =>
    let logged := abortRecord log transactionId
    .log logged ::
      abortActions
        ((log.stage logged).forget transactionId) rest

/- The log after the restores of an undo pass. -/
def undoneLog :
    WriteAheadLog ι → List (LogRecord ι) → WriteAheadLog ι
  | log, [] => log
  | log, record :: rest =>
    undoneLog (log.stage (compensation log record)) rest

def abortedLog :
    WriteAheadLog ι → List Nat → WriteAheadLog ι
  | log, [] => log
  | log, transactionId :: rest =>
    abortedLog
      ((log.stage (abortRecord log transactionId)).forget
        transactionId) rest

--
-- Running the Passes
--

section Passes

variable {lsnOf : ι → Nat}

omit [ByteImage ι] in
theorem behind_iff
    (pages : PageMap ι)
    (pageId : PageId)
    (stamp : Nat) :
    ¬ pageLsn lsnOf pages pageId ≥ (stamp : Int) ↔
      Versioned.Behind lsnOf (pages pageId) stamp := by
  unfold pageLsn Versioned.Behind
  cases pages pageId with
  | none =>
    simp
    omega
  | some image => simp

/- Redo leaves the replay of the log's updates. -/
theorem redo_run
    (lsnOf : ι → Nat)
    (records : List (LogRecord ι))
    (report : RecoveryReport)
    (run : RecoveryRun ι) :
    ∃ skipped redone : Nat,
      (redo (dictionaryEnv lsnOf) records report).run run =
        .ok { report with
            pagesSkipped := skipped
            pagesRedone := redone }
          { run with
            pages := Versioned.replay lsnOf
              (redoWrites records) run.pages
            actions := run.actions ++
              redoActions lsnOf (redoWrites records)
                run.pages } := by
  induction records generalizing report run with
  | nil =>
    refine ⟨report.pagesSkipped, report.pagesRedone, ?_⟩
    simp [redo, redoWrites, redoActions]
  | cons record records ih =>
    by_cases hUpdate : record.recordType = .update
    · rw [redoWrites_cons, if_pos hUpdate,
        Versioned.replay_cons]
      by_cases hBehind :
          Versioned.Behind lsnOf
            (run.pages record.pageId) record.lsn
      · have hNot := (behind_iff run.pages record.pageId
          record.lsn).mpr hBehind
        have hOne :
            Versioned.replayOne lsnOf run.pages
                record.toWrite =
              Function.update run.pages record.pageId
                (some record.afterImage) :=
          if_pos hBehind
        rcases ih
          { report with
            pagesRedone := report.pagesRedone + 1 }
          { run with
            pages := Function.update run.pages
              record.pageId (some record.afterImage)
            actions := run.actions ++
              [.apply record.pageId
                record.afterImage] }
          with ⟨skipped, redone, hRun⟩
        refine ⟨skipped, redone, ?_⟩
        rw [hOne, redoActions,
          if_pos (by exact hBehind), hOne]
        simpa [redo, hUpdate, dictionaryEnv, hNot,
          LogRecord.toWrite] using hRun
      · have hPast :
            pageLsn lsnOf run.pages record.pageId ≥
              (record.lsn : Int) := by
          by_contra hNot
          exact hBehind ((behind_iff _ _ _).mp hNot)
        have hOne :
            Versioned.replayOne lsnOf run.pages
              record.toWrite = run.pages :=
          if_neg hBehind
        rcases ih { report with
            pagesSkipped := report.pagesSkipped + 1 } run
          with ⟨skipped, redone, hRun⟩
        refine ⟨skipped, redone, ?_⟩
        rw [hOne, redoActions,
          if_neg (by exact hBehind)]
        simpa [redo, hUpdate, dictionaryEnv, hPast]
          using hRun
    · rcases ih report run with ⟨skipped, redone, hRun⟩
      refine ⟨skipped, redone, ?_⟩
      rw [redoWrites_cons, if_neg hUpdate]
      simpa [redo, hUpdate] using hRun

theorem undoneLog_closed
    (log : WriteAheadLog ι)
    (records : List (LogRecord ι)) :
    (undoneLog log records).closed = log.closed := by
  induction records generalizing log with
  | nil => rfl
  | cons record records ih =>
    exact ih (log.stage (compensation log record))

theorem abortedLog_closed
    (log : WriteAheadLog ι)
    (ids : List Nat) :
    (abortedLog log ids).closed = log.closed := by
  induction ids generalizing log with
  | nil => rfl
  | cons transactionId ids ih => exact ih _

/-
  The walk over the records restores each before-image it
  needs, after logging it.
-/
theorem undoRecords_run
    (lsnOf : ι → Nat)
    (losers : List Nat)
    (records : List (LogRecord ι))
    (report : RecoveryReport)
    (run : RecoveryRun ι)
    (hOpen : run.log.closed = false) :
    ∃ undone : Nat,
      (undoRecords (dictionaryEnv lsnOf) losers records
          report).run run =
        .ok { report with pagesUndone := undone }
          { log := undoneLog run.log
              (records.filter (needsUndo losers))
            pages := Versioned.restore
              (undoSaves losers records.reverse) run.pages
            actions := run.actions ++
              undoActions run.log
                (records.filter (needsUndo losers)) } := by
  induction records generalizing report run with
  | nil =>
    refine ⟨report.pagesUndone, ?_⟩
    simp [undoRecords, undoneLog, undoSaves, undoActions]
  | cons record records ih =>
    by_cases hNeeds : needsUndo losers record
    · rcases ih { report with
          pagesUndone := report.pagesUndone + 1 }
        { log := run.log.stage
            (compensation run.log record)
          pages := Function.update run.pages record.pageId
            (some record.beforeImage)
          actions := run.actions ++
            [.log (compensation run.log record),
              .apply record.pageId
                record.beforeImage] } hOpen
        with ⟨undone, hRun⟩
      refine ⟨undone, ?_⟩
      have hSaves :
          undoSaves losers (record :: records).reverse =
            undoSaves losers records.reverse ++
              [(record.pageId, record.beforeImage)] := by
        rw [List.reverse_cons, undoSaves_append]
        simp [undoSaves, hNeeds]
      rw [hSaves, Versioned.restore_append,
        List.filter_cons_of_pos hNeeds, undoneLog,
        undoActions]
      simpa [undoRecords, hNeeds, dictionaryEnv, onLog,
        WriteAheadLog.append_run hOpen, compensation,
        RecoveryRun.noting, RecoveryRun.withLog]
        using hRun
    · rcases ih report run hOpen with ⟨undone, hRun⟩
      refine ⟨undone, ?_⟩
      have hSaves :
          undoSaves losers (record :: records).reverse =
            undoSaves losers records.reverse := by
        rw [List.reverse_cons, undoSaves_append]
        simp [undoSaves, hNeeds]
      rw [hSaves, List.filter_cons_of_neg hNeeds]
      simpa [undoRecords, hNeeds] using hRun

theorem abortAll_run
    (lsnOf : ι → Nat)
    (ids : List Nat)
    (run : RecoveryRun ι)
    (hOpen : run.log.closed = false) :
    (abortAll (dictionaryEnv lsnOf) ids).run run =
      .ok () { run with
        log := abortedLog run.log ids
        actions := run.actions ++
          abortActions run.log ids } := by
  induction ids generalizing run with
  | nil => simp [abortAll, abortedLog, abortActions]
  | cons transactionId ids ih =>
    have hRest := ih {
      log := (run.log.stage
        (abortRecord run.log transactionId)).forget
          transactionId
      pages := run.pages
      actions := run.actions ++
        [.log (abortRecord run.log transactionId)] }
      hOpen
    rw [abortedLog, abortActions]
    simpa [abortAll, dictionaryEnv, onLog,
      WriteAheadLog.abort_run hOpen, abortRecord,
      RecoveryRun.noting, RecoveryRun.withLog] using hRest

/-
  The log after an undo pass: the restores and one ABORT for
  each loser, flushed.
-/
def logAfterUndo
    (log : WriteAheadLog ι)
    (losers : List Nat)
    (records : List (LogRecord ι)) : WriteAheadLog ι :=
  if losers = [] then log
  else
    (abortedLog
      (undoneLog log
        (records.reverse.filter (needsUndo losers)))
      (sortedIds losers)).flushed

/- The log and page writes of a whole undo pass. -/
def undoPassActions
    (log : WriteAheadLog ι)
    (losers : List Nat)
    (records : List (LogRecord ι)) :
    List (RecoveryAction ι) :=
  if losers = [] then []
  else
    undoActions log
        (records.reverse.filter (needsUndo losers)) ++
      abortActions
        (undoneLog log
          (records.reverse.filter (needsUndo losers)))
        (sortedIds losers) ++
      [.flush]

theorem undo_run
    (lsnOf : ι → Nat)
    (records : List (LogRecord ι))
    (losers : List Nat)
    (report : RecoveryReport)
    (run : RecoveryRun ι)
    (hOpen : run.log.closed = false) :
    ∃ undone : Nat,
      (undo (dictionaryEnv lsnOf) records losers
          report).run run =
        .ok { report with pagesUndone := undone }
          { log := logAfterUndo run.log losers records
            pages := Versioned.restore
              (undoSaves losers records) run.pages
            actions := run.actions ++
              undoPassActions run.log losers records } := by
  by_cases hNone : losers = []
  · refine ⟨report.pagesUndone, ?_⟩
    subst hNone
    have hSaves :
        undoSaves [] records = [] := by
      simp [undoSaves, needsUndo]
    simp [undo, hSaves, logAfterUndo, undoPassActions]
  · rcases undoRecords_run lsnOf losers
      records.reverse report run hOpen with ⟨undone, hRun⟩
    refine ⟨undone, ?_⟩
    rw [List.reverse_reverse] at hRun
    unfold undo
    rw [if_neg hNone, EStateM.run_bind, hRun]
    simp only [EStateM.run_bind]
    rw [abortAll_run lsnOf _ _ (by
      rw [undoneLog_closed]
      exact hOpen)]
    simp only [EStateM.run_bind, dictionaryEnv, onLog,
      StateExcept.run_focus]
    rw [WriteAheadLog.flush_run (by
      rw [abortedLog_closed, undoneLog_closed]
      exact hOpen)]
    simp [logAfterUndo, undoPassActions, hNone,
      RecoveryRun.noting, RecoveryRun.withLog,
      List.append_assoc]

end Passes

--
-- Running Recovery
--

/- What recovery leaves on the pages. -/
def recoveredPages
    (lsnOf : ι → Nat)
    (records : List (LogRecord ι))
    (pages : PageMap ι) : PageMap ι :=
  Versioned.restore
    (undoSaves (analyse records).losers records)
    (Versioned.replay lsnOf (redoWrites records) pages)

/- Every log write and page write of a recovery, in order. -/
def recoveryActions
    (lsnOf : ι → Nat)
    (log : WriteAheadLog ι)
    (records : List (LogRecord ι))
    (pages : PageMap ι) : List (RecoveryAction ι) :=
  redoActions lsnOf (redoWrites records) pages ++
    undoPassActions log (analyse records).losers records

/- The records a reopened log gives recovery. -/
def readRecords
    (log : WriteAheadLog ι) : List (LogRecord ι) :=
  (WriteAheadLog.scan log.baseLsn 0 log.file).1

theorem readRecords_contiguous (log : WriteAheadLog ι) :
    Contiguous log.baseLsn (readRecords log) :=
  scan_contiguous log.baseLsn 0 log.file

variable {lsnOf : ι → Nat}

theorem readAll_run
    {log : WriteAheadLog ι}
    (hOpen : log.closed = false) :
    WriteAheadLog.readAll.run log =
      .ok (WriteAheadLog.scan log.baseLsn 0 log.file)
        log := by
  unfold WriteAheadLog.readAll
  rw [EStateM.run_bind, WriteAheadLog.ensureOpen_run hOpen]
  rfl

theorem dictionaryEnv_readAll_run
    (run : RecoveryRun ι)
    (hOpen : run.log.closed = false) :
    (dictionaryEnv lsnOf).readAll.run run =
      .ok (readRecords run.log,
        (WriteAheadLog.scan run.log.baseLsn 0
          run.log.file).2) run := by
  unfold dictionaryEnv onLog
  rw [StateExcept.run_focus, readAll_run hOpen]
  rfl

theorem recoveryActions_nil
    (log : WriteAheadLog ι)
    (pages : PageMap ι) :
    recoveryActions lsnOf log [] pages = [] := rfl

/- Redo, undo and the two lists of the report. -/
theorem passes_run
    (records : List (LogRecord ι))
    (report : RecoveryReport)
    (run : RecoveryRun ι)
    (hOpen : run.log.closed = false) :
    ∃ final : RecoveryReport,
      (do
        let report ← redo (dictionaryEnv lsnOf) records
          report
        let report ← undo (dictionaryEnv lsnOf) records
          (analyse records).losers report
        return { report with
          winners := sortedIds (analyse records).finished
          losers := sortedIds (analyse records).losers
        } : RecoveryM ι RecoveryReport).run run =
        .ok final
          { log := logAfterUndo run.log
              (analyse records).losers records
            pages := recoveredPages lsnOf records run.pages
            actions := run.actions ++
              recoveryActions lsnOf run.log records
                run.pages } ∧
      final.ran = report.ran ∧
      final.highestXid = report.highestXid ∧
      final.highestLsn = report.highestLsn := by
  rcases redo_run lsnOf records report run with
    ⟨skipped, redone, hRedo⟩
  rcases undo_run lsnOf records (analyse records).losers
    { report with
      pagesSkipped := skipped
      pagesRedone := redone }
    { run with
      pages := Versioned.replay lsnOf
        (redoWrites records) run.pages
      actions := run.actions ++
        redoActions lsnOf (redoWrites records) run.pages }
    hOpen with ⟨undone, hUndo⟩
  rw [EStateM.run_bind, hRedo]
  simp only [EStateM.run_bind]
  rw [hUndo]
  refine ⟨{ report with
    pagesSkipped := skipped
    pagesRedone := redone
    pagesUndone := undone
    winners := sortedIds (analyse records).finished
    losers := sortedIds (analyse records).losers },
    ?_, rfl, rfl, rfl⟩
  rw [List.append_assoc]
  rfl

/-
  Recovery returns on every log and every set of pages: redo
  everything, then put the losers' before-images back.
-/
theorem recoverInto_run
    (lsnOf : ι → Nat)
    (run : RecoveryRun ι)
    (hOpen : run.log.closed = false) :
    ∃ report : RecoveryReport,
      (recoverInto lsnOf).run run =
        .ok report
          { log := logAfterUndo run.log
              (analyse (readRecords run.log)).losers
              (readRecords run.log)
            pages := recoveredPages lsnOf
              (readRecords run.log) run.pages
            actions := run.actions ++
              recoveryActions lsnOf run.log
                (readRecords run.log) run.pages } ∧
      report.ran = decide (readRecords run.log ≠ []) ∧
      report.highestXid =
        (analyse (readRecords run.log)).highestXid ∧
      report.highestLsn =
        (analyse (readRecords run.log)).highestLsn := by
  unfold recoverInto recover
  rw [EStateM.run_bind, dictionaryEnv_readAll_run run hOpen]
  by_cases hEmpty : readRecords run.log = []
  · simp only [hEmpty, if_true]
    rw [recoveryActions_nil, List.append_nil]
    refine ⟨_, rfl, ?_⟩
    exact ⟨rfl, rfl, rfl⟩
  · simp only [hEmpty, if_false]
    rcases passes_run (readRecords run.log)
      { RecoveryReport.initial with
        truncatedTail :=
          (WriteAheadLog.scan run.log.baseLsn 0
            run.log.file).2
        recordsScanned := (readRecords run.log).length
        ran := true
        highestXid :=
          (analyse (readRecords run.log)).highestXid
        highestLsn :=
          (analyse (readRecords run.log)).highestLsn }
      run hOpen with ⟨final, hRun, hRan, hXid, hLsn⟩
    refine ⟨final, hRun, ?_, hXid, hLsn⟩
    exact hRan.trans (decide_eq_true hEmpty).symm

end Wal

end ChenDB
