import Mathlib.Data.List.Sort
import ChenDB.Wal.RecoveryRun

/-
  Recovery that is itself interrupted. A crash keeps the
  page writes made so far and some prefix of the records
  logged so far; recovery then starts again from those.
-/

--
-- A Crash During Recovery
--

namespace ChenDB

namespace Wal

open Library

variable {ι : Type} [ByteImage ι]
variable {lsnOf : ι → Nat} {pageId : PageId}
variable {log : WriteAheadLog ι}

/- What one action does to the pages. -/
def applyAction
    (pages : PageMap ι) :
    RecoveryAction ι → PageMap ι
  | .apply pageId image =>
    Function.update pages pageId (some image)
  | .log _ => pages
  | .flush => pages

/- The pages after some of the actions. -/
def pagesAfter
    (pages : PageMap ι)
    (actions : List (RecoveryAction ι)) : PageMap ι :=
  actions.foldl applyAction pages

/- The record an action logs. -/
def RecoveryAction.logged? :
    RecoveryAction ι → Option (LogRecord ι)
  | .log record => some record
  | .apply _ _ => none
  | .flush => none

/- The records logged by some of the actions. -/
def loggedBy
    (actions : List (RecoveryAction ι)) :
    List (LogRecord ι) :=
  actions.filterMap RecoveryAction.logged?

/- A finished recovery, from an open log and its pages. -/
def recovered
    (lsnOf : ι → Nat)
    (log : WriteAheadLog ι)
    (pages : PageMap ι) : RecoveryRun ι :=
  match (recoverInto lsnOf).run
      { log := log, pages := pages, actions := [] } with
  | .ok _ final => final
  | .error _ final => final

/- The log file when the process stops after `done`, with
   `durable` of the logged records in it. -/
def crashLog
    (file : List (LogRecord ι))
    (baseLsn : Nat)
    (done : List (RecoveryAction ι))
    (durable : Nat) : WriteAheadLog ι :=
  .openFile (file ++ (loggedBy done).take durable) baseLsn

/-
  However many actions were done and however many of their
  records reached the file, a second recovery leaves the
  pages an uninterrupted one leaves.
-/
def RestartSafe
    (lsnOf : ι → Nat)
    (file : List (LogRecord ι))
    (baseLsn : Nat)
    (pages : PageMap ι) : Prop :=
  ∀ stopped durable : Nat,
    let whole := recovered lsnOf (.openFile file baseLsn) pages
    let done := whole.actions.take stopped
    (recovered lsnOf (crashLog file baseLsn done durable)
      (pagesAfter pages done)).pages = whole.pages

/-
  On every page, the loser whose image stays when only the
  losers from `t` on are undone is the one whose image stays
  when all of them are.
-/
def OldestLoserLast
    (records : List (LogRecord ι)) : Prop :=
  ∀ t ∈ (analyse records).losers, ∀ pageId image,
    restoreImage
        ((analyse records).losers.filter (t ≤ ·))
        records pageId = some image →
      restoreImage (analyse records).losers records
        pageId = some image

/- No image of a record is stamped above the record. -/
def ImagesStamped
    (lsnOf : ι → Nat)
    (records : List (LogRecord ι)) : Prop :=
  Stamped lsnOf records ∧
    ∀ record ∈ records, record.hasUndo →
      lsnOf record.beforeImage ≤ record.lsn

--
-- The Actions of a Recovery
--

section Actions

theorem recovered_eq
    (lsnOf : ι → Nat)
    (log : WriteAheadLog ι)
    (pages : PageMap ι)
    (hOpen : log.closed = false) :
    (recovered lsnOf log pages).pages =
        recoveredPages lsnOf (readRecords log) pages ∧
      (recovered lsnOf log pages).actions =
        recoveryActions lsnOf log (readRecords log)
          pages := by
  rcases recoverInto_run lsnOf
    { log := log, pages := pages, actions := [] } hOpen with
    ⟨report, hRun, -⟩
  unfold recovered
  rw [hRun]
  exact ⟨rfl, rfl⟩

omit [ByteImage ι] in
@[simp] theorem pagesAfter_append
    (pages : PageMap ι)
    (older newer : List (RecoveryAction ι)) :
    pagesAfter pages (older ++ newer) =
      pagesAfter (pagesAfter pages older) newer :=
  List.foldl_append

omit [ByteImage ι] in
@[simp] theorem loggedBy_append
    (older newer : List (RecoveryAction ι)) :
    loggedBy (older ++ newer) =
      loggedBy older ++ loggedBy newer :=
  List.filterMap_append

/- A cut redo pass is a replay of the first writes. -/
omit [ByteImage ι] in
theorem redoActions_take
    (lsnOf : ι → Nat)
    (writes : List (Versioned.Write PageId ι))
    (pages : PageMap ι)
    (count : Nat) :
    ∃ older newer, writes = older ++ newer ∧
      pagesAfter pages
          ((redoActions lsnOf writes pages).take count) =
        Versioned.replay lsnOf older pages := by
  induction writes generalizing pages count with
  | nil => exact ⟨[], [], rfl, by simp [redoActions,
      pagesAfter]⟩
  | cons write writes ih =>
    unfold redoActions
    by_cases hBehind :
        Versioned.Behind lsnOf (pages write.key)
          write.stamp
    · rw [if_pos hBehind]
      cases count with
      | zero =>
        exact ⟨[], write :: writes, rfl, rfl⟩
      | succ count =>
        rcases ih
          (Versioned.replayOne lsnOf pages write) count
          with ⟨older, newer, hSplit, hPages⟩
        refine ⟨write :: older, newer, ?_, ?_⟩
        · rw [hSplit]
          rfl
        · rw [Versioned.replay_cons, ← hPages,
            List.take_succ_cons]
          have hOne :
              applyAction pages
                  (.apply write.key write.value) =
                Versioned.replayOne lsnOf pages write :=
            (if_pos hBehind).symm
          rw [← hOne]
          rfl
    · rw [if_neg hBehind]
      have hOne :
          Versioned.replayOne lsnOf pages write =
            pages :=
        if_neg hBehind
      rcases ih pages count with ⟨older, newer, hSplit, hPages⟩
      refine ⟨write :: older, newer, ?_, ?_⟩
      · rw [hSplit]
        rfl
      · rw [Versioned.replay_cons, hOne, hPages]

omit [ByteImage ι] in
theorem pagesAfter_redoActions
    (writes : List (Versioned.Write PageId ι))
    (pages : PageMap ι) :
    pagesAfter pages (redoActions lsnOf writes pages) =
      Versioned.replay lsnOf writes pages := by
  induction writes generalizing pages with
  | nil => rfl
  | cons write writes ih =>
    rw [Versioned.replay_cons, ← ih, redoActions]
    by_cases hBehind :
        Versioned.Behind lsnOf (pages write.key)
          write.stamp
    · have hOne :
          applyAction pages
              (.apply write.key write.value) =
            Versioned.replayOne lsnOf pages write :=
        (if_pos hBehind).symm
      rw [if_pos hBehind, ← hOne]
      rfl
    · have hOne :
          Versioned.replayOne lsnOf pages write =
            pages :=
        if_neg hBehind
      rw [if_neg hBehind, hOne]

omit [ByteImage ι] in
theorem loggedBy_redoActions
    (writes : List (Versioned.Write PageId ι))
    (pages : PageMap ι) :
    loggedBy (redoActions lsnOf writes pages) = [] := by
  induction writes generalizing pages with
  | nil => rfl
  | cons write writes ih =>
    unfold redoActions
    split
    · exact ih _
    · exact ih _

/- The compensation records of an undo pass. -/
def compensations :
    WriteAheadLog ι → List (LogRecord ι) → List (LogRecord ι)
  | _, [] => []
  | log, record :: rest =>
    compensation log record ::
      compensations (log.stage (compensation log record))
        rest

/- The ABORT records of an undo pass. -/
def aborts :
    WriteAheadLog ι → List Nat → List (LogRecord ι)
  | _, [] => []
  | log, transactionId :: rest =>
    abortRecord log transactionId ::
      aborts
        ((log.stage (abortRecord log transactionId)).forget
          transactionId) rest

theorem loggedBy_undoActions
    (log : WriteAheadLog ι)
    (records : List (LogRecord ι)) :
    loggedBy (undoActions log records) =
      compensations log records := by
  induction records generalizing log with
  | nil => rfl
  | cons record records ih =>
    exact congrArg (compensation log record :: ·) (ih _)

theorem loggedBy_abortActions
    (log : WriteAheadLog ι)
    (ids : List Nat) :
    loggedBy (abortActions log ids) = aborts log ids := by
  induction ids generalizing log with
  | nil => rfl
  | cons transactionId ids ih =>
    exact congrArg (abortRecord log transactionId :: ·)
      (ih _)

/- A cut undo pass leaves alone the pages it never names. -/
theorem pagesAfter_undoActions_take
    (pages : PageMap ι)
    (log : WriteAheadLog ι)
    {records : List (LogRecord ι)}
    {pageId : PageId}
    (hOther : ∀ record ∈ records, record.pageId ≠ pageId)
    (count : Nat) :
    pagesAfter pages ((undoActions log records).take count)
        pageId =
      pages pageId := by
  induction records generalizing pages log count with
  | nil => simp [undoActions, pagesAfter]
  | cons record records ih =>
    have hRest := fun later hLater =>
      hOther later (.tail _ hLater)
    have hNe : pageId ≠ record.pageId :=
      (hOther record (.head _)).symm
    rcases count with _ | _ | count
    · rfl
    · rfl
    · change pagesAfter (Function.update pages
          record.pageId (some record.beforeImage)) _
          pageId = _
      rw [ih _ _ hRest count, Function.update_of_ne hNe]

/- A whole undo pass restores the saved images. -/
theorem pagesAfter_undoActions
    (pages : PageMap ι)
    (log : WriteAheadLog ι)
    (records : List (LogRecord ι)) :
    pagesAfter pages (undoActions log records) =
      Versioned.restore
        (records.reverse.map fun record =>
          (record.pageId, record.beforeImage)) pages := by
  induction records generalizing pages log with
  | nil => rfl
  | cons record records ih =>
    rw [List.reverse_cons, List.map_append,
      Versioned.restore_append]
    exact ih _ _

omit [ByteImage ι] in
theorem loggedBy_take_of_none
    {actions : List (RecoveryAction ι)}
    (hNone : loggedBy actions = [])
    (count : Nat) :
    loggedBy (actions.take count) = [] := by
  unfold loggedBy at hNone ⊢
  rw [List.filterMap_eq_nil_iff] at hNone ⊢
  intro action hMem
  exact hNone action (List.mem_of_mem_take hMem)

omit [ByteImage ι] in
theorem loggedBy_take_prefix
    (actions : List (RecoveryAction ι))
    (count : Nat) :
    loggedBy (actions.take count) <+: loggedBy actions :=
  (List.take_prefix count actions).filterMap _

/- The end of an undo pass, cut anywhere. -/
theorem endActions_take
    (pages : PageMap ι)
    (log : WriteAheadLog ι)
    (ids : List Nat)
    (count : Nat) :
    pagesAfter pages
        ((abortActions log ids ++ [RecoveryAction.flush]).take count) =
        pages ∧
      loggedBy
          ((abortActions log ids ++ [RecoveryAction.flush]).take count) =
        (aborts log ids).take count := by
  induction ids generalizing log count with
  | nil =>
    rcases count with _ | count
    · exact ⟨rfl, rfl⟩
    · constructor
      · simp [abortActions, pagesAfter, applyAction]
      · simp [abortActions, loggedBy, aborts,
          RecoveryAction.logged?]
  | cons transactionId ids ih =>
    rcases count with _ | count
    · exact ⟨rfl, rfl⟩
    · rcases ih ((log.stage
          (abortRecord log transactionId)).forget
            transactionId) count with ⟨hPages, hLogged⟩
      refine ⟨hPages, ?_⟩
      exact congrArg
        (abortRecord log transactionId :: ·) hLogged

end Actions

--
-- Where a Crash Can Fall
--

section Crash

variable (log : WriteAheadLog ι)
variable (records : List (LogRecord ι))

/- The records undo restores, newest first. -/
def toUndo : List (LogRecord ι) :=
  records.reverse.filter
    (needsUndo (analyse records).losers)

/- The compensation records of a whole recovery. -/
def allCompensations : List (LogRecord ι) :=
  compensations log (toUndo records)

/- The ABORT records of a whole recovery. -/
def allAborts : List (LogRecord ι) :=
  aborts (undoneLog log (toUndo records))
    (sortedIds (analyse records).losers)

theorem recoveredPages_of_unsaved
    (hNone : restoreImage (analyse records).losers records
      pageId = none)
    (pages : PageMap ι) :
    recoveredPages lsnOf records pages pageId =
      Versioned.replay lsnOf (redoWrites records) pages
        pageId := by
  unfold recoveredPages
  rw [Versioned.restore_apply]
  change (restoreImage (analyse records).losers records
    pageId).or _ = _
  rw [hNone]
  rfl

theorem toUndo_reverse :
    (toUndo records).reverse.map (fun record =>
        (record.pageId, record.beforeImage)) =
      undoSaves (analyse records).losers records := by
  unfold toUndo undoSaves
  rw [← List.filter_reverse, List.reverse_reverse]

theorem pageId_ne_of_unsaved
    (hNone : restoreImage (analyse records).losers records
      pageId = none)
    {record : LogRecord ι}
    (hMem : record ∈ toUndo records) :
    record.pageId ≠ pageId := by
  intro hEq
  subst hEq
  have hSaved :
      (record.pageId, record.beforeImage) ∈
        undoSaves (analyse records).losers records := by
    rw [← toUndo_reverse]
    apply List.mem_map.mpr
    exact ⟨record, List.mem_reverse.mpr hMem, rfl⟩
  unfold restoreImage at hNone
  rw [List.lookup_eq_none_iff] at hNone
  simpa using hNone _ hSaved

/-
  An undo pass cut among its restores has touched no page it
  does not restore; cut later, it has restored them all.
-/
theorem undoPassActions_take
    (pages : PageMap ι)
    (count : Nat) :
    let cut := (undoPassActions log
      (analyse records).losers records).take count
    (loggedBy cut <+: allCompensations log records ∧
      ∀ pageId,
        restoreImage (analyse records).losers records
            pageId = none →
          pagesAfter pages cut pageId = pages pageId) ∨
    (0 < count ∧ ∃ ended,
      loggedBy cut = allCompensations log records ++
        (allAborts log records).take ended ∧
      pagesAfter pages cut =
        Versioned.restore
          (undoSaves (analyse records).losers records)
          pages) := by
  intro cut
  by_cases hLosers : (analyse records).losers = []
  · left
    have hCut : cut = [] := by
      change (undoPassActions log (analyse records).losers
        records).take count = []
      unfold undoPassActions
      rw [if_pos hLosers, List.take_nil]
    rw [hCut]
    exact ⟨List.nil_prefix, fun _ _ => rfl⟩
  · have hCut : cut =
        (undoActions log (toUndo records)).take count ++
          (abortActions (undoneLog log (toUndo records))
              (sortedIds (analyse records).losers) ++
            [RecoveryAction.flush]).take
            (count - (undoActions log
              (toUndo records)).length) := by
      rw [← List.take_append, ← List.append_assoc]
      change (undoPassActions log (analyse records).losers
        records).take count = _
      unfold undoPassActions
      rw [if_neg hLosers]
      rfl
    have hEnd := endActions_take
      (pagesAfter pages
        ((undoActions log (toUndo records)).take count))
      (undoneLog log (toUndo records))
      (sortedIds (analyse records).losers)
      (count - (undoActions log (toUndo records)).length)
    rw [hCut, pagesAfter_append, loggedBy_append, hEnd.1,
      hEnd.2]
    by_cases hEarly :
        count ≤ (undoActions log (toUndo records)).length
    · left
      rw [Nat.sub_eq_zero_of_le hEarly, List.take_zero,
        List.append_nil]
      constructor
      · unfold allCompensations
        rw [← loggedBy_undoActions]
        exact loggedBy_take_prefix _ _
      · intro pageId hNone
        apply pagesAfter_undoActions_take
        intro record hMem
        exact pageId_ne_of_unsaved records hNone hMem
    · right
      have hWhole : (undoActions log
            (toUndo records)).length ≤ count := by
        omega
      refine ⟨by omega, count - (undoActions log
        (toUndo records)).length, ?_, ?_⟩
      · rw [List.take_of_length_le hWhole,
          loggedBy_undoActions]
        rfl
      · rw [List.take_of_length_le hWhole,
          pagesAfter_undoActions, toUndo_reverse]

/-
  A crash falls before the first ABORT is durable, with only
  redo to be seen on the pages no loser touched, or after
  it, with every page already as recovery leaves it.
-/
theorem crash_cases
    (lsnOf : ι → Nat)
    (pages : PageMap ι)
    (stopped durable : Nat) :
    let done :=
      (recoveryActions lsnOf log records pages).take stopped
    let kept := (loggedBy done).take durable
    (kept <+: allCompensations log records ∧
      ∀ pageId,
        restoreImage (analyse records).losers records
            pageId = none →
          ∃ older newer,
            redoWrites records = older ++ newer ∧
            pagesAfter pages done pageId =
              Versioned.replay lsnOf older pages
                pageId) ∨
    (∃ ended,
      kept = allCompensations log records ++
        (allAborts log records).take ended ∧
      pagesAfter pages done =
        recoveredPages lsnOf records pages) := by
  intro done kept
  rcases redoActions_take lsnOf
    (redoWrites records) pages stopped with
    ⟨older, newer, hSplit, hRedone⟩
  have hDone : done =
      (redoActions lsnOf (redoWrites records) pages).take
          stopped ++
        (undoPassActions log (analyse records).losers
          records).take
          (stopped - (redoActions lsnOf
            (redoWrites records) pages).length) :=
    List.take_append
  have hLogged : loggedBy done = loggedBy
      ((undoPassActions log (analyse records).losers
        records).take
        (stopped - (redoActions lsnOf
          (redoWrites records) pages).length)) := by
    rw [hDone, loggedBy_append, loggedBy_take_of_none
      (loggedBy_redoActions (redoWrites records) pages)]
    rfl
  have hPages : pagesAfter pages done = pagesAfter
      (Versioned.replay lsnOf older pages)
      ((undoPassActions log (analyse records).losers
        records).take
        (stopped - (redoActions lsnOf
          (redoWrites records) pages).length)) := by
    rw [hDone, pagesAfter_append, hRedone]
  rcases undoPassActions_take log records
      (Versioned.replay lsnOf older pages)
      (stopped - (redoActions lsnOf
        (redoWrites records) pages).length) with
    ⟨hPrefix, hFree⟩ | ⟨hPast, ended, hEnded, hRestored⟩
  · left
    constructor
    · refine (List.take_prefix durable _).trans ?_
      rw [hLogged]
      exact hPrefix
    · intro pageId hNone
      refine ⟨older, newer, hSplit, ?_⟩
      rw [hPages]
      exact hFree pageId hNone
  · -- The restores are all done: only ABORTs are missing.
    have hWhole : pagesAfter pages done =
        recoveredPages lsnOf records pages := by
      rw [hPages, hRestored]
      unfold recoveredPages
      rw [← hRedone, List.take_of_length_le (by omega),
        pagesAfter_redoActions]
    have hKept : kept =
        (allCompensations log records ++
          (allAborts log records).take ended).take
            durable := by
      change (loggedBy done).take durable = _
      rw [hLogged, hEnded]
    by_cases hShort :
        durable ≤ (allCompensations log records).length
    · left
      constructor
      · rw [hKept, List.take_append_of_le_length hShort]
        exact List.take_prefix _ _
      · intro pageId hNone
        refine ⟨redoWrites records, [],
          (List.append_nil _).symm, ?_⟩
        rw [hWhole]
        exact recoveredPages_of_unsaved records hNone pages
    · right
      refine ⟨min (durable -
        (allCompensations log records).length) ended,
        ?_, hWhole⟩
      rw [hKept, List.take_append,
        List.take_of_length_le (by omega), List.take_take]

end Crash

--
-- The Records of an Undo Pass
--

theorem stage_nextLsn
    (log : WriteAheadLog ι)
    (record : LogRecord ι) :
    (log.stage record).nextLsn =
      log.nextLsn + record.size := by
  unfold WriteAheadLog.nextLsn WriteAheadLog.stage
  exact (Nat.add_assoc _ _ _).symm

theorem compensations_contiguous
    (log : WriteAheadLog ι)
    (records : List (LogRecord ι)) :
    Contiguous log.nextLsn (compensations log records) ∧
      (undoneLog log records).nextLsn =
        log.nextLsn +
          totalSize (compensations log records) := by
  induction records generalizing log with
  | nil => exact ⟨trivial, rfl⟩
  | cons record records ih =>
    have hRest := ih
      (log.stage (compensation log record))
    rw [stage_nextLsn] at hRest
    refine ⟨⟨rfl, hRest.1⟩, ?_⟩
    rw [undoneLog, hRest.2, compensations, totalSize_cons,
      Nat.add_assoc]

theorem aborts_contiguous
    (log : WriteAheadLog ι)
    (ids : List Nat) :
    Contiguous log.nextLsn (aborts log ids) := by
  induction ids generalizing log with
  | nil => trivial
  | cons transactionId ids ih =>
    have hRest := ih
      ((log.stage (abortRecord log transactionId)).forget
        transactionId)
    refine ⟨rfl, ?_⟩
    rw [← stage_nextLsn]
    exact hRest

variable {logged : LogRecord ι}
variable {records : List (LogRecord ι)}

theorem mem_compensations
    {records : List (LogRecord ι)}
    (hMem : logged ∈ compensations log records) :
    logged.recordType = .update ∧
      logged.hasUndo = false ∧
      ∃ record ∈ records,
        logged.transactionId = record.transactionId ∧
        logged.pageId = record.pageId ∧
        logged.afterImage = record.beforeImage := by
  induction records generalizing log with
  | nil => cases hMem
  | cons record records ih =>
    rcases List.mem_cons.mp hMem with rfl | hLater
    · refine ⟨rfl, ?_, record, .head _, rfl,
        rfl, rfl⟩
      simp [LogRecord.hasUndo, compensation,
        WriteAheadLog.nextRecord]
    · rcases ih hLater with
        ⟨hUpdate, hNoUndo, found, hFound, hRest⟩
      exact ⟨hUpdate, hNoUndo, found,
        .tail _ hFound, hRest⟩

theorem redoWrites_compensations
    (log : WriteAheadLog ι)
    (records : List (LogRecord ι)) :
    (redoWrites (compensations log records)).map
        (fun write => (write.key, write.value)) =
      records.map fun record =>
        (record.pageId, record.beforeImage) := by
  induction records generalizing log with
  | nil => rfl
  | cons record records ih =>
    have hUpdate :
        (compensation log record).recordType = .update := rfl
    rw [compensations, redoWrites_cons, if_pos hUpdate]
    exact congrArg
      ((record.pageId, record.beforeImage) :: ·) (ih _)

theorem mem_aborts
    {ids : List Nat}
    (hMem : logged ∈ aborts log ids) :
    logged.recordType = .abort ∧
      logged.hasUndo = false ∧
      logged.transactionId ∈ ids := by
  induction ids generalizing log with
  | nil => cases hMem
  | cons transactionId ids ih =>
    rcases List.mem_cons.mp hMem with rfl | hLater
    · refine ⟨rfl, ?_, .head _⟩
      simp [LogRecord.hasUndo, abortRecord,
        WriteAheadLog.endRecord,
        WriteAheadLog.nextRecord]
    · rcases ih hLater with ⟨hAbort, hNoUndo, hId⟩
      exact ⟨hAbort, hNoUndo, .tail _ hId⟩

theorem aborts_transactionIds
    (log : WriteAheadLog ι)
    (ids : List Nat) :
    (aborts log ids).map LogRecord.transactionId = ids := by
  induction ids generalizing log with
  | nil => rfl
  | cons transactionId ids ih =>
    exact congrArg (transactionId :: ·) (ih _)

/- The ABORTs of the first losers finish exactly those. -/
theorem finished_aborts_take
    (log : WriteAheadLog ι)
    (ids : List Nat)
    (count t : Nat) :
    Finished ((aborts log ids).take count) t ↔
      t ∈ ids.take count := by
  have hIds : ids.take count =
      ((aborts log ids).take count).map
        LogRecord.transactionId := by
    rw [List.map_take, aborts_transactionIds]
  rw [hIds, List.mem_map]
  unfold Finished
  constructor
  · rintro ⟨record, hMem, -, hId⟩
    exact ⟨record, hMem, hId⟩
  · rintro ⟨record, hMem, hId⟩
    refine ⟨record, hMem, ?_, hId⟩
    have hAbort := (mem_aborts
      (List.mem_of_mem_take hMem)).1
    simp [LogRecord.finishes, hAbort]

--
-- The Second Run
--

section SecondRun

variable {later : List (LogRecord ι)}

/- The losers of the first run that nothing later ended. -/
theorem losers_append
    (hOwn : ∀ record ∈ later,
      record.transactionId ∈ (analyse records).losers)
    (t : Nat) :
    t ∈ (analyse (records ++ later)).losers ↔
      t ∈ (analyse records).losers ∧
        ¬ Finished later t := by
  rw [mem_losers_iff, mem_losers_iff, finished_append]
  have hSeen : Seen (records ++ later) t ↔
      Seen records t := by
    constructor
    · rintro ⟨hReal, record, hMem, hId⟩
      rcases List.mem_append.mp hMem with hOld | hNew
      · exact ⟨hReal, record, hOld, hId⟩
      · have hLoser := hOwn record hNew
        rw [hId] at hLoser
        exact ((mem_losers_iff records t).mp hLoser).1
    · rintro ⟨hReal, record, hMem, hId⟩
      exact ⟨hReal, record, List.mem_append_left _ hMem, hId⟩
  rw [hSeen, not_or, and_assoc]

/- The second undo restores from the first run's records. -/
theorem restoreImage_append
    (losers : List Nat)
    (hRedoOnly : ∀ record ∈ later, record.hasUndo = false)
    (pageId : PageId) :
    restoreImage losers (records ++ later) pageId =
      restoreImage losers records pageId := by
  unfold restoreImage
  rw [undoSaves_append, undoSaves_of_redo_only hRedoOnly,
    List.append_nil]

theorem recoveredPages_apply
    (pages : PageMap ι)
    (pageId : PageId) :
    recoveredPages lsnOf records pages pageId =
      (restoreImage (analyse records).losers records
        pageId).or
        (Versioned.replay lsnOf (redoWrites records) pages
          pageId) :=
  Versioned.restore_apply _ _ _

/- Fewer losers restore no page that more would not. -/
theorem restoreImage_mono
    {fewer more : List Nat}
    (hSub : ∀ t ∈ fewer, t ∈ more)
    (hNone : restoreImage more records pageId = none) :
    restoreImage fewer records pageId = none := by
  unfold restoreImage at hNone ⊢
  rw [List.lookup_eq_none_iff] at hNone ⊢
  intro save hMem
  apply hNone save
  unfold undoSaves at hMem ⊢
  rcases List.mem_map.mp hMem with ⟨record, hRecord, rfl⟩
  rcases List.mem_filter.mp hRecord with ⟨hIn, hNeeds⟩
  refine List.mem_map.mpr ⟨record, ?_, rfl⟩
  refine List.mem_filter.mpr ⟨hIn, ?_⟩
  simp only [needsUndo, decide_eq_true_eq] at hNeeds ⊢
  exact ⟨hNeeds.1, hSub _ hNeeds.2.1, hNeeds.2.2⟩

variable {start : Nat} {pages reached : PageMap ι}

/-
  Where no loser left an image, redo from any cut of redo
  gives what redo gives.
-/
theorem replay_of_cut
    (hRun : Contiguous start records)
    (hStamped : Stamped lsnOf records)
    {older newer : List (Versioned.Write PageId ι)}
    (hSplit : redoWrites records = older ++ newer)
    (hReached : reached pageId =
      Versioned.replay lsnOf older pages pageId) :
    Versioned.replay lsnOf (redoWrites records) reached
        pageId =
      Versioned.replay lsnOf (redoWrites records) pages
        pageId := by
  have hOrdered := redoWrites_ordered hRun hStamped
  apply Versioned.replay_of_partial hOrdered
  have hOlder : Versioned.Ordered lsnOf older := by
    rw [hSplit] at hOrdered
    exact hOrdered.of_append_left
  rcases Versioned.replay_cases hOlder pages pageId with
    hSame | ⟨write, hMem, hKey, hBehind, hValue⟩
  · exact .inl (hReached.trans hSame)
  · right
    refine ⟨write, ?_, hKey, hBehind, hReached.trans hValue⟩
    rw [hSplit]
    exact List.mem_append_left _ hMem

variable {record : LogRecord ι}

theorem mem_toUndo
    (hMem : record ∈ toUndo records) :
    record ∈ records ∧ record.hasUndo = true ∧
      record.transactionId ∈
        (analyse records).losers := by
  rcases List.mem_filter.mp hMem with ⟨hIn, hNeeds⟩
  simp only [needsUndo, decide_eq_true_eq] at hNeeds
  exact ⟨List.mem_reverse.mp hIn, hNeeds.2.2, hNeeds.2.1⟩

/- What the first run logs belongs to its losers. -/
theorem logged_own
    (hMem : record ∈ allCompensations log records ++
      allAborts log records) :
    record.transactionId ∈ (analyse records).losers ∧
      record.hasUndo = false := by
  rcases List.mem_append.mp hMem with hComp | hAbort
  · rcases mem_compensations hComp with
      ⟨-, hNoUndo, saved, hSaved, hId, -⟩
    rw [hId]
    exact ⟨(mem_toUndo hSaved).2.2, hNoUndo⟩
  · rcases mem_aborts hAbort with ⟨-, hNoUndo, hId⟩
    exact ⟨(mem_sortedIds _ _).mp hId, hNoUndo⟩

/-
  Restarting before any ABORT is durable: the same losers
  are found and the same images restored.
-/
theorem restart_early
    (hRun : Contiguous start records)
    (hStamped : Stamped lsnOf records)
    (hPrefix : later <+: allCompensations log records)
    (hReached : ∀ pageId,
      restoreImage (analyse records).losers records
          pageId = none →
        ∃ older newer,
          redoWrites records = older ++ newer ∧
          reached pageId =
            Versioned.replay lsnOf older pages pageId) :
    recoveredPages lsnOf (records ++ later) reached =
      recoveredPages lsnOf records pages := by
  have hComp : ∀ record ∈ later,
      record ∈ allCompensations log records :=
    fun record hMem => hPrefix.subset hMem
  have hOwn := fun record hMem =>
    logged_own (List.mem_append_left
      (allAborts log records) (hComp record hMem))
  have hNotEnded : ∀ t, ¬ Finished later t := by
    rintro t ⟨record, hMem, hEnds, -⟩
    have hUpdate := (mem_compensations (hComp record hMem)).1
    simp [LogRecord.finishes, hUpdate] at hEnds
  funext pageId
  rw [recoveredPages_apply, recoveredPages_apply,
    restoreImage_append _
      (fun record hMem => (hOwn record hMem).2)]
  have hLosers :
      restoreImage (analyse (records ++ later)).losers
          records pageId =
        restoreImage (analyse records).losers records
          pageId := by
    unfold restoreImage
    rw [undoSaves_congr]
    intro t
    rw [losers_append
      (fun record hMem => (hOwn record hMem).1)]
    simp [hNotEnded t]
  rw [hLosers]
  cases hImage : restoreImage (analyse records).losers
      records pageId with
  | some image => rfl
  | none =>
    rcases hReached pageId hImage with
      ⟨older, newer, hSplit, hCut⟩
    rw [redoWrites_append, Versioned.replay_append,
      Versioned.replay_of_not_mem]
    · exact replay_of_cut hRun hStamped hSplit hCut
    · intro write hMem
      rcases mem_redoWrites.mp hMem with
        ⟨record, hRecord, -, rfl⟩
      rcases mem_compensations (hComp record hRecord) with
        ⟨-, -, saved, hSaved, -, hPage, -⟩
      change record.pageId ≠ pageId
      rw [hPage]
      exact pageId_ne_of_unsaved records hImage hSaved

/- The restores are logged in stamp order, last image last. -/
theorem logged_ordered
    (hRun : Contiguous start records)
    (hNext : log.nextLsn = start + totalSize records)
    (hImages : ImagesStamped lsnOf records)
    (ended : Nat) :
    Contiguous start
        (records ++ (allCompensations log records ++
          (allAborts log records).take ended)) ∧
      Versioned.Ordered lsnOf
        (redoWrites
          (records ++ (allCompensations log records ++
            (allAborts log records).take ended))) := by
  have hComps := compensations_contiguous log
    (toUndo records)
  have hAborts := aborts_contiguous
    (undoneLog log (toUndo records))
    (sortedIds (analyse records).losers)
  rw [← List.take_append_drop ended
    (aborts (undoneLog log (toUndo records))
      (sortedIds (analyse records).losers)),
    contiguous_append, hComps.2] at hAborts
  have hAll : Contiguous start
      (records ++ (allCompensations log records ++
        (allAborts log records).take ended)) := by
    rw [contiguous_append, contiguous_append, ← hNext]
    exact ⟨hRun, hComps.1, hAborts.1⟩
  refine ⟨hAll, redoWrites_ordered hAll ?_⟩
  intro record hMem hUpdate
  rcases List.mem_append.mp hMem with hOld | hNew
  · exact hImages.1 record hOld hUpdate
  · rcases List.mem_append.mp hNew with hComp | hAbort
    · rcases mem_compensations hComp with
        ⟨-, -, saved, hSaved, -, -, hAfter⟩
      rcases mem_toUndo hSaved with ⟨hIn, hUndo, -⟩
      have hStamp := hImages.2 saved hIn hUndo
      have hBefore := hRun.lsn_lt hIn
      have hStart := (hComps.1.mem_bounds hComp).1
      rw [hAfter]
      omega
    · have hType := (mem_aborts
        (List.mem_of_mem_take hAbort)).1
      rw [hType] at hUpdate
      cases hUpdate

/- The last logged restore of a page is the one that stays. -/
theorem lastTo_logged
    (log : WriteAheadLog ι)
    {image : ι}
    (hImage : restoreImage (analyse records).losers records
      pageId = some image)
    (ended : Nat) :
    ∃ write, write.value = image ∧
      Versioned.lastTo pageId
        (redoWrites
          (records ++ (allCompensations log records ++
            (allAborts log records).take ended))) =
        some write := by
  have hNone :
      redoWrites ((allAborts log records).take ended) =
        [] := by
    unfold redoWrites
    rw [List.map_eq_nil_iff, List.filter_eq_nil_iff]
    intro record hMem
    have hType := (mem_aborts (List.mem_of_mem_take hMem)).1
    simp [hType]
  have hValue := Versioned.lastTo_value
    (redoWrites (allCompensations log records))
    (undoSaves (analyse records).losers records)
    (by
      rw [← toUndo_reverse, List.map_reverse,
        List.reverse_reverse]
      exact redoWrites_compensations log _) pageId
  unfold restoreImage at hImage
  rw [hImage] at hValue
  rcases Option.map_eq_some_iff.mp hValue with
    ⟨write, hLast, hWrite⟩
  refine ⟨write, hWrite, ?_⟩
  rw [redoWrites_append, redoWrites_append, hNone,
    List.append_nil, Versioned.lastTo_append, hLast]
  rfl

/- The losers whose ABORT is not among the first `ended`. -/
def stillOpen
    (records : List (LogRecord ι))
    (ended : Nat) : List Nat :=
  (analyse records).losers.filter fun t =>
    t ∉ (sortedIds (analyse records).losers).take ended

/- The second run undoes the losers that are still open. -/
theorem restoreImage_second
    (log : WriteAheadLog ι)
    (ended : Nat)
    (pageId : PageId) :
    restoreImage
        (analyse (records ++
          (allCompensations log records ++
            (allAborts log records).take ended))).losers
        (records ++ (allCompensations log records ++
          (allAborts log records).take ended)) pageId =
      restoreImage (stillOpen records ended) records
        pageId := by
  have hOwn : ∀ record ∈
      allCompensations log records ++
        (allAborts log records).take ended,
      record.transactionId ∈ (analyse records).losers ∧
        record.hasUndo = false := by
    intro record hMem
    have hLogged : record ∈ allCompensations log records ++
        allAborts log records := by
      rcases List.mem_append.mp hMem with hComp | hAbort
      · exact List.mem_append_left _ hComp
      · exact List.mem_append_right _
          (List.mem_of_mem_take hAbort)
    exact logged_own hLogged
  rw [restoreImage_append _
    (fun record hMem => (hOwn record hMem).2)]
  unfold restoreImage
  rw [undoSaves_congr]
  intro t
  have hNoComp :
      ¬ Finished (allCompensations log records) t := by
    rintro ⟨record, hMem, hEnds, -⟩
    have hUpdate := (mem_compensations hMem).1
    simp [LogRecord.finishes, hUpdate] at hEnds
  rw [losers_append
      (fun record hMem => (hOwn record hMem).1),
    finished_append]
  unfold allAborts
  rw [finished_aborts_take]
  simp [stillOpen, hNoComp]

/-
  Restarting with some ABORTs durable: the pages are the
  finished run's wherever the losers still open leave the
  image that all of them leave.
-/
theorem restart_late
    (hRun : Contiguous start records)
    (hNext : log.nextLsn = start + totalSize records)
    (hImages : ImagesStamped lsnOf records)
    (pages : PageMap ι)
    (ended : Nat)
    (hSame : ∀ image,
      restoreImage (stillOpen records ended) records
          pageId = some image →
        restoreImage (analyse records).losers records
          pageId = some image) :
    recoveredPages lsnOf
        (records ++ (allCompensations log records ++
          (allAborts log records).take ended))
        (recoveredPages lsnOf records pages) pageId =
      recoveredPages lsnOf records pages pageId := by
  rw [recoveredPages_apply, restoreImage_second]
  cases hOpen : restoreImage (stillOpen records ended)
      records pageId with
  | some image =>
    rw [recoveredPages_apply, hSame image hOpen]
    rfl
  | none =>
    rw [Option.none_or]
    cases hImage : restoreImage (analyse records).losers
        records pageId with
    | some image =>
      -- The page already holds the last logged restore.
      have hHolds :
          recoveredPages lsnOf records pages pageId =
            some image := by
        rw [recoveredPages_apply, hImage]
        rfl
      rcases lastTo_logged log hImage ended with
        ⟨write, hValue, hLast⟩
      rw [hHolds]
      subst hValue
      exact Versioned.replay_of_holds_last
        (logged_ordered hRun hNext hImages ended).2
        hLast hHolds
    | none =>
      have hPlain :
          recoveredPages lsnOf records pages pageId =
            Versioned.replay lsnOf (redoWrites records)
              pages pageId :=
        recoveredPages_of_unsaved records hImage pages
      rw [redoWrites_append, Versioned.replay_append,
        Versioned.replay_of_not_mem]
      · rw [hPlain]
        exact replay_of_cut hRun hImages.1
          (List.append_nil _).symm hPlain
      · intro write hMem
        rcases mem_redoWrites.mp hMem with
          ⟨record, hRecord, hUpdate, rfl⟩
        change record.pageId ≠ pageId
        rcases List.mem_append.mp hRecord with
          hComp | hAbort
        · rcases mem_compensations hComp with
            ⟨-, -, saved, hSaved, -, hPage, -⟩
          rw [hPage]
          exact pageId_ne_of_unsaved records hImage
            hSaved
        · have hType := (mem_aborts
            (List.mem_of_mem_take hAbort)).1
          rw [hType] at hUpdate
          cases hUpdate

end SecondRun

--
-- The Losers Still Open
--

section StillOpen

theorem sortedIds_pairwise_lt
    (records : List (LogRecord ι)) :
    (sortedIds (analyse records).losers).Pairwise
      (· < ·) := by
  have hLe :
      (sortedIds (analyse records).losers).Pairwise
        (· ≤ ·) :=
    List.pairwise_insertionSort (· ≤ ·) _
  have hNodup :
      (sortedIds (analyse records).losers).Nodup :=
    (List.perm_insertionSort (· ≤ ·) _).nodup_iff.mpr
      (losers_nodup records)
  refine (hLe.and hNodup).imp ?_
  intro a b hBoth
  exact Nat.lt_of_le_of_ne hBoth.1 hBoth.2

/- Those still open are the ones from some id on. -/
theorem mem_stillOpen
    {older newer : List Nat}
    {t : Nat}
    (hSplit : sortedIds (analyse records).losers =
      older ++ t :: newer)
    (u : Nat) :
    u ∈ stillOpen records older.length ↔
      u ∈ (analyse records).losers.filter (t ≤ ·) := by
  have hSorted := sortedIds_pairwise_lt records
  have hMem := mem_sortedIds (analyse records).losers u
  rw [hSplit] at hSorted hMem
  rw [List.pairwise_append] at hSorted
  rcases hSorted with ⟨-, hLater, hBefore⟩
  have hFirst := (List.pairwise_cons.mp hLater).1
  unfold stillOpen
  rw [hSplit, List.take_left, List.mem_filter,
    List.mem_filter, ← hMem]
  simp only [List.mem_append, List.mem_cons, decide_eq_true_eq]
  constructor
  · rintro ⟨hOld | rfl | hNew, hOpen⟩
    · exact absurd hOld hOpen
    · exact ⟨.inr (.inl rfl), Nat.le_refl u⟩
    · exact ⟨.inr (.inr hNew), Nat.le_of_lt (hFirst u hNew)⟩
  · rintro ⟨hIn, hFrom⟩
    refine ⟨hIn, ?_⟩
    intro hOld
    have hLt := hBefore u hOld t (.head _)
    omega

/- The condition covers every number of durable ABORTs. -/
theorem OldestLoserLast.stillOpen
    (hOldest : OldestLoserLast records)
    (ended : Nat)
    (pageId : PageId)
    (image : ι)
    (hImage :
      restoreImage (stillOpen records ended) records
        pageId = some image) :
    restoreImage (analyse records).losers records
      pageId = some image := by
  cases hDrop :
      (sortedIds (analyse records).losers).drop ended with
  | nil =>
    have hNone :
        Wal.stillOpen records ended = [] := by
      unfold Wal.stillOpen
      rw [List.filter_eq_nil_iff]
      intro t hMem
      have hSorted := (mem_sortedIds _ t).mpr hMem
      rw [← List.take_append_drop ended
        (sortedIds (analyse records).losers), hDrop,
        List.append_nil] at hSorted
      simpa using hSorted
    rw [hNone] at hImage
    unfold restoreImage at hImage
    rw [undoSaves_no_losers] at hImage
    cases hImage
  | cons t newer =>
    have hSplit := (List.take_append_drop ended
      (sortedIds (analyse records).losers)).symm
    rw [hDrop] at hSplit
    have hLength :
        ((sortedIds (analyse records).losers).take
          ended).length = ended := by
      rw [List.length_take]
      have hPos :
          0 < ((sortedIds
            (analyse records).losers).drop
              ended).length := by
        rw [hDrop]
        exact Nat.succ_pos _
      rw [List.length_drop] at hPos
      omega
    have hMem : t ∈ (analyse records).losers := by
      rw [← mem_sortedIds, hSplit]
      exact List.mem_append_right _ (.head _)
    apply hOldest t hMem
    unfold restoreImage at hImage ⊢
    rw [← hImage]
    congr 1
    apply undoSaves_congr
    intro u
    rw [← mem_stillOpen hSplit, hLength]

end StillOpen

--
-- Restarting Recovery
--

/- Every action done: all pages as recovery leaves them. -/
theorem recoveryActions_all
    (lsnOf : ι → Nat)
    (log : WriteAheadLog ι)
    (records : List (LogRecord ι))
    (pages : PageMap ι)
    (hLosers : (analyse records).losers ≠ []) :
    pagesAfter pages
        (recoveryActions lsnOf log records pages) =
        recoveredPages lsnOf records pages ∧
      loggedBy
          (recoveryActions lsnOf log records pages) =
        allCompensations log records ++
          allAborts log records := by
  unfold recoveryActions undoPassActions
  rw [if_neg hLosers, List.append_assoc]
  have hEnd := endActions_take
    (pagesAfter
      (pagesAfter pages
        (redoActions lsnOf (redoWrites records) pages))
      (undoActions log (toUndo records)))
    (undoneLog log (toUndo records))
    (sortedIds (analyse records).losers)
    (abortActions (undoneLog log (toUndo records))
        (sortedIds (analyse records).losers) ++
      [RecoveryAction.flush]).length
  have hIds :
      (aborts (undoneLog log (toUndo records))
        (sortedIds (analyse records).losers)).length ≤
        (abortActions (undoneLog log (toUndo records))
            (sortedIds (analyse records).losers) ++
          [RecoveryAction.flush]).length := by
    rw [← loggedBy_abortActions, List.length_append]
    exact (List.length_filterMap_le _ _).trans
      (Nat.le_add_right _ _)
  rw [List.take_length, List.take_of_length_le hIds] at hEnd
  constructor
  · rw [pagesAfter_append, pagesAfter_append]
    refine hEnd.1.trans ?_
    rw [pagesAfter_redoActions, pagesAfter_undoActions,
      toUndo_reverse]
    rfl
  · rw [loggedBy_append, loggedBy_append,
      loggedBy_redoActions]
    unfold allCompensations
    rw [← loggedBy_undoActions]
    exact congrArg
      (loggedBy (undoActions log (toUndo records)) ++ ·)
      hEnd.2

section Safe

variable {file : List (LogRecord ι)}
variable {baseLsn : Nat}

/- The file a crash leaves is read whole. -/
theorem scan_crashLog
    (hWhole :
      (WriteAheadLog.scan baseLsn 0 file).2 = false)
    (hImages : ImagesStamped lsnOf file)
    {kept : List (LogRecord ι)}
    (ended : Nat)
    (hPrefix : kept <+:
      allCompensations
          (WriteAheadLog.openFile file baseLsn) file ++
        (allAborts (WriteAheadLog.openFile file baseLsn)
          file).take ended) :
    (WriteAheadLog.scan baseLsn 0 (file ++ kept)).1 =
      file ++ kept := by
  have hRun : Contiguous baseLsn file := by
    have hScan := scan_contiguous baseLsn 0 file
    rw [scan_eq_file hWhole] at hScan
    exact hScan
  rcases hPrefix with ⟨rest, hRest⟩
  have hNext :
      (WriteAheadLog.openFile file baseLsn).nextLsn =
        baseLsn + totalSize file := rfl
  have hAll := (logged_ordered hRun hNext hImages ended).1
  rw [← hRest, ← List.append_assoc, contiguous_append] at hAll
  rw [scan_of_contiguous (by exact hAll.1)]

/- Behind something unreadable nothing is read again. -/
theorem restart_torn
    (hImages : ImagesStamped lsnOf
      (WriteAheadLog.scan baseLsn 0 file).1)
    (log : WriteAheadLog ι)
    (pages : PageMap ι)
    (stopped durable : Nat) :
    recoveredPages lsnOf
        (WriteAheadLog.scan baseLsn 0 file).1
        (pagesAfter pages
          ((recoveryActions lsnOf log
            (WriteAheadLog.scan baseLsn 0 file).1
              pages).take stopped)) =
      recoveredPages lsnOf
        (WriteAheadLog.scan baseLsn 0 file).1 pages := by
  have hRun := scan_contiguous baseLsn 0 file
  have hNothing : [] <+: allCompensations log
      (WriteAheadLog.scan baseLsn 0 file).1 :=
    List.nil_prefix
  have hReached : ∀ pageId,
      restoreImage
          (analyse (WriteAheadLog.scan baseLsn 0
            file).1).losers
          (WriteAheadLog.scan baseLsn 0 file).1
          pageId = none →
        ∃ older newer,
          redoWrites (WriteAheadLog.scan baseLsn 0 file).1 =
              older ++ newer ∧
            pagesAfter pages
                ((recoveryActions lsnOf log
                  (WriteAheadLog.scan baseLsn 0 file).1
                    pages).take stopped) pageId =
              Versioned.replay lsnOf older pages
                pageId := by
    intro pageId hNone
    rcases crash_cases log _ lsnOf pages stopped durable
      with ⟨-, hCut⟩ | ⟨ended, -, hWhole⟩
    · exact hCut pageId hNone
    · refine ⟨_, [], (List.append_nil _).symm, ?_⟩
      rw [hWhole]
      exact recoveredPages_of_unsaved _ hNone pages
  have hSame := restart_early hRun hImages.1 hNothing hReached
  rw [List.append_nil] at hSame
  exact hSame

/- A whole file, under the condition. -/
theorem restart_whole
    (hWhole :
      (WriteAheadLog.scan baseLsn 0 file).2 = false)
    (hImages : ImagesStamped lsnOf file)
    (hOldest : OldestLoserLast file)
    (pages : PageMap ι)
    (stopped durable : Nat) :
    let log := WriteAheadLog.openFile file baseLsn
    let done :=
      (recoveryActions lsnOf log file pages).take stopped
    let kept := (loggedBy done).take durable
    recoveredPages lsnOf
        (WriteAheadLog.scan baseLsn 0 (file ++ kept)).1
        (pagesAfter pages done) =
      recoveredPages lsnOf file pages := by
  intro log done kept
  have hRun : Contiguous baseLsn file := by
    have hScan := scan_contiguous baseLsn 0 file
    rw [scan_eq_file hWhole] at hScan
    exact hScan
  rcases crash_cases log file lsnOf pages stopped
      durable with ⟨hPrefix, hCut⟩ | ⟨ended, hKept, hPages⟩
  · rw [scan_crashLog hWhole hImages 0
      (hPrefix.trans (List.prefix_append _ _))]
    exact restart_early hRun hImages.1 hPrefix hCut
  · have hAll : kept <+: allCompensations log file ++
        (allAborts log file).take ended := by
      change (loggedBy done).take durable <+: _
      exact hKept ▸ List.prefix_rfl
    rw [scan_crashLog hWhole hImages ended hAll]
    change recoveredPages lsnOf (file ++ (loggedBy
      done).take durable) (pagesAfter pages done) = _
    rw [hKept, hPages]
    funext pageId
    exact restart_late hRun rfl hImages pages ended
      (hOldest.stillOpen ended pageId)

/-
  Where the condition fails for `t`, a crash right after the
  ABORTs of the losers before `t` restores another image.
-/
theorem oldestLoserLast_of_safe
    (hWhole :
      (WriteAheadLog.scan baseLsn 0 file).2 = false)
    (hImages : ImagesStamped lsnOf file)
    {pages : PageMap ι}
    (hSafe : ∀ stopped durable,
      recoveredPages lsnOf
          (WriteAheadLog.scan baseLsn 0 (file ++
            (loggedBy ((recoveryActions lsnOf
              (WriteAheadLog.openFile file baseLsn) file
              pages).take stopped)).take durable)).1
          (pagesAfter pages ((recoveryActions lsnOf
            (WriteAheadLog.openFile file baseLsn) file
            pages).take stopped)) =
        recoveredPages lsnOf file pages) :
    OldestLoserLast file := by
  intro t hLoser pageId image hImage
  let log := WriteAheadLog.openFile file baseLsn
  have hLosers : (analyse file).losers ≠ [] :=
    List.ne_nil_of_mem hLoser
  rcases List.append_of_mem
    ((mem_sortedIds (analyse file).losers t).mpr hLoser)
    with ⟨older, newer, hSplit⟩
  rcases recoveryActions_all lsnOf log file pages hLosers
    with ⟨hPages, hLogged⟩
  have hRerun := hSafe
    (recoveryActions lsnOf log file pages).length
    ((allCompensations log file).length + older.length)
  rw [List.take_length, hLogged, List.take_append,
    List.take_of_length_le (Nat.le_add_right _ _),
    Nat.add_sub_cancel_left, hPages,
    scan_crashLog hWhole hImages older.length
      List.prefix_rfl] at hRerun
  have hPage := congrFun hRerun pageId
  have hOpen :
      restoreImage (stillOpen file older.length) file
        pageId = some image := by
    rw [← hImage]
    unfold restoreImage
    congr 1
    exact undoSaves_congr (mem_stillOpen hSplit) file
  rw [recoveredPages_apply, restoreImage_second, hOpen,
    recoveredPages_apply] at hPage
  cases hAll : restoreImage (analyse file).losers file
      pageId with
  | none =>
    have hFewer : ∀ u ∈ stillOpen file older.length,
        u ∈ (analyse file).losers :=
      fun u hMem => (List.mem_filter.mp hMem).1
    have hNone := restoreImage_mono hFewer hAll
    rw [hOpen] at hNone
    cases hNone
  | some kept =>
    rw [hAll] at hPage
    exact hPage.symm

end Safe

/-
  Recovery may be interrupted anywhere and run again, on
  every page map, exactly when the file ends in something
  unreadable, so that no record of the first run is read
  again, or when on every page the oldest image of any loser
  belongs to the loser whose ABORT comes last.
-/
theorem restartSafe_iff
    (lsnOf : ι → Nat)
    (file : List (LogRecord ι))
    (baseLsn : Nat)
    (pages : PageMap ι)
    (hImages : ImagesStamped lsnOf
      (WriteAheadLog.scan baseLsn 0 file).1) :
    RestartSafe lsnOf file baseLsn pages ↔
      (WriteAheadLog.scan baseLsn 0 file).2 = true ∨
        OldestLoserLast
          (WriteAheadLog.scan baseLsn 0 file).1 := by
  have hFirst := recovered_eq lsnOf
    (WriteAheadLog.openFile file baseLsn) pages rfl
  have hSecond : ∀ done durable pages',
      (recovered lsnOf (crashLog file baseLsn done durable)
        pages').pages =
      recoveredPages lsnOf
        (WriteAheadLog.scan baseLsn 0 (file ++
          (loggedBy done).take durable)).1 pages' :=
    fun done durable pages' =>
      (recovered_eq lsnOf (crashLog file baseLsn done
        durable) pages' rfl).1
  have hSafe : RestartSafe lsnOf file baseLsn pages ↔
      ∀ stopped durable,
        recoveredPages lsnOf
            (WriteAheadLog.scan baseLsn 0 (file ++
              (loggedBy ((recoveryActions lsnOf
                (WriteAheadLog.openFile file baseLsn)
                (WriteAheadLog.scan baseLsn 0 file).1
                pages).take stopped)).take durable)).1
            (pagesAfter pages ((recoveryActions lsnOf
              (WriteAheadLog.openFile file baseLsn)
              (WriteAheadLog.scan baseLsn 0 file).1
              pages).take stopped)) =
          recoveredPages lsnOf
            (WriteAheadLog.scan baseLsn 0 file).1
            pages := by
    unfold RestartSafe
    simp only [hFirst.1, hFirst.2, hSecond]
    rfl
  rw [hSafe]
  cases hTorn : (WriteAheadLog.scan baseLsn 0 file).2 with
  | true =>
    refine ⟨fun _ => .inl rfl, fun _ => ?_⟩
    intro stopped durable
    rw [scan_append_of_truncated hTorn]
    exact restart_torn hImages _ pages stopped durable
  | false =>
    rw [scan_eq_file hTorn] at hImages ⊢
    constructor
    · intro hRestarts
      exact .inr
        (oldestLoserLast_of_safe hTorn hImages hRestarts)
    · rintro (hFalse | hOldest)
      · cases hFalse
      · intro stopped durable
        exact restart_whole hTorn hImages hOldest pages
          stopped durable

/- Two losers that wrote page 1 one after the other. -/
def sharedPageLog (first second : Nat) :
    List (LogRecord Bytes) :=
  [ { lsn := 10, prevLsn := 0, transactionId := first,
      recordType := .update, pageId := 1,
      beforeImage := [1, 7], afterImage := [10, 8] },
    { lsn := 58, prevLsn := 0, transactionId := second,
      recordType := .update, pageId := 1,
      beforeImage := [10, 8], afterImage := [58, 9] } ]

def sharedPage : PageMap Bytes := fun pageId =>
  if pageId = 1 then some [1, 7] else none

theorem sharedPageLog_stamped (first second : Nat) :
    ImagesStamped stampByte
      (WriteAheadLog.scan 10 0
        (sharedPageLog first second)).1 := by
  have hScan :
      (WriteAheadLog.scan 10 0
        (sharedPageLog first second)).1 =
        sharedPageLog first second := by
    rfl
  rw [hScan]
  constructor
  · intro record hMem hUpdate
    rcases List.mem_pair.mp hMem with rfl | rfl
    · simp [stampByte]
    · simp [stampByte]
  · intro record hMem hUndo
    rcases List.mem_pair.mp hMem with rfl | rfl
    · simp [stampByte]
    · simp [stampByte]

/- The later writer's ABORT also comes first: safe. -/
theorem restartSafe_iff_later_first :
    RestartSafe stampByte (sharedPageLog 2 1) 10
      sharedPage := by
  apply (restartSafe_iff stampByte (sharedPageLog 2 1) 10
    sharedPage (sharedPageLog_stamped 2 1)).mpr
  right
  intro t hLoser pageId image hImage
  have hLosers :
      (analyse (WriteAheadLog.scan 10 0
        (sharedPageLog 2 1)).1).losers = [1, 2] := by
    decide
  rw [hLosers] at hLoser hImage ⊢
  rw [← hImage]
  by_cases hPage : pageId = 1
  · subst hPage
    rcases List.mem_pair.mp hLoser with rfl | rfl
    · rfl
    · rfl
  · have hOther : ∀ losers,
        restoreImage losers (WriteAheadLog.scan 10 0
          (sharedPageLog 2 1)).1 pageId = none := by
      intro losers
      apply restoreImage_of_unnamed
      intro record hMem
      rcases List.mem_pair.mp hMem with rfl | rfl
      · exact Ne.symm hPage
      · exact Ne.symm hPage
    rw [hOther, hOther]

/-
  The earlier writer's ABORT comes first. A crash after it
  leaves the later writer a loser, and its before-image puts
  the earlier writer's update back.
-/
theorem not_restartSafe_earlier_first :
    ¬ RestartSafe stampByte (sharedPageLog 1 2) 10
      sharedPage := by
  intro hSafe
  have hPage := congrFun (hSafe 7 3) 1
  revert hPage
  decide +kernel

end Wal

end ChenDB
