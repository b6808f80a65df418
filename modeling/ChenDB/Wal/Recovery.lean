import Mathlib.Data.List.Sort
import ChenDB.Wal.Log

/-
  ARIES recovery: analysis, redo, undo, over the callbacks
  its caller supplies. `RecoveryEnv` collects the log's
  operations with `read_page_lsn` and `apply_page`; the
  algorithm never learns what a page is or where it lives.
-/

--
-- The Report
--

namespace ChenDB

namespace Wal

structure RecoveryReport where
  /- False when the log held no whole record. -/
  ran : Bool
  recordsScanned : Nat
  truncatedTail : Bool
  winners : List Nat
  losers : List Nat
  pagesRedone : Nat
  pagesSkipped : Nat
  pagesUndone : Nat
  highestLsn : Nat
  highestXid : Nat
deriving DecidableEq, Repr

/- Empty on a clean open. -/
def RecoveryReport.initial : RecoveryReport where
  ran := false
  recordsScanned := 0
  truncatedTail := false
  winners := []
  losers := []
  pagesRedone := 0
  pagesSkipped := 0
  pagesUndone := 0
  highestLsn := 0
  highestXid := 0

/- The log and page callbacks recovery runs against. -/
structure RecoveryEnv (m : Type → Type) (ι : Type) where
  readAll : m (List (LogRecord ι) × Bool)
  append :
    RecordType → Nat → PageId → ι → m Unit
  abort : Nat → m Unit
  flush : m Unit
  /- The LSN of a page, or -1 where there is none. -/
  readPageLsn : PageId → m Int
  applyPage : PageId → ι → m Unit

--
-- Analysis
--

section Analysis

variable {ι : Type} [ByteImage ι]

/- What the scan has collected: transactions seen and
   finished, with the highest id and LSN. -/
structure Analysis where
  seen : List Nat
  finished : List Nat
  highestXid : Nat
  highestLsn : Nat
deriving DecidableEq, Repr

/- One record of the scan. -/
def analyseRecord
    (found : Analysis)
    (record : LogRecord ι) : Analysis where
  seen :=
    if record.transactionId ≠ noTransaction then
      found.seen.insert record.transactionId
    else found.seen
  finished :=
    if record.recordType = .commit ∨
        record.recordType = .abort then
      found.finished.insert record.transactionId
    else found.finished
  highestXid :=
    if record.transactionId ≠ noTransaction then
      max found.highestXid record.transactionId
    else found.highestXid
  highestLsn := max found.highestLsn record.endLsn

/- Split the transactions into finished and interrupted. -/
def analyse (records : List (LogRecord ι)) : Analysis :=
  records.foldl analyseRecord
    { seen := [], finished := [],
      highestXid := 0, highestLsn := 0 }

/- `seen - finished`. -/
def Analysis.losers (found : Analysis) : List Nat :=
  found.seen.filter (fun t => t ∉ found.finished)

/- `sorted` of a set of transaction ids. -/
def sortedIds (ids : List Nat) : List Nat :=
  ids.insertionSort (· ≤ ·)

end Analysis

--
-- Redo and Undo
--

section Passes

variable {m : Type → Type} [Monad m] {ι : Type} [ByteImage ι]

/- Replay every update whose page has not already got it. -/
def redo
    (env : RecoveryEnv m ι) :
    List (LogRecord ι) → RecoveryReport → m RecoveryReport
  | [], report => pure report
  | record :: rest, report =>
    if record.recordType ≠ .update then
      redo env rest report
    else do
      let pageLsn ← env.readPageLsn record.pageId
      if pageLsn ≥ record.lsn then
        redo env rest { report with
          pagesSkipped := report.pagesSkipped + 1 }
      else
        env.applyPage record.pageId record.afterImage
        redo env rest { report with
          pagesRedone := report.pagesRedone + 1 }

/- The records whose before-image undo puts back. -/
def needsUndo
    (losers : List Nat)
    (record : LogRecord ι) : Bool :=
  record.recordType = .update ∧
    record.transactionId ∈ losers ∧ record.hasUndo

/-
  Walk the records newest first, logging each restore before
  applying it.
-/
def undoRecords
    (env : RecoveryEnv m ι)
    (losers : List Nat) :
    List (LogRecord ι) → RecoveryReport → m RecoveryReport
  | [], report => pure report
  | record :: rest, report =>
    if needsUndo losers record then do
      env.append .update record.transactionId
        record.pageId record.beforeImage
      env.applyPage record.pageId record.beforeImage
      undoRecords env losers rest { report with
        pagesUndone := report.pagesUndone + 1 }
    else
      undoRecords env losers rest report

/- One ABORT record for each interrupted transaction. -/
def abortAll
    (env : RecoveryEnv m ι) : List Nat → m Unit
  | [] => pure ()
  | transactionId :: rest => do
      env.abort transactionId
      abortAll env rest

def undo
    (env : RecoveryEnv m ι)
    (records : List (LogRecord ι))
    (losers : List Nat)
    (report : RecoveryReport) :
    m RecoveryReport :=
  if losers = [] then
    pure report
  else do
    let report ←
      undoRecords env losers records.reverse report
    abortAll env (sortedIds losers)
    env.flush
    return report

--
-- Recovery
--

/- Bring the database file up to date with the log. -/
def recover (env : RecoveryEnv m ι) :
    m RecoveryReport := do
  let (records, truncated) ← env.readAll
  let report : RecoveryReport :=
    { RecoveryReport.initial with
      truncatedTail := truncated
      recordsScanned := records.length }
  if records = [] then
    return report
  else
    let found := analyse records
    let report : RecoveryReport :=
      { report with
        ran := true
        highestXid := found.highestXid
        highestLsn := found.highestLsn }
    let report ← redo env records report
    let report ← undo env records found.losers report
    return { report with
      winners := sortedIds found.finished
      losers := sortedIds found.losers }

end Passes

--
-- What Recovery Keeps
--

section Keeps

open Library.StateExcept

variable {ε σ : Type} {ι : Type} [ByteImage ι]

/- Every callback keeps a property of the state, called
   with what these records carry. -/
structure RecoveryEnv.Keeps
    (env : RecoveryEnv (EStateM ε σ) ι)
    (records : List (LogRecord ι))
    (I : σ → Prop) : Prop where
  append : ∀ record ∈ records,
    record.recordType = .update → record.hasUndo = true →
    Triple I
      (env.append .update record.transactionId
        record.pageId record.beforeImage)
      (fun _ => I) (fun _ => I)
  abort : ∀ transactionId,
    Triple I (env.abort transactionId) (fun _ => I)
      (fun _ => I)
  flush : Triple I env.flush (fun _ => I) (fun _ => I)
  readPageLsn : ∀ pageId,
    Triple I (env.readPageLsn pageId) (fun _ => I)
      (fun _ => I)
  redo : ∀ record ∈ records, record.recordType = .update →
    Triple I
      (env.applyPage record.pageId record.afterImage)
      (fun _ => I) (fun _ => I)
  undo : ∀ record ∈ records,
    record.recordType = .update → record.hasUndo = true →
    Triple I
      (env.applyPage record.pageId record.beforeImage)
      (fun _ => I) (fun _ => I)

/- The pass counts change; what analysis found does not. -/
def RecoveryReport.SameFindings
    (report report' : RecoveryReport) : Prop :=
  report'.ran = report.ran ∧
    report'.highestLsn = report.highestLsn ∧
    report'.highestXid = report.highestXid

variable {env : RecoveryEnv (EStateM ε σ) ι}
variable {all : List (LogRecord ι)} {I : σ → Prop}

theorem redo_keeps
    (hKeeps : env.Keeps all I)
    (records : List (LogRecord ι))
    (hRecords : ∀ record ∈ records, record ∈ all)
    (report : RecoveryReport) :
    Triple I (redo env records report)
      (fun final state =>
        I state ∧ report.SameFindings final)
      (fun _ => I) := by
  induction records generalizing report with
  | nil =>
    apply Triple.pure
    intro state hState
    exact ⟨hState, rfl, rfl, rfl⟩
  | cons record records ih =>
    have hRest := ih fun later hLater =>
      hRecords later (.tail _ hLater)
    unfold redo
    apply Triple.ite
    · intro _
      exact hRest report
    · intro hUpdate
      apply (hKeeps.readPageLsn record.pageId).bind
      intro pageLsn
      apply Triple.ite
      · intro _
        exact hRest _
      · intro _
        apply (hKeeps.redo record
          (hRecords record (by simp))
          (not_not.mp hUpdate)).bind
        intro _
        exact hRest _

theorem undoRecords_keeps
    (hKeeps : env.Keeps all I)
    (losers : List Nat)
    (records : List (LogRecord ι))
    (hRecords : ∀ record ∈ records, record ∈ all)
    (report : RecoveryReport) :
    Triple I (undoRecords env losers records report)
      (fun final state =>
        I state ∧ report.SameFindings final)
      (fun _ => I) := by
  induction records generalizing report with
  | nil =>
    apply Triple.pure
    intro state hState
    exact ⟨hState, rfl, rfl, rfl⟩
  | cons record records ih =>
    have hRest := ih fun later hLater =>
      hRecords later (.tail _ hLater)
    unfold undoRecords
    split
    · rename_i hNeeds
      have hMem := hRecords record (by simp)
      simp only [needsUndo, decide_eq_true_eq] at hNeeds
      apply (hKeeps.append record hMem hNeeds.1
        hNeeds.2.2).bind
      intro _
      apply (hKeeps.undo record hMem hNeeds.1
        hNeeds.2.2).bind
      intro _
      exact hRest _
    · exact hRest report

theorem abortAll_keeps
    (hKeeps : env.Keeps all I)
    (ids : List Nat) :
    Triple I (abortAll env ids) (fun _ => I)
      (fun _ => I) := by
  induction ids with
  | nil =>
    apply Triple.pure
    intro state hState
    exact hState
  | cons transactionId ids ih =>
    unfold abortAll
    apply (hKeeps.abort transactionId).bind
    intro _
    exact ih

variable {records : List (LogRecord ι)}

theorem undo_keeps
    (hKeeps : env.Keeps records I)
    (losers : List Nat)
    (report : RecoveryReport) :
    Triple I (undo env records losers report)
      (fun final state =>
        I state ∧ report.SameFindings final)
      (fun _ => I) := by
  unfold undo
  apply Triple.ite
  · intro _
    apply Triple.pure
    intro state hState
    exact ⟨hState, rfl, rfl, rfl⟩
  · intro _
    apply (undoRecords_keeps hKeeps losers records.reverse
      (fun _ h => List.mem_reverse.mp h) report).bind
    intro counted
    apply Triple.assume
    intro hSame
    apply (abortAll_keeps hKeeps (sortedIds losers)).bind
    intro _
    apply hKeeps.flush.bind
    intro _
    apply Triple.pure
    intro state hState
    exact ⟨hState, hSame⟩

theorem passes_keep
    (hKeeps : env.Keeps records I)
    (report : RecoveryReport) :
    Triple I
      (do
        let report ← redo env records report
        let report ← undo env records
          (analyse records).losers report
        return { report with
          winners := sortedIds (analyse records).finished
          losers := sortedIds (analyse records).losers
        } : EStateM ε σ RecoveryReport)
      (fun final state =>
        I state ∧ report.SameFindings final)
      (fun _ => I) := by
  apply (redo_keeps hKeeps records (fun _ h => h)
    report).bind
  intro redone
  apply Triple.assume
  intro hRedone
  apply (undo_keeps hKeeps _ redone).bind
  intro undone
  apply Triple.assume
  intro hUndone
  apply Triple.pure
  intro final hFinal
  refine ⟨hFinal, ?_, ?_, ?_⟩
  · exact hUndone.1.trans hRedone.1
  · exact hUndone.2.1.trans hRedone.2.1
  · exact hUndone.2.2.trans hRedone.2.2

variable {state : σ} {torn : Bool}

/- With no whole record in the log nothing is touched. -/
theorem recover_of_empty
    (hRead : env.readAll.run state = .ok ([], torn) state) :
    ∃ report,
      (recover env).run state = .ok report state ∧
        report.ran = false ∧
        report.highestXid = 0 := by
  unfold recover
  rw [EStateM.run_bind, hRead]
  exact ⟨_, rfl, rfl, rfl⟩

/- Otherwise it runs, and keeps what its callbacks keep. -/
theorem recover_of_records
    (hKeeps : env.Keeps records I)
    (hRead :
      env.readAll.run state = .ok (records, torn) state)
    (hRecords : records ≠ [])
    (hState : I state) :
    Triple (fun start => start = state) (recover env)
      (fun report final =>
        I final ∧ report.ran = true ∧
          report.highestLsn = (analyse records).highestLsn ∧
          report.highestXid = (analyse records).highestXid)
      (fun _ => I) := by
  intro start hStart
  subst hStart
  unfold recover
  rw [EStateM.run_bind, hRead]
  simp only [if_neg hRecords]
  exact passes_keep hKeeps
    { RecoveryReport.initial with
      truncatedTail := torn
      recordsScanned := records.length
      ran := true
      highestXid := (analyse records).highestXid
      highestLsn := (analyse records).highestLsn }
    start hState

end Keeps

end Wal

end ChenDB
