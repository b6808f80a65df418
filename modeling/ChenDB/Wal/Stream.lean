import Mathlib.Data.List.Basic
import ChenDB.Wal.Log

/-
  The log as a stream: what each operation does to the
  records, and that every record sits where its LSN says.
-/

--
-- Contiguous Records
--

namespace ChenDB

namespace Wal

variable {ι : Type} [ByteImage ι]
variable {start : Nat} {record : LogRecord ι}

@[simp] theorem totalSize_nil :
    totalSize ([] : List (LogRecord ι)) = 0 := rfl

@[simp] theorem totalSize_cons
    (record : LogRecord ι)
    (records : List (LogRecord ι)) :
    totalSize (record :: records) =
      record.size + totalSize records := by
  simp [totalSize]

@[simp] theorem totalSize_append
    (older newer : List (LogRecord ι)) :
    totalSize (older ++ newer) =
      totalSize older + totalSize newer := by
  simp [totalSize]

/- Each record starts where the one before it ends. -/
def Contiguous : Nat → List (LogRecord ι) → Prop
  | _, [] => True
  | start, record :: rest =>
    record.lsn = start ∧ Contiguous (start + record.size) rest

@[simp] theorem contiguous_nil (start : Nat) :
    Contiguous start ([] : List (LogRecord ι)) :=
  trivial

theorem contiguous_append
    (start : Nat)
    (older newer : List (LogRecord ι)) :
    Contiguous start (older ++ newer) ↔
      Contiguous start older ∧
        Contiguous (start + totalSize older) newer := by
  induction older generalizing start with
  | nil => simp
  | cons record older ih =>
    simp [Contiguous, ih, Nat.add_assoc, and_assoc]

theorem contiguous_singleton :
    Contiguous start [record] ↔ record.lsn = start := by
  simp [Contiguous]

variable {records : List (LogRecord ι)}

/- A record of a contiguous run lies inside the run. -/
theorem Contiguous.mem_bounds
    (hRun : Contiguous start records)
    (hMem : record ∈ records) :
    start ≤ record.lsn ∧
      record.endLsn ≤ start + totalSize records := by
  induction records generalizing start with
  | nil => cases hMem
  | cons first records ih =>
    rcases hRun with ⟨hFirst, hRest⟩
    rcases List.mem_cons.mp hMem with rfl | hLater
    · simp only [LogRecord.endLsn, totalSize_cons]
      omega
    · have hBounds := ih hRest hLater
      simp only [totalSize_cons]
      omega

theorem Contiguous.lsn_lt
    (hRun : Contiguous start records)
    (hMem : record ∈ records) :
    record.lsn < start + totalSize records := by
  have hEnd := (hRun.mem_bounds hMem).2
  have hSize := record.size_pos
  unfold LogRecord.endLsn at hEnd
  omega

/- LSNs increase along a contiguous run. -/
theorem Contiguous.increasing
    (hRun : Contiguous start records) :
    records.Pairwise (fun a b => a.lsn < b.lsn) := by
  induction records generalizing start with
  | nil => exact List.Pairwise.nil
  | cons record records ih =>
    rcases hRun with ⟨hFirst, hRest⟩
    refine List.Pairwise.cons ?_ (ih hRest)
    intro later hLater
    have hStart := (hRest.mem_bounds hLater).1
    have hSize := record.size_pos
    omega

variable {base offset : Nat}

/- A contiguous file is read whole. -/
theorem scan_of_contiguous
    (hRun : Contiguous (base + offset) records) :
    WriteAheadLog.scan base offset records =
      (records, false) := by
  induction records generalizing offset with
  | nil => rfl
  | cons record records ih =>
    rcases hRun with ⟨hFirst, hRest⟩
    rw [Nat.add_assoc] at hRest
    simp [WriteAheadLog.scan, hFirst, ih hRest]

/- Whatever the file, the records read are contiguous. -/
theorem scan_contiguous
    (base offset : Nat)
    (file : List (LogRecord ι)) :
    Contiguous (base + offset)
      (WriteAheadLog.scan base offset file).1 := by
  induction file generalizing offset with
  | nil => trivial
  | cons record rest ih =>
    unfold WriteAheadLog.scan
    split
    · rename_i hPlaced
      refine ⟨hPlaced, ?_⟩
      rw [Nat.add_assoc]
      exact ih (offset + record.size)
    · trivial

variable {file : List (LogRecord ι)}

/- A scan that met nothing unreadable read the file. -/
theorem scan_eq_file
    (hWhole :
      (WriteAheadLog.scan base offset file).2 = false) :
    (WriteAheadLog.scan base offset file).1 = file := by
  induction file generalizing offset with
  | nil => rfl
  | cons record rest ih =>
    unfold WriteAheadLog.scan at hWhole ⊢
    split at hWhole
    · rename_i hPlaced
      rw [if_pos hPlaced]
      exact congrArg (record :: ·) (ih hWhole)
    · cases hWhole

/- What follows an unreadable place is never read. -/
theorem scan_append_of_truncated
    (hTorn :
      (WriteAheadLog.scan base offset file).2 = true)
    (later : List (LogRecord ι)) :
    WriteAheadLog.scan base offset (file ++ later) =
      WriteAheadLog.scan base offset file := by
  induction file generalizing offset with
  | nil => cases hTorn
  | cons record rest ih =>
    unfold WriteAheadLog.scan at hTorn
    rw [List.cons_append]
    unfold WriteAheadLog.scan
    split at hTorn
    · rename_i hPlaced
      rw [if_pos hPlaced, if_pos hPlaced, ih hTorn]
    · rename_i hStray
      rw [if_neg hStray, if_neg hStray]

/-
  A file whose first record does not sit at the base is read
  as empty.
-/
theorem scan_of_stale
    (rest : List (LogRecord ι))
    (hStale : record.lsn ≠ base) :
    WriteAheadLog.scan base 0 (record :: rest) =
      ([], true) := by
  simp [WriteAheadLog.scan, hStale]

--
-- What Each Operation Does
--

namespace WriteAheadLog

/- The record an append would stage. -/
def nextRecord
    (log : WriteAheadLog ι)
    (recordType : RecordType)
    (transactionId : Nat)
    (pageId : PageId)
    (beforeImage afterImage : ι) : LogRecord ι where
  lsn := log.nextLsn
  prevLsn := (log.lastLsnOf transactionId).getD 0
  transactionId := transactionId
  recordType := recordType
  pageId := pageId
  beforeImage := beforeImage
  afterImage := afterImage

/- The log after staging one record. -/
def stage
    (log : WriteAheadLog ι)
    (record : LogRecord ι) : WriteAheadLog ι :=
  { log with
    buffer := log.buffer ++ [record]
    bufferBytes := log.bufferBytes + record.size
    bufferTail := some record
    lastLsnOf :=
      if record.transactionId ≠ noTransaction then
        fun t => if t = record.transactionId then
          some record.lsn else log.lastLsnOf t
      else log.lastLsnOf }

/- The log after the tail gave way to a newer record. -/
def replaceTail
    (log : WriteAheadLog ι)
    (record : LogRecord ι) : WriteAheadLog ι :=
  { log with
    buffer := log.buffer.dropLast ++ [record]
    bufferBytes :=
      log.bufferBytes + record.size -
        (log.buffer.getLastD record).size
    bufferTail := some record }

/- The log after its staged records reached the file. -/
def flushed
    (log : WriteAheadLog ι) : WriteAheadLog ι :=
  if log.buffer = [] then log
  else { log with
    file := log.file ++ log.buffer
    buffer := []
    bufferBytes := 0
    bufferTail := none
    flushedLsn := log.flushedLsn + totalSize log.buffer }

/- The log without a transaction's backward chain. -/
def forget
    (log : WriteAheadLog ι)
    (transactionId : Nat) : WriteAheadLog ι :=
  { log with
    lastLsnOf := fun t =>
      if t = transactionId then none
      else log.lastLsnOf t }

/- The log once its file was cut off. -/
def truncated
    (log : WriteAheadLog ι) : WriteAheadLog ι :=
  { log with
    file := []
    bufferTail := none
    baseLsn := log.flushedLsn
    lastLsnOf := fun _ => none }

/- The log emptied and restarted at an LSN. -/
def resetAt
    (log : WriteAheadLog ι)
    (baseLsn : Nat) : WriteAheadLog ι :=
  { log with
    buffer := []
    bufferBytes := 0
    bufferTail := none
    file := []
    baseLsn := baseLsn
    flushedLsn := baseLsn
    lastLsnOf := fun _ => none }

/- The record that takes the place of the staged tail. -/
def coalesced
    (tail : LogRecord ι)
    (transactionId : Nat)
    (pageId : PageId)
    (after : ι) : LogRecord ι where
  lsn := tail.lsn
  prevLsn := tail.prevLsn
  transactionId := transactionId
  recordType := .update
  pageId := pageId
  beforeImage := tail.beforeImage
  afterImage := after

/- The record a page change is logged as. -/
def updateRecord
    (log : WriteAheadLog ι)
    (transactionId : Nat)
    (pageId : PageId)
    (before : ι)
    (afterFor : Nat → ι) : LogRecord ι :=
  match log.superseded transactionId pageId with
  | none =>
    log.nextRecord .update transactionId pageId before
      (afterFor log.nextLsn)
  | some tail =>
    coalesced tail transactionId pageId
      (afterFor tail.lsn)

/- The log after a page change. -/
def updated
    (log : WriteAheadLog ι)
    (transactionId : Nat)
    (pageId : PageId)
    (before : ι)
    (afterFor : Nat → ι) : WriteAheadLog ι :=
  match log.superseded transactionId pageId with
  | none =>
    log.stage (log.updateRecord transactionId pageId
      before afterFor)
  | some _ =>
    log.replaceTail (log.updateRecord transactionId pageId
      before afterFor)

/- The record that ends a transaction. -/
def endRecord
    (log : WriteAheadLog ι)
    (recordType : RecordType)
    (transactionId : Nat) : LogRecord ι :=
  log.nextRecord recordType transactionId 0
    ByteImage.empty ByteImage.empty

variable {log : WriteAheadLog ι}

omit [ByteImage ι] in
theorem ensureOpen_run
    (hOpen : log.closed = false) :
    ensureOpen.run log = .ok () log := by
  simp [ensureOpen, hOpen]

theorem append_run
    (hOpen : log.closed = false)
    (recordType : RecordType)
    (transactionId : Nat)
    (pageId : PageId)
    (before after : ι) :
    (append recordType transactionId pageId before
        after).run log =
      .ok (log.nextRecord recordType transactionId pageId
          before after)
        (log.stage (log.nextRecord recordType
          transactionId pageId before after)) := by
  unfold append
  rw [EStateM.run_bind, ensureOpen_run hOpen]
  rfl

theorem flush_run
    (hOpen : log.closed = false) :
    flush.run log = .ok () log.flushed := by
  unfold flush
  rw [EStateM.run_bind, ensureOpen_run hOpen]
  by_cases hEmpty : log.buffer = []
  · simp [hEmpty, flushed]
  · simp [hEmpty, flushed]

theorem flushThrough_run
    (hOpen : log.closed = false)
    (lsn : Nat) :
    (flushThrough lsn).run log =
      .ok () (if lsn > log.flushedLsn then log.flushed
        else log) := by
  unfold flushThrough
  by_cases hAbove : lsn > log.flushedLsn
  · simp [hAbove, flush_run hOpen]
  · simp [hAbove]

theorem abort_run
    (hOpen : log.closed = false)
    (transactionId : Nat) :
    (abort transactionId).run log =
      .ok (log.endRecord .abort transactionId)
        ((log.stage
          (log.endRecord .abort transactionId)).forget
            transactionId) := by
  unfold abort
  rw [EStateM.run_bind, append_run hOpen]
  rfl

@[simp] theorem stage_closed (record : LogRecord ι) :
    (log.stage record).closed = log.closed := rfl

theorem commit_run
    (hOpen : log.closed = false)
    (transactionId : Nat) :
    (commit transactionId).run log =
      .ok (log.endRecord .commit transactionId)
        ((log.stage (log.endRecord .commit
          transactionId)).flushed.forget
            transactionId) := by
  unfold commit
  rw [EStateM.run_bind, append_run hOpen]
  simp only [EStateM.run_bind]
  rw [flush_run (by exact hOpen)]
  rfl

theorem appendCheckpoint_run
    (hOpen : log.closed = false) :
    appendCheckpoint.run log =
      .ok (log.endRecord .checkpoint noTransaction)
        (log.stage (log.endRecord .checkpoint
          noTransaction)).flushed := by
  unfold appendCheckpoint
  rw [EStateM.run_bind, append_run hOpen]
  simp only [EStateM.run_bind]
  rw [flush_run (by exact hOpen)]
  rfl

omit [ByteImage ι] in
theorem truncate_run :
    truncate.run log = .ok () log.truncated := rfl

omit [ByteImage ι] in
theorem reset_run
    (hOpen : log.closed = false)
    (baseLsn : Nat) :
    (reset baseLsn).run log =
      .ok () (log.resetAt baseLsn) := by
  unfold reset
  rw [EStateM.run_bind, ensureOpen_run hOpen]
  rfl

theorem close_run
    (hOpen : log.closed = false) :
    close.run log =
      .ok () { log.flushed with closed := true } := by
  unfold close
  rw [EStateM.run_bind, EStateM.run_get]
  simp only [hOpen, Bool.false_eq_true, ↓reduceIte]
  simp [flush_run hOpen]

theorem readAll_run
    (hOpen : log.closed = false) :
    readAll.run log =
      .ok (scan log.baseLsn 0 log.file) log := by
  unfold readAll
  rw [EStateM.run_bind, ensureOpen_run hOpen]
  rfl

--
-- The Staged Records
--

/-
  What the log keeps about its staged records: their bytes
  are counted, they follow the flushed ones, and the tail is
  the last of them.
-/
structure Staged (log : WriteAheadLog ι) : Prop where
  bytes : log.bufferBytes = totalSize log.buffer
  run : Contiguous log.flushedLsn log.buffer
  tail : ∀ record ∈ log.bufferTail,
    log.buffer.getLast? = some record

theorem openFile_staged
    (file : List (LogRecord ι))
    (baseLsn : Nat) :
    (openFile file baseLsn).Staged where
  bytes := rfl
  run := trivial
  tail := by simp [openFile]

theorem flushed_buffer (log : WriteAheadLog ι) :
    log.flushed.buffer = [] := by
  unfold flushed
  split
  · assumption
  · rfl

theorem flushed_file (log : WriteAheadLog ι) :
    log.flushed.file = log.file ++ log.buffer := by
  unfold flushed
  split
  · rename_i hEmpty
    simp [hEmpty]
  · rfl

theorem flushed_flushedLsn (log : WriteAheadLog ι) :
    log.flushed.flushedLsn =
      log.flushedLsn + totalSize log.buffer := by
  unfold flushed
  split
  · rename_i hEmpty
    simp [hEmpty]
  · rfl

@[simp] theorem flushed_baseLsn (log : WriteAheadLog ι) :
    log.flushed.baseLsn = log.baseLsn := by
  unfold flushed
  split <;> rfl

@[simp] theorem flushed_closed (log : WriteAheadLog ι) :
    log.flushed.closed = log.closed := by
  unfold flushed
  split <;> rfl

namespace Staged

theorem nextLsn_eq (hStaged : log.Staged) :
    log.nextLsn =
      log.flushedLsn + totalSize log.buffer := by
  unfold nextLsn
  rw [hStaged.bytes]

theorem stage
    (hStaged : log.Staged)
    (hLsn : record.lsn = log.nextLsn) :
    (log.stage record).Staged where
  bytes := by
    simp [WriteAheadLog.stage, hStaged.bytes]
  run := by
    refine (contiguous_append _ _ _).mpr
      ⟨hStaged.run, contiguous_singleton.mpr ?_⟩
    exact hLsn.trans hStaged.nextLsn_eq
  tail := by
    intro last hLast
    simpa [WriteAheadLog.stage] using hLast

variable {tail : LogRecord ι}

/- The staged records, when the tail is still replaceable. -/
theorem buffer_eq
    (hStaged : log.Staged)
    (hTail : tail ∈ log.bufferTail) :
    log.buffer = log.buffer.dropLast ++ [tail] := by
  have hLast := hStaged.tail tail hTail
  exact (List.dropLast_append_getLast? tail hLast).symm

theorem replaceTail
    (hStaged : log.Staged)
    (hTail : tail ∈ log.bufferTail)
    (hLsn : record.lsn = tail.lsn) :
    (log.replaceTail record).Staged where
  bytes := by
    have hBuffer := hStaged.buffer_eq hTail
    have hLast := hStaged.tail tail hTail
    have hBytes := hStaged.bytes
    have hTotal :
        totalSize log.buffer =
          totalSize log.buffer.dropLast + tail.size := by
      calc totalSize log.buffer
          = totalSize (log.buffer.dropLast ++ [tail]) :=
            congrArg totalSize hBuffer
        _ = totalSize log.buffer.dropLast + tail.size := by
            simp
    simp only [WriteAheadLog.replaceTail,
      List.getLastD_eq_getLast?, hLast, Option.getD_some,
      totalSize_append, totalSize_cons, totalSize_nil]
    omega
  run := by
    have hRun := hStaged.run
    rw [hStaged.buffer_eq hTail, contiguous_append,
      contiguous_singleton] at hRun
    refine (contiguous_append _ _ _).mpr
      ⟨hRun.1, contiguous_singleton.mpr ?_⟩
    exact hLsn.trans hRun.2
  tail := by
    intro last hLast
    simpa [WriteAheadLog.replaceTail] using hLast

theorem flushed (hStaged : log.Staged) :
    log.flushed.Staged := by
  unfold WriteAheadLog.flushed
  split
  · exact hStaged
  · exact ⟨rfl, trivial, by simp⟩

theorem forget
    (hStaged : log.Staged)
    (transactionId : Nat) :
    (log.forget transactionId).Staged :=
  ⟨hStaged.bytes, hStaged.run, hStaged.tail⟩

theorem truncated (hStaged : log.Staged) :
    log.truncated.Staged where
  bytes := hStaged.bytes
  run := hStaged.run
  tail := by simp [WriteAheadLog.truncated]

theorem resetAt (baseLsn : Nat) :
    (log.resetAt baseLsn).Staged where
  bytes := rfl
  run := trivial
  tail := by simp [WriteAheadLog.resetAt]

/- A superseded record is the last staged one. -/
theorem superseded
    (hStaged : log.Staged)
    {transactionId : Nat}
    {pageId : PageId}
    (hTail :
      log.superseded transactionId pageId = some tail) :
    tail ∈ log.bufferTail ∧
      log.buffer.getLast? = some tail ∧
      tail.recordType = .update ∧ tail.pageId = pageId ∧
      tail.transactionId = transactionId := by
  unfold WriteAheadLog.superseded at hTail
  rw [Option.filter_eq_some_iff] at hTail
  rcases hTail with ⟨hMem, hSame⟩
  refine ⟨hMem, hStaged.tail tail hMem, ?_⟩
  simpa using hSame

theorem updated
    (hStaged : log.Staged)
    (transactionId : Nat)
    (pageId : PageId)
    (before : ι)
    (afterFor : Nat → ι) :
    (log.updated transactionId pageId before
      afterFor).Staged := by
  unfold WriteAheadLog.updated updateRecord
  cases hTail : log.superseded transactionId pageId with
  | none => exact hStaged.stage rfl
  | some tail =>
    exact hStaged.replaceTail
      (hStaged.superseded hTail).1 rfl

end Staged

theorem appendUpdate_run
    (hOpen : log.closed = false)
    (hStaged : log.Staged)
    (transactionId : Nat)
    (pageId : PageId)
    (before : ι)
    (afterFor : Nat → ι) :
    (appendUpdate transactionId pageId before
        afterFor).run log =
      .ok (log.updateRecord transactionId pageId before
          afterFor)
        (log.updated transactionId pageId before
          afterFor) := by
  unfold appendUpdate updated updateRecord
  rw [EStateM.run_bind, ensureOpen_run hOpen]
  cases hTail : log.superseded transactionId pageId with
  | none => simp [hTail, append_run hOpen]
  | some tail =>
    have hLast := (hStaged.superseded hTail).2.1
    simp [hTail, hLast, coalesced, WriteAheadLog.replaceTail,
      List.getLastD_eq_getLast?]

section Updated

variable (transactionId : Nat) (pageId : PageId)
variable (before : ι) (afterFor : Nat → ι)

@[simp] theorem updated_closed :
    (log.updated transactionId pageId before
      afterFor).closed = log.closed := by
  unfold updated
  split <;> rfl

@[simp] theorem updated_baseLsn :
    (log.updated transactionId pageId before
      afterFor).baseLsn = log.baseLsn := by
  unfold updated
  split <;> rfl

@[simp] theorem updated_file :
    (log.updated transactionId pageId before
      afterFor).file = log.file := by
  unfold updated
  split <;> rfl

@[simp] theorem updated_flushedLsn :
    (log.updated transactionId pageId before
      afterFor).flushedLsn = log.flushedLsn := by
  unfold updated
  split <;> rfl

end Updated

--
-- Records Where Their LSNs Say
--

/-
  The records written since `start` and the staged ones are
  one contiguous run.
-/
structure Placed
    (start : Nat)
    (log : WriteAheadLog ι) : Prop where
  staged : log.Staged
  run : Contiguous start log.file
  flushed : log.flushedLsn = start + totalSize log.file

namespace Placed

theorem nextLsn_eq (hPlaced : log.Placed start) :
    log.nextLsn =
      start + totalSize (log.file ++ log.buffer) := by
  rw [hPlaced.staged.nextLsn_eq, hPlaced.flushed,
    totalSize_append, Nat.add_assoc]

theorem stream (hPlaced : log.Placed start) :
    Contiguous start (log.file ++ log.buffer) := by
  refine (contiguous_append _ _ _).mpr ⟨hPlaced.run, ?_⟩
  rw [← hPlaced.flushed]
  exact hPlaced.staged.run

theorem stage
    (hPlaced : log.Placed start)
    {record : LogRecord ι}
    (hLsn : record.lsn = log.nextLsn) :
    (log.stage record).Placed start :=
  ⟨hPlaced.staged.stage hLsn, hPlaced.run, hPlaced.flushed⟩

theorem updated
    (hPlaced : log.Placed start)
    (transactionId : Nat)
    (pageId : PageId)
    (before : ι)
    (afterFor : Nat → ι) :
    (log.updated transactionId pageId before
      afterFor).Placed start where
  staged :=
    hPlaced.staged.updated transactionId pageId before
      afterFor
  run := by
    rw [updated_file]
    exact hPlaced.run
  flushed := by
    rw [updated_file, updated_flushedLsn]
    exact hPlaced.flushed

theorem flush (hPlaced : log.Placed start) :
    log.flushed.Placed start where
  staged := hPlaced.staged.flushed
  run := by
    rw [flushed_file]
    exact hPlaced.stream
  flushed := by
    rw [flushed_flushedLsn, flushed_file, totalSize_append,
      hPlaced.flushed, Nat.add_assoc]

theorem forget
    (hPlaced : log.Placed start)
    (transactionId : Nat) :
    (log.forget transactionId).Placed start :=
  ⟨hPlaced.staged.forget transactionId, hPlaced.run,
    hPlaced.flushed⟩

end Placed

end WriteAheadLog

end Wal

end ChenDB
