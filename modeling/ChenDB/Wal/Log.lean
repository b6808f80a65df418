import ChenDB.Errors
import ChenDB.Library.StateExcept
import ChenDB.Wal.Record

/-
  The write-ahead log: append, coalesce, flush, scan,
  checkpoint and reset. The file is the list of whole
  records that reached it; LSNs are byte positions in the
  stream, so they are sums of record sizes above the base.
-/

--
-- The Log
--

namespace ChenDB

namespace Wal

variable {ι : Type} [ByteImage ι]

/- The bytes a run of records takes. -/
def totalSize (records : List (LogRecord ι)) : Nat :=
  (records.map LogRecord.size).sum

structure WriteAheadLog (ι : Type) where
  /- LSN of the file's first byte. -/
  baseLsn : Nat
  file : List (LogRecord ι)
  flushedLsn : Nat
  /- Records staged in memory, oldest first. -/
  buffer : List (LogRecord ι)
  bufferBytes : Nat
  /- The last staged record, while it may be superseded. -/
  bufferTail : Option (LogRecord ι)
  lastLsnOf : Nat → Option Nat
  closed : Bool

abbrev LogM (ι : Type) :=
  EStateM EngineError (WriteAheadLog ι)

namespace WriteAheadLog

/- `WriteAheadLog.__init__` over the records in the file. -/
def openFile
    (file : List (LogRecord ι))
    (baseLsn : Nat) : WriteAheadLog ι where
  baseLsn := baseLsn
  file := file
  flushedLsn := baseLsn + totalSize file
  buffer := []
  bufferBytes := 0
  bufferTail := none
  lastLsnOf := fun _ => none
  closed := false

def nextLsn (log : WriteAheadLog ι) : Nat :=
  log.flushedLsn + log.bufferBytes

def ensureOpen : LogM ι Unit := do
  if (← get).closed then
    throw (.valueError "the write-ahead log is closed")

--
-- Appending
--

def append
    (recordType : RecordType)
    (transactionId : Nat)
    (pageId : PageId)
    (beforeImage afterImage : ι) :
    LogM ι (LogRecord ι) := do
  ensureOpen
  let log ← get
  let record : LogRecord ι :=
    { lsn := log.nextLsn
      prevLsn := (log.lastLsnOf transactionId).getD 0
      transactionId := transactionId
      recordType := recordType
      pageId := pageId
      beforeImage := beforeImage
      afterImage := afterImage }
  set { log with
    buffer := log.buffer ++ [record]
    bufferBytes := log.bufferBytes + record.size
    bufferTail := some record
    lastLsnOf :=
      if transactionId ≠ noTransaction then
        fun t => if t = transactionId then some record.lsn
          else log.lastLsnOf t
      else log.lastLsnOf }
  return record

/- The staged record a write to this page would replace. -/
def superseded
    (log : WriteAheadLog ι)
    (transactionId : Nat)
    (pageId : PageId) : Option (LogRecord ι) :=
  log.bufferTail.filter fun tail =>
    tail.recordType = .update ∧ tail.pageId = pageId ∧
      tail.transactionId = transactionId

/-
  Log a page change, replacing the last staged record when
  it is an update to the same page by the same transaction.
  The replacement keeps the replaced record's LSN and
  before-image.
-/
def appendUpdate
    (transactionId : Nat)
    (pageId : PageId)
    (beforeImage : ι)
    (afterImageFor : Nat → ι) :
    LogM ι (LogRecord ι) := do
  ensureOpen
  let log ← get
  match log.superseded transactionId pageId with
  | none =>
    append .update transactionId pageId beforeImage
      (afterImageFor log.nextLsn)
  | some tail =>
    let record : LogRecord ι :=
      { lsn := tail.lsn
        prevLsn := tail.prevLsn
        transactionId := transactionId
        recordType := .update
        pageId := pageId
        beforeImage := tail.beforeImage
        afterImage := afterImageFor tail.lsn }
    let staged := log.buffer.getLastD tail
    set { log with
      buffer := log.buffer.dropLast ++ [record]
      bufferBytes :=
        log.bufferBytes + record.size - staged.size
      bufferTail := some record }
    return record

--
-- Durability
--

/- Push staged records to the file. -/
def flush : LogM ι Unit := do
  ensureOpen
  let log ← get
  if log.buffer ≠ [] then
    set { log with
      file := log.file ++ log.buffer
      buffer := []
      bufferBytes := 0
      bufferTail := none
      flushedLsn := log.flushedLsn + totalSize log.buffer }

/- The write-ahead rule, as the buffer pool calls it. -/
def flushThrough (lsn : Nat) : LogM ι Unit := do
  if lsn > (← get).flushedLsn then
    flush

def commit (transactionId : Nat) :
    LogM ι (LogRecord ι) := do
  let record ← append .commit transactionId 0
    ByteImage.empty ByteImage.empty
  flush
  modify fun log => { log with
    lastLsnOf := fun t =>
      if t = transactionId then none
      else log.lastLsnOf t }
  return record

def abort (transactionId : Nat) :
    LogM ι (LogRecord ι) := do
  let record ← append .abort transactionId 0
    ByteImage.empty ByteImage.empty
  modify fun log => { log with
    lastLsnOf := fun t =>
      if t = transactionId then none
      else log.lastLsnOf t }
  return record

--
-- Reading
--

/-
  The scan of `read_all` from a file offset: a record that
  does not sit where its LSN says stops it.
-/
def scan
    (baseLsn : Nat) :
    Nat → List (LogRecord ι) → List (LogRecord ι) × Bool
  | _, [] => ([], false)
  | offset, record :: rest =>
    if record.lsn = baseLsn + offset then
      let found := scan baseLsn (offset + record.size) rest
      (record :: found.1, found.2)
    else
      ([], true)

def readAll : LogM ι (List (LogRecord ι) × Bool) := do
  ensureOpen
  let log ← get
  return scan log.baseLsn 0 log.file

--
-- Checkpoint and Reset
--

/- `WriteAheadLog.checkpoint` up to the truncation. -/
def appendCheckpoint : LogM ι (LogRecord ι) := do
  let record ← append .checkpoint noTransaction 0
    ByteImage.empty ByteImage.empty
  flush
  return record

/- `WriteAheadLog.checkpoint` from the truncation on. -/
def truncate : LogM ι Unit :=
  modify fun log => { log with
    file := []
    bufferTail := none
    baseLsn := log.flushedLsn
    lastLsnOf := fun _ => none }

def reset (baseLsn : Nat) : LogM ι Unit := do
  ensureOpen
  modify fun log => { log with
    buffer := []
    bufferBytes := 0
    bufferTail := none
    file := []
    baseLsn := baseLsn
    flushedLsn := baseLsn
    lastLsnOf := fun _ => none }

/- Close without flushing: staged records are lost. -/
def abandon : LogM ι Unit :=
  modify fun log =>
    if log.closed then log
    else { log with
      buffer := []
      bufferBytes := 0
      bufferTail := none
      closed := true }

def close : LogM ι Unit := do
  if (← get).closed then
    return
  flush
  modify fun log => { log with closed := true }

end WriteAheadLog

end Wal

end ChenDB
