import ChenDB.Wal.Codec

/-
  The log file as the bytes it holds: what was there when it
  was opened, then the records written since.
-/

--
-- The File
--

namespace ChenDB

namespace Wal

structure LogFile where
  /- The bytes found on opening, until a reset. -/
  leftover : Bytes
  /- The log, with the records written since. -/
  log : WriteAheadLog Bytes

namespace LogFile

/- `WriteAheadLog.__init__`: append at the end of the file,
   whatever it holds. -/
def openAt
    (raw : Bytes)
    (baseLsn : Nat) : LogFile where
  leftover := raw
  log :=
    { WriteAheadLog.openFile [] baseLsn with
      flushedLsn := baseLsn + raw.length }

/- Every byte of the file. -/
def raw (wal : LogFile) : Bytes :=
  wal.leftover ++ encodeAll wal.log.file

def readAll (wal : LogFile) :
    List (LogRecord Bytes) × Bool :=
  readAllBytes wal.log.baseLsn wal.raw

/- The log program runs behind whatever was left over. -/
def withLog
    (wal : LogFile)
    (log : WriteAheadLog Bytes) : LogFile :=
  { wal with log := log }

/- `reset` truncates the file to nothing. -/
def reset
    (wal : LogFile)
    (baseLsn : Nat) : LogFile where
  leftover := []
  log :=
    { wal.log with
      buffer := []
      bufferBytes := 0
      bufferTail := none
      file := []
      baseLsn := baseLsn
      flushedLsn := baseLsn
      lastLsnOf := fun _ => none }

end LogFile

--
-- Runs of Log Calls
--

/- A call on an open log that adds records or flushes. -/
inductive LogCall (ι : Type) where
  | append
      (recordType : RecordType)
      (transactionId : Nat)
      (pageId : PageId)
      (beforeImage afterImage : ι)
  | appendUpdate
      (transactionId : Nat)
      (pageId : PageId)
      (beforeImage : ι)
      (afterImageFor : Nat → ι)
  | commit (transactionId : Nat)
  | abort (transactionId : Nat)
  | flush
  | flushThrough (lsn : Nat)

variable {ι : Type} [ByteImage ι]

def LogCall.run : LogCall ι → LogM ι Unit
  | .append recordType transactionId pageId before after => do
      let _ ← WriteAheadLog.append recordType transactionId
        pageId before after
  | .appendUpdate transactionId pageId before afterFor => do
      let _ ← WriteAheadLog.appendUpdate transactionId
        pageId before afterFor
  | .commit transactionId => do
      let _ ← WriteAheadLog.commit transactionId
  | .abort transactionId => do
      let _ ← WriteAheadLog.abort transactionId
  | .flush => WriteAheadLog.flush
  | .flushThrough lsn => WriteAheadLog.flushThrough lsn

def runCalls : List (LogCall ι) → LogM ι Unit
  | [] => pure ()
  | call :: rest => do
      call.run
      runCalls rest

/- The log a call leaves. -/
def LogCall.after
    (log : WriteAheadLog ι) :
    LogCall ι → WriteAheadLog ι
  | .append recordType transactionId pageId before after =>
    log.stage (log.nextRecord recordType transactionId
      pageId before after)
  | .appendUpdate transactionId pageId before afterFor =>
    log.updated transactionId pageId before afterFor
  | .commit transactionId =>
    (log.stage (log.endRecord .commit
      transactionId)).flushed.forget transactionId
  | .abort transactionId =>
    (log.stage (log.endRecord .abort
      transactionId)).forget transactionId
  | .flush => log.flushed
  | .flushThrough lsn =>
    if lsn > log.flushedLsn then log.flushed else log

/- The log a run of calls leaves. -/
def callsAfter
    (log : WriteAheadLog ι)
    (calls : List (LogCall ι)) : WriteAheadLog ι :=
  calls.foldl LogCall.after log

section Runs

variable {log : WriteAheadLog ι} {start : Nat}

theorem LogCall.run_eq
    (call : LogCall ι)
    (hOpen : log.closed = false)
    (hStaged : log.Staged) :
    call.run.run log = .ok () (call.after log) := by
  cases call with
  | append recordType transactionId pageId before image =>
    simp [run, after, WriteAheadLog.append_run hOpen]
  | appendUpdate transactionId pageId before afterFor =>
    simp [run, after,
      WriteAheadLog.appendUpdate_run hOpen hStaged]
  | commit transactionId =>
    simp [run, after, WriteAheadLog.commit_run hOpen]
  | abort transactionId =>
    simp [run, after, WriteAheadLog.abort_run hOpen]
  | flush =>
    exact WriteAheadLog.flush_run hOpen
  | flushThrough lsn =>
    exact WriteAheadLog.flushThrough_run hOpen lsn

/- No call closes the log or moves its base. -/
theorem LogCall.after_keeps (call : LogCall ι) :
    (call.after log).closed = log.closed ∧
      (call.after log).baseLsn = log.baseLsn := by
  cases call with
  | append recordType transactionId pageId before image =>
    exact ⟨rfl, rfl⟩
  | appendUpdate transactionId pageId before afterFor =>
    simp [after]
  | commit transactionId =>
    exact ⟨WriteAheadLog.flushed_closed _,
      WriteAheadLog.flushed_baseLsn _⟩
  | abort transactionId => exact ⟨rfl, rfl⟩
  | flush => simp [after]
  | flushThrough lsn =>
    rw [after]
    split
    · simp
    · exact ⟨rfl, rfl⟩

/- No call moves a record from its place. -/
theorem LogCall.after_placed
    (call : LogCall ι)
    (hPlaced : log.Placed start) :
    (call.after log).Placed start := by
  cases call with
  | append recordType transactionId pageId before image =>
    exact hPlaced.stage rfl
  | appendUpdate transactionId pageId before afterFor =>
    exact hPlaced.updated transactionId pageId before
      afterFor
  | commit transactionId =>
    exact ((hPlaced.stage rfl).flush).forget transactionId
  | abort transactionId =>
    exact (hPlaced.stage rfl).forget transactionId
  | flush => exact hPlaced.flush
  | flushThrough lsn =>
    rw [after]
    split
    · exact hPlaced.flush
    · exact hPlaced

/- A run of calls returns, with every record in its place. -/
theorem runCalls_placed
    (calls : List (LogCall ι))
    (hOpen : log.closed = false)
    (hPlaced : log.Placed start) :
    (runCalls calls).run log =
        .ok () (callsAfter log calls) ∧
      (callsAfter log calls).Placed start ∧
      (callsAfter log calls).baseLsn = log.baseLsn := by
  induction calls generalizing log with
  | nil => exact ⟨rfl, hPlaced, rfl⟩
  | cons call calls ih =>
    have hClosed := call.after_keeps.1.trans hOpen
    rcases ih hClosed (call.after_placed hPlaced) with
      ⟨hRun, hFinal, hBase⟩
    refine ⟨?_, hFinal, hBase.trans call.after_keeps.2⟩
    unfold runCalls
    rw [EStateM.run_bind, call.run_eq hOpen hPlaced.staged]
    exact hRun

end Runs

end Wal

end ChenDB
