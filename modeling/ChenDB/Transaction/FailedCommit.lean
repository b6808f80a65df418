import ChenDB.Transaction.Opening
import ChenDB.Transaction.Sessions
import ChenDB.Wal.FailedFlush

/-
  A commit whose log write fails. The manager has let the
  transaction go before the COMMIT record is written, so the
  failure leaves a transaction every later snapshot sees as
  finished, which the log does not have and which can no
  longer be rolled back.
-/

--
-- A Log Write That Fails
--

namespace ChenDB

namespace Wal

namespace WriteAheadLog

variable {ι : Type} [ByteImage ι]

/- `WriteAheadLog.commit` where the file raises. -/
def commitRefused
    (raised : EngineError)
    (reached transactionId : Nat) :
    LogM ι (LogRecord ι) := do
  let record ← append .commit transactionId 0
    ByteImage.empty ByteImage.empty
  flushRefused raised reached
  return record

/- The log a refused commit leaves. -/
def refused
    (log : WriteAheadLog ι)
    (reached transactionId : Nat) : WriteAheadLog ι :=
  let staged := log.stage (log.endRecord .commit
    transactionId)
  { staged with
    file := log.file ++ log.buffer.take reached
    buffer := []
    bufferBytes := 0
    bufferTail := none }

theorem commitRefused_run
    {log : WriteAheadLog ι}
    (hOpen : log.closed = false)
    (raised : EngineError)
    (reached transactionId : Nat) :
    (commitRefused raised reached transactionId).run log =
      .error raised (log.refused reached transactionId) := by
  have hLast : (log.stage (log.endRecord .commit
      transactionId)).buffer.dropLast = log.buffer :=
    List.dropLast_concat
  have hFlush : (flushRefused raised reached).run
      (log.stage (log.nextRecord .commit transactionId 0
        ByteImage.empty ByteImage.empty)) =
      .error raised (log.refused reached transactionId) := by
    unfold flushRefused
    rw [EStateM.run_bind, ensureOpen_run (by exact hOpen)]
    simp only [EStateM.run_bind, EStateM.run_get]
    unfold refused
    rw [← hLast]
    rfl
  unfold commitRefused
  rw [EStateM.run_bind, append_run hOpen]
  simp only [EStateM.run_bind]
  rw [hFlush]

end WriteAheadLog

end Wal

namespace Database

open Library.StateExcept
open Storage
open Storage.Pager (fromExcept onFiles)
open Transaction (OpenTransaction TransactionManager)
open Wal (LogRecord WriteAheadLog)

variable {π : Type}

/- `Database.commit`, given how the record is logged. -/
def commitWith (logCommit : Nat → EngineM π Unit) :
    EngineM π (OpenTransaction (PageImage π)) := do
  ensureOpen
  let engine ← get
  if engine.transactions.isFailedIn engine.session then
    rollback
  else
    let (manager, transaction) ← fromExcept
      (engine.transactions.commit engine.session)
    manage fun _ => manager
    logCommit transaction.transactionId
    return transaction

/- `Pager.log_commit` where the file raises. -/
def logCommitRefused
    (raised : EngineError)
    (reached transactionId : Nat) : EngineM π Unit := do
  let _ ← onFiles (Files.onLog
    (WriteAheadLog.commitRefused raised reached
      transactionId))

/- The transaction is not seen as finished by a snapshot of
   anybody else. -/
def NotCommitted
    (engine : Engine π)
    (transactionId : Nat) : Prop :=
  ∀ owner, owner ≠ transactionId →
    (engine.transactions.takeSnapshot owner).sees
      transactionId = false

/- The session's transaction can be rolled back: a rollback
   finds it. -/
def StillOpen
    (engine : Engine π)
    (transactionId : Nat) : Prop :=
  ∃ transaction,
    engine.transactions.activeIn engine.session =
        some transaction ∧
      transaction.transactionId = transactionId

/- Every record of the log, written or staged. -/
def logRecords (engine : Engine π) :
    List (LogRecord (PageImage π)) :=
  engine.files.wal.file ++ engine.files.wal.buffer

section Refused

variable {engine : Engine π}
variable {transaction : OpenTransaction (PageImage π)}

/- What a refused commit leaves. -/
def refused
    (engine : Engine π)
    (reached transactionId : Nat) : Engine π :=
  { engine with
    transactions := engine.transactions.retire
      engine.session
    files := { engine.files with
      wal := engine.files.wal.refused reached
        transactionId } }

theorem commitWith_refused_run
    (hOpen : engine.closed = false)
    (hLog : engine.files.wal.closed = false)
    (hActive : engine.transactions.activeIn engine.session =
      some transaction)
    (hUsable : transaction.state ≠ .failed)
    (raised : EngineError)
    (reached : Nat) :
    (commitWith (logCommitRefused raised reached)).run
        engine =
      .error raised
        (refused engine reached
          transaction.transactionId) := by
  have hNotFailed :
      engine.transactions.isFailedIn engine.session =
        false := by
    unfold TransactionManager.isFailedIn
    rw [hActive]
    exact decide_eq_false hUsable
  have hCommit :
      engine.transactions.commit engine.session =
        .ok (engine.transactions.retire engine.session,
          transaction) := by
    unfold TransactionManager.commit
      TransactionManager.requireActive
    rw [hActive]
    exact if_neg hUsable
  have hRun := WriteAheadLog.commitRefused_run hLog raised
    reached transaction.transactionId
  unfold commitWith ensureOpen
  simp only [EStateM.run_bind, EStateM.run_get, hOpen]
  simp only [Bool.false_eq_true, if_false, EStateM.run_pure,
    hNotFailed, hCommit, fromExcept]
  unfold manage logCommitRefused onFiles Files.onLog
  simp only [EStateM.run_bind, EStateM.run_modify,
    EStateM.run_pure, run_focus]
  rw [hRun]
  rfl

/- A rollback finds nothing to roll back. -/
theorem rollback_refused
    (hOpen : engine.closed = false)
    (reached transactionId : Nat) :
    ∃ raised after,
      rollback.run (refused engine reached transactionId) =
        .error raised after := by
  have hNone :
      (engine.transactions.retire engine.session).activeIn
        engine.session = none := by
    rw [Transaction.activeIn_retire, if_pos rfl]
  unfold rollback ensureOpen undoActive
  simp only [EStateM.run_bind, EStateM.run_get, refused,
    hOpen, hNone, restoreOverflow, fromExcept,
    TransactionManager.requireActive, Bool.false_eq_true,
    if_false, EStateM.run_pure]
  exact ⟨_, _, rfl⟩

/-
  Whenever the log write of a commit fails, the transaction
  has become committed: every snapshot anybody else takes
  sees it, although no record was added to the log, neither
  in the file nor staged for it, and it can no longer be
  rolled back.
-/
theorem refused_commit_stands
    (hOpen : engine.closed = false)
    (hLog : engine.files.wal.closed = false)
    (hActive : engine.transactions.activeIn engine.session =
      some transaction)
    (hUsable : transaction.state ≠ .failed)
    (raised : EngineError)
    (reached : Nat) :
    ∃ after,
      (commitWith (logCommitRefused raised reached)).run
          engine = .error raised after ∧
        (∀ record ∈ logRecords after,
          record ∈ logRecords engine) ∧
        ¬ NotCommitted after transaction.transactionId ∧
        (∀ owner, (after.transactions.takeSnapshot
          owner).sees transaction.transactionId = true) ∧
        ¬ StillOpen after transaction.transactionId ∧
        ∃ refusal final,
          rollback.run after = .error refusal final := by
  have hMem := (Transaction.activeIn_eq_some.mp hActive).1
  have hBounds := engine.transactions.assigned transaction hMem
  have hGone : transaction.transactionId ∉
      (engine.transactions.retire
        engine.session).runningIds := by
    intro hStill
    exact ((Transaction.mem_runningIds_retire hActive
      _).mp hStill).2 rfl
  have hSees : ∀ owner,
      ((engine.transactions.retire
        engine.session).takeSnapshot owner).sees
          transaction.transactionId = true := by
    intro owner
    have hReal : transaction.transactionId ≠
        Wal.noTransaction := Nat.ne_of_gt hBounds.1
    unfold TransactionManager.takeSnapshot
      Transaction.Snapshot.take Transaction.Snapshot.sees
    rw [if_neg hReal]
    split
    · rfl
    split
    · rfl
    exact (if_neg (Nat.not_le.mpr hBounds.2)).trans
      (decide_eq_true hGone)
  refine ⟨_, commitWith_refused_run hOpen hLog hActive
    hUsable raised reached, ?_, ?_, hSees, ?_,
    rollback_refused hOpen reached _⟩
  · intro record hRecord
    rcases List.mem_append.mp hRecord with hFile | hStaged
    · rcases List.mem_append.mp hFile with hOld | hNew
      · exact List.mem_append_left _ hOld
      · exact List.mem_append_right _
          (List.mem_of_mem_take hNew)
    · cases hStaged
  · intro hNot
    have hUnseen := hNot (transaction.transactionId + 1)
      (Nat.succ_ne_self _)
    exact Bool.false_ne_true (hUnseen.symm.trans (hSees _))
  · intro hStill
    rcases hStill with ⟨found, hFound, -⟩
    change (engine.transactions.retire
      engine.session).activeIn engine.session = _ at hFound
    rw [Transaction.activeIn_retire, if_pos rfl] at hFound
    cases hFound

end Refused

--
-- A New Database
--

/- A database file nobody has written to. -/
def emptyFiles : Pager.Stored Bytes where
  pages := []
  records := []

def smallOptions : Pager.Options where
  path := "shop.chendb"
  databaseId := "shop"
  pageSize := 512
  verifyChecksums := true
  bufferPoolFrames := 8

/- A new database with one transaction open. -/
def openedAndBegun : Except EngineError (Engine Bytes) := do
  let engine ← Pager.opening smallOptions emptyFiles
  let program : EngineM Bytes Unit := do
    boot false true
    begin false Transaction.defaultIsolation
  match program.run engine with
  | .ok _ begun => return begun
  | .error raised _ => throw raised

/- The disk is full when the first transaction commits. -/
theorem refused_commit_seen :
    ∃ engine after,
      openedAndBegun = .ok engine ∧
        engine.transactions.runningIds = [1] ∧
        (commitWith (logCommitRefused
          (.chenDBError "No space left on device") 0)).run
            engine =
          .error (.chenDBError "No space left on device")
            after ∧
        after.files.wal.file.any (fun record =>
          record.recordType = .commit) = false ∧
        ¬ NotCommitted after 1 := by
  refine ⟨_, _, rfl, rfl, rfl, rfl, fun hNot => ?_⟩
  exact Bool.false_ne_true (hNot 2 (by decide)).symm

theorem refused_commit_stands_new :
    ∃ engine transaction after,
      openedAndBegun = .ok engine ∧
        engine.transactions.activeIn engine.session =
          some transaction ∧
        (commitWith (logCommitRefused
          (.chenDBError "No space left on device") 0)).run
            engine =
          .error (.chenDBError "No space left on device")
            after ∧
        ¬ NotCommitted after transaction.transactionId := by
  have hFound : ∃ engine transaction,
      openedAndBegun = .ok engine ∧
        engine.closed = false ∧
        engine.files.wal.closed = false ∧
        engine.transactions.activeIn engine.session =
          some transaction ∧
        transaction.state = .active :=
    ⟨_, _, rfl, rfl, rfl, rfl, rfl⟩
  rcases hFound with
    ⟨engine, transaction, hEngine, hOpen, hLog, hActive, hState⟩
  rcases refused_commit_stands hOpen hLog hActive
      (by simp [hState])
      (.chenDBError "No space left on device") 0 with
    ⟨after, hRefused, -, hSeen, -⟩
  exact ⟨engine, transaction, after, hEngine, hActive,
    hRefused, hSeen⟩

end Database

end ChenDB
