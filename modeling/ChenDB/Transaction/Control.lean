import Mathlib.Data.List.Sort
import ChenDB.Storage.Pager

/-
  Transaction control: what the database does to begin,
  commit and roll back, and the checkpoint and the close it
  guards.
-/

--
-- Transactions
--

namespace ChenDB

namespace Database

open Library.StateExcept
open Storage
open Storage.Pager (fromExcept onFiles)
open Transaction (IsolationLevel OpenTransaction
  TransactionManager UndoRecord)
open Wal (LogRecord WriteAheadLog)

variable {π : Type}

/- Run as a session, restoring the previous one after. -/
def inSession
    {α : Type}
    (session : String)
    (program : EngineM π α) : EngineM π α :=
  focus (fun engine => { engine with session := session })
    (fun engine part =>
      { part with session := engine.session })
    program

def ensureOpen : EngineM π Unit := do
  let engine ← get
  if engine.closed then
    throw (.chenDBError
      s!"database '{engine.databaseId}' is closed")

def manage
    (f : TransactionManager (PageImage π) →
      TransactionManager (PageImage π)) :
    EngineM π Unit :=
  modify fun engine => { engine with
    transactions := f engine.transactions }

/- Open a transaction for this session. -/
def begin
    (implicit : Bool)
    (isolation : IsolationLevel) : EngineM π Unit := do
  ensureOpen
  let engine ← get
  let manager ← fromExcept (engine.transactions.begin
    implicit engine.session isolation)
  manage fun _ => manager

/- The first image the log has of each page, oldest first. -/
def restoreRecords
    (transactionId : Nat) :
    List (LogRecord (PageImage π)) → List PageId →
      EngineM π Unit
  | [], _ => pure ()
  | record :: rest, restored =>
    if record.transactionId ≠ transactionId ∨
        ¬ record.hasUndo then
      restoreRecords transactionId rest restored
    else if record.pageId ∈ restored then
      restoreRecords transactionId rest restored
    else do
      Pager.restorePage record.pageId record.beforeImage
      restoreRecords transactionId rest
        (record.pageId :: restored)

/- Put back what the in-memory undo log could not hold. -/
def restoreFromWal (transactionId : Nat) :
    EngineM π Unit := do
  onFiles (Files.changeLog .logFlushed WriteAheadLog.flush)
  let (records, _) ←
    onFiles (Files.onLog WriteAheadLog.readAll)
  restoreRecords transactionId records []

/- Write every saved image back. -/
def applyUndo :
    List (UndoRecord (PageImage π)) → EngineM π Unit
  | [] => pure ()
  | record :: rest => do
      Pager.restorePage record.pageId record.beforeImage
      applyUndo rest

/- Only an overflowed undo log needs the one on disk. -/
def restoreOverflow
    (active : Option (OpenTransaction (PageImage π))) :
    EngineM π Unit :=
  match active with
  | none => pure ()
  | some transaction =>
    if transaction.undo.overflowed then
      restoreFromWal transaction.transactionId
    else pure ()

/- `TransactionManager.rollback`. -/
def undoActive :
    EngineM π (OpenTransaction (PageImage π)) := do
  let engine ← get
  let transaction ← fromExcept
    (engine.transactions.requireActive "ROLLBACK"
      engine.session)
  applyUndo transaction.undo.rewind
  manage fun manager => manager.retire engine.session
  return transaction

/- Put every page back as it was before the transaction. -/
def rollback :
    EngineM π (OpenTransaction (PageImage π)) := do
  ensureOpen
  let engine ← get
  restoreOverflow
    (engine.transactions.activeIn engine.session)
  let transaction ← undoActive
  Pager.logAbort transaction.transactionId
  Pager.reloadMeta
  return transaction

/- Accept the work, unless a statement of it has failed. -/
def commit :
    EngineM π (OpenTransaction (PageImage π)) := do
  ensureOpen
  let engine ← get
  if engine.transactions.isFailedIn engine.session then
    rollback
  else
    let (manager, transaction) ← fromExcept
      (engine.transactions.commit engine.session)
    manage fun _ => manager
    Pager.logCommit transaction.transactionId
    return transaction

--
-- Checkpoint and Close
--

/- Refused while any transaction is open. -/
def checkpoint : EngineM π Unit := do
  ensureOpen
  let engine ← get
  if engine.transactions.anyOpen then
    throw (.transactionError
      ("cannot checkpoint with a transaction open: " ++
        "truncating the log would discard the " ++
        "before-images that transaction needs to roll " ++
        "back. Commit or roll back first."))
  else
    Pager.checkpoint

/- The sessions with a transaction open, in order. -/
def sessions
    (manager : TransactionManager (PageImage π)) :
    List String :=
  (manager.running.map
    OpenTransaction.session).insertionSort (· ≤ ·)

def rollbackAll : List String → EngineM π Unit
  | [] => pure ()
  | session :: rest => do
      let _ ← inSession session rollback
      rollbackAll rest

/- Roll back anything unfinished, checkpoint and close. -/
def close : EngineM π Unit := do
  let engine ← get
  if engine.closed then
    return
  else
    rollbackAll (sessions engine.transactions)
    Pager.close

--
-- Opening
--

/- The horizon a database starts its transaction ids at. -/
def horizon (engine : Engine π) : Nat :=
  max (max engine.metaPage.nextXid
    (engine.recovery.highestXid + 1)) 1

/- `Database.__init__` up to the catalog: the manager, and
   the two hooks. -/
def install : EngineM π Unit :=
  modify fun engine => { engine with
    watching := true
    transactions := TransactionManager.create
      (horizon engine)
    session := "default" }

end Database

end ChenDB
