import Mathlib.Data.List.Nodup
import ChenDB.Errors
import ChenDB.Wal.Record

/-
  Transactions: the undo log of first before-images, the
  snapshot a transaction reads through, and the manager that
  holds one open transaction for each session.
-/

--
-- The Undo Log
--

namespace ChenDB

namespace Transaction

open Wal (ByteImage noTransaction)

structure UndoRecord (ι : Type) where
  sequence : Nat
  pageId : PageId
  beforeImage : ι
  reason : String
deriving DecidableEq, Repr

/- Before-images for one transaction, one per page touched. -/
structure UndoLog (ι : Type) where
  records : List (UndoRecord ι)
  captured : List PageId
  bytes : Nat
  /- Some image did not fit; the log on disk has it. -/
  overflowed : Bool
deriving DecidableEq, Repr

/- Ceiling on the images one transaction keeps in memory. -/
def maxUndoBytes : Nat := 64 * 1024 * 1024

namespace UndoLog

variable {ι : Type}

def empty : UndoLog ι where
  records := []
  captured := []
  bytes := 0
  overflowed := false

def has (log : UndoLog ι) (pageId : PageId) : Bool :=
  pageId ∈ log.captured

/-
  Save an image unless the page is already covered. The page
  counts as captured even when the image is not kept.
-/
def capture [ByteImage ι]
    (log : UndoLog ι)
    (pageId : PageId)
    (image : ι)
    (reason : String) : UndoLog ι :=
  if pageId ∈ log.captured then
    log
  else if log.bytes + Wal.byteLength image >
      maxUndoBytes then
    { log with
      captured := pageId :: log.captured
      overflowed := true }
  else
    { log with
      captured := pageId :: log.captured
      records := log.records ++
        [{ sequence := log.records.length
           pageId := pageId
           beforeImage := image
           reason := reason }]
      bytes := log.bytes + Wal.byteLength image }

/- Records newest first, the order rollback applies them. -/
def rewind (log : UndoLog ι) : List (UndoRecord ι) :=
  log.records.reverse

end UndoLog

--
-- Snapshots
--

inductive IsolationLevel where
  | readCommitted
  | repeatableRead
deriving DecidableEq, Repr

def defaultIsolation : IsolationLevel := .readCommitted

/- A view of the database as of one instant. -/
structure Snapshot where
  /- Lowest id still running; below it all have finished. -/
  xmin : Nat
  /- One past the highest id assigned. -/
  xmax : Nat
  active : List Nat
  /- Ids below this are committed and final. -/
  frozenXid : Nat
  owner : Nat
deriving DecidableEq, Repr

namespace Snapshot

def take
    (nextXid : Nat)
    (active : List Nat)
    (frozenXid owner : Nat) : Snapshot where
  xmin := (active.min?).getD nextXid
  xmax := nextXid
  active := active
  frozenXid := frozenXid
  owner := owner

/- Was this transaction's work committed and visible? -/
def sees (snapshot : Snapshot) (xid : Nat) : Bool :=
  if xid = noTransaction then false
  else if xid = snapshot.owner then true
  else if xid < snapshot.frozenXid then true
  else if xid ≥ snapshot.xmax then false
  else xid ∉ snapshot.active

end Snapshot

/- Who made a row version, and who deleted it. -/
structure TupleHeader where
  xmin : Nat
  xmax : Nat
deriving DecidableEq, Repr

/- Should this version of the row be returned? -/
def visible
    (header : TupleHeader)
    (snapshot : Snapshot) : Bool :=
  snapshot.sees header.xmin && !snapshot.sees header.xmax

--
-- Open Transactions
--

/- An open transaction: still accepting work, or doomed. -/
inductive TransactionState where
  | active
  | failed
deriving DecidableEq, Repr

structure OpenTransaction (ι : Type) where
  transactionId : Nat
  /- The engine opened this, not the user. -/
  implicit : Bool
  session : String
  isolation : IsolationLevel
  snapshot : Option Snapshot
  undo : UndoLog ι
  state : TransactionState
deriving DecidableEq, Repr

/-
  Every open transaction, one for each session that has one.
  Ids are handed out in order and never twice.
-/
structure TransactionManager (ι : Type) where
  running : List (OpenTransaction ι)
  nextId : Nat
  /- Ids below this committed before the process started. -/
  frozenXid : Nat
  sessions : (running.map OpenTransaction.session).Nodup
  ids : (running.map OpenTransaction.transactionId).Nodup
  assigned : ∀ transaction ∈ running,
    0 < transaction.transactionId ∧
      transaction.transactionId < nextId
  started : 0 < nextId
deriving DecidableEq

namespace TransactionManager

variable {ι : Type}

/- `TransactionManager.__init__`. -/
def create (frozenXid : Nat) : TransactionManager ι where
  running := []
  nextId := max frozenXid 1
  frozenXid := frozenXid
  sessions := List.nodup_nil
  ids := List.nodup_nil
  assigned := fun _ hMem => absurd hMem (by simp)
  started := by omega

def activeIn
    (manager : TransactionManager ι)
    (session : String) : Option (OpenTransaction ι) :=
  manager.running.find? fun transaction =>
    transaction.session = session

def runningIds (manager : TransactionManager ι) :
    List Nat :=
  manager.running.map OpenTransaction.transactionId

/- Any session has a transaction open. -/
def anyOpen (manager : TransactionManager ι) : Bool :=
  !manager.running.isEmpty

/- Change the open transactions, but not who they are. -/
def mapRunning
    (manager : TransactionManager ι)
    (f : OpenTransaction ι → OpenTransaction ι)
    (hSame : ∀ transaction,
      (f transaction).session = transaction.session ∧
        (f transaction).transactionId =
          transaction.transactionId) :
    TransactionManager ι :=
  { manager with
    running := manager.running.map f
    sessions := by
      rw [List.map_map]
      have hSessions :
          OpenTransaction.session ∘ f =
            OpenTransaction.session :=
        funext fun transaction => (hSame transaction).1
      rw [hSessions]
      exact manager.sessions
    ids := by
      rw [List.map_map]
      have hIds :
          OpenTransaction.transactionId ∘ f =
            OpenTransaction.transactionId :=
        funext fun transaction => (hSame transaction).2
      rw [hIds]
      exact manager.ids
    assigned := by
      intro transaction hMem
      rcases List.mem_map.mp hMem with ⟨old, hOld, rfl⟩
      rw [(hSame old).2]
      exact manager.assigned old hOld }

/- Change the open transaction of one session. -/
def updateIn
    (manager : TransactionManager ι)
    (session : String)
    (f : OpenTransaction ι → OpenTransaction ι)
    (hSame : ∀ transaction,
      (f transaction).session = transaction.session ∧
        (f transaction).transactionId =
          transaction.transactionId) :
    TransactionManager ι :=
  manager.mapRunning
    (fun transaction =>
      if transaction.session = session then f transaction
      else transaction)
    (by
      intro transaction
      split
      · exact hSame transaction
      · exact ⟨rfl, rfl⟩)

/- The id `begin` gives the transaction it opens. -/
def start
    (manager : TransactionManager ι)
    (implicit : Bool)
    (session : String)
    (isolation : IsolationLevel) : OpenTransaction ι where
  transactionId := manager.nextId
  implicit := implicit
  session := session
  isolation := isolation
  snapshot := none
  undo := UndoLog.empty
  state := .active

/- Open a transaction for a session that has none. -/
def add
    (manager : TransactionManager ι)
    (implicit : Bool)
    (session : String)
    (isolation : IsolationLevel)
    (hNone : manager.activeIn session = none) :
    TransactionManager ι :=
  { manager with
    running := manager.running ++
      [manager.start implicit session isolation]
    nextId := manager.nextId + 1
    sessions := by
      rw [List.map_append]
      refine List.Nodup.append manager.sessions
        (List.nodup_singleton _) ?_
      intro held hHeld hNew
      rw [List.map_singleton, List.mem_singleton] at hNew
      rcases List.mem_map.mp hHeld with ⟨old, hOld, hId⟩
      have hOther := List.find?_eq_none.mp hNone old hOld
      rw [hId, hNew] at hOther
      simp [start] at hOther
    ids := by
      rw [List.map_append]
      refine List.Nodup.append manager.ids
        (List.nodup_singleton _) ?_
      intro held hHeld hNew
      rw [List.map_singleton, List.mem_singleton] at hNew
      rcases List.mem_map.mp hHeld with ⟨old, hOld, hId⟩
      have hBelow := (manager.assigned old hOld).2
      rw [hId, hNew] at hBelow
      simp [start] at hBelow
    assigned := by
      intro transaction hMem
      rcases List.mem_append.mp hMem with hOld | hNew
      · have hBounds := manager.assigned transaction hOld
        omega
      · rw [List.mem_singleton.mp hNew]
        have hStarted := manager.started
        exact ⟨hStarted, Nat.lt_succ_self _⟩
    started := Nat.succ_pos _ }

/-
  Open a transaction, or join the implicit one that is open
  already. Transactions do not nest.
-/
def begin
    (manager : TransactionManager ι)
    (implicit : Bool)
    (session : String)
    (isolation : IsolationLevel) :
    Except EngineError (TransactionManager ι) :=
  match hActive : manager.activeIn session with
  | some existing =>
    if implicit then
      .ok manager
    else if ¬ existing.implicit then
      .error (.transactionError
        (s!"session '{session}' already has a " ++
          "transaction open; ChenDB has no savepoints, " ++
          "so transactions do not nest"))
    else
      .ok (manager.updateIn session
        (fun transaction =>
          { transaction with implicit := false })
        (fun _ => ⟨rfl, rfl⟩))
  | none => .ok (manager.add implicit session isolation hActive)

/- A statement raised: only a rollback may follow. -/
def markFailed
    (manager : TransactionManager ι)
    (session : String) : TransactionManager ι :=
  manager.updateIn session
    (fun transaction => { transaction with state := .failed })
    (fun _ => ⟨rfl, rfl⟩)

def isFailedIn
    (manager : TransactionManager ι)
    (session : String) : Bool :=
  match manager.activeIn session with
  | none => false
  | some transaction => transaction.state = .failed

def requireActive
    (manager : TransactionManager ι)
    (what session : String) :
    Except EngineError (OpenTransaction ι) :=
  match manager.activeIn session with
  | none =>
    .error (.transactionError
      s!"{what} with no transaction open")
  | some transaction => .ok transaction

/- Forget a finished transaction. -/
def retire
    (manager : TransactionManager ι)
    (session : String) : TransactionManager ι :=
  { manager with
    running := manager.running.filter fun transaction =>
      transaction.session ≠ session
    sessions := manager.sessions.sublist
      (List.filter_sublist.map _)
    ids := manager.ids.sublist (List.filter_sublist.map _)
    assigned := fun transaction hMem =>
      manager.assigned transaction
        (List.mem_filter.mp hMem).1 }

/- Accept the work; refused once a statement has failed. -/
def commit
    (manager : TransactionManager ι)
    (session : String) :
    Except EngineError
      (TransactionManager ι × OpenTransaction ι) := do
  let transaction ← manager.requireActive "COMMIT" session
  if transaction.state = .failed then
    .error (.transactionError
      ("cannot COMMIT: a statement in this transaction " ++
        "failed, so it can only be rolled back"))
  else
    .ok (manager.retire session, transaction)

/- Keep a page's image for the session's transaction. -/
def captureIn [ByteImage ι]
    (manager : TransactionManager ι)
    (session : String)
    (pageId : PageId)
    (image : ι)
    (reason : String) : TransactionManager ι :=
  manager.updateIn session
    (fun transaction => { transaction with
      undo := transaction.undo.capture pageId image reason })
    (fun _ => ⟨rfl, rfl⟩)

/- The view a transaction reads through, taken now. -/
def takeSnapshot
    (manager : TransactionManager ι)
    (owner : Nat) : Snapshot :=
  Snapshot.take manager.nextId manager.runningIds
    manager.frozenXid owner

end TransactionManager

end Transaction

end ChenDB
