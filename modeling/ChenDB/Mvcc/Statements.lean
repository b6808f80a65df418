import Mathlib.Logic.Function.Basic
import ChenDB.Mvcc.Locks

/-
  Statements that change rows, as sessions run them side by
  side. A statement stops wherever it may have to wait for a
  row's lock, so other sessions run in between.
-/

--
-- Tables
--

namespace ChenDB

namespace Mvcc

open Storage (HeapFile Payload RecordId)
open Transaction (IsolationLevel TransactionManager visible)
open Wal (noTransaction)

variable {ι ρ τ : Type}

/-
  An index: its tree, and how the entry of a row is put in
  and taken out (`tree.insert(index.encode(...), ...)`).
-/
structure Index (ρ τ : Type) where
  name : String
  tree : τ
  insertEntry : ρ → RecordId → τ → Except EngineError τ
  deleteEntry : ρ → RecordId → τ → Except EngineError τ

structure Table (ρ τ : Type) where
  heap : HeapFile (Version ρ)
  indexes : List (Index ρ τ)
  /- `encode_record` accepts the row. -/
  check : ρ → Except EngineError Unit

/- One row at the address it was found at, if any. -/
abbrev Located (ρ : Type) := Option (RecordId × ρ)

namespace Index

/- Take the old entry out and put the new one in. -/
def rewrite
    (index : Index ρ τ)
    (old new : Located ρ) :
    Index ρ τ × Option EngineError :=
  let removed : Except EngineError τ :=
    match old with
    | none => .ok index.tree
    | some (recordId, row) =>
      index.deleteEntry row recordId index.tree
  match removed with
  | .error raised => (index, some raised)
  | .ok tree =>
    let inserted : Except EngineError τ :=
      match new with
      | none => .ok tree
      | some (recordId, row) =>
        index.insertEntry row recordId tree
    match inserted with
    | .error raised =>
      ({ index with tree := tree }, some raised)
    | .ok tree => ({ index with tree := tree }, none)

/- Every index of a table in turn, up to one that raises. -/
def rewriteAll
    (old new : Located ρ) :
    List (Index ρ τ) → List (Index ρ τ) × Option EngineError
  | [] => ([], none)
  | index :: rest =>
    match index.rewrite old new with
    | (index, some raised) => (index :: rest, some raised)
    | (index, none) =>
      let (rest, raised) := rewriteAll old new rest
      (index :: rest, raised)

end Index

--
-- Statements
--

inductive Change (ρ : Type) where
  | insert (values : ρ)
  | delete (recordId : RecordId)
  | update (recordId : RecordId) (values : ρ)
deriving DecidableEq, Repr

/- The row a change is to be made to. -/
def Change.target : Change ρ → Option RecordId
  | .insert _ => none
  | .delete recordId => some recordId
  | .update recordId _ => some recordId

/-
  Where a statement stands with its next row: before it,
  waiting for the row's lock, holding the version it will
  change, or waiting for the lock of the row it has put in
  the heap.
-/
inductive Phase (ρ : Type) where
  | arriving
  | waiting
  | claimed (version : Version ρ)
  | placed (recordId : RecordId) (old : Located ρ)
deriving DecidableEq, Repr

structure Statement (ρ : Type) where
  table : String
  /- It opened its transaction and will end it. -/
  owns : Bool
  todo : List (Change ρ)
  phase : Phase ρ
deriving DecidableEq, Repr

/- What a statement did to the rows of its table. -/
inductive Effect (ρ : Type) where
  | added (recordId : RecordId) (row : ρ)
  | removed (recordId : RecordId)
deriving DecidableEq, Repr

/- The outcome of one step of a statement; `none` for one
   that raised. -/
structure Progress (ρ τ : Type) where
  table : Table ρ τ
  locks : LockManager
  statement : Option (Statement ρ)
  effects : List (Effect ρ)

namespace Statement

/- On to the next row. -/
def next (statement : Statement ρ) : Statement ρ :=
  { statement with
    todo := statement.todo.tail
    phase := .arriving }

def into
    (statement : Statement ρ)
    (phase : Phase ρ) : Statement ρ :=
  { statement with phase := phase }

end Statement

section Steps

variable [Payload ρ] (table : Table ρ τ) (locks : LockManager)
variable (statement : Statement ρ)

/- Nothing but the statement moves. -/
def stay
    (statement : Option (Statement ρ)) :
    Progress ρ τ where
  table := table
  locks := locks
  statement := statement
  effects := []

/- Put a new version in the heap. -/
def place
    (xid : Nat)
    (fresh : PageId)
    (hFresh : fresh ∉ table.heap.pageIds)
    (values : ρ)
    (old : Located ρ) : Progress ρ τ :=
  match table.heap.insert fresh hFresh
      ⟨⟨xid, noTransaction⟩, values⟩ with
  | .error _ => stay table locks none
  | .ok (heap, recordId) =>
    { table := { table with heap := heap }
      locks := locks
      statement := some (statement.into
        (.placed recordId old))
      effects := [.added recordId values] }

/- The first part of `_claim_row`: give a row up once it is
   gone, or its deleter has finished. -/
def arrive
    (running : List Nat)
    (recordId : RecordId) : Progress ρ τ :=
  match table.heap.get recordId with
  | none => stay table locks (some statement.next)
  | some version =>
    if deleted version.header ∧
        version.header.xmax ∉ running then
      stay table locks (some statement.next)
    else
      stay table locks (some (statement.into .waiting))

/- The rest of `_claim_row`: the lock, and a second look. -/
def claim
    (xid : Nat)
    (recordId : RecordId) : Progress ρ τ :=
  match locks.tryAcquire xid
      (rowResource statement.table recordId) .exclusive with
  | .error _ => stay table locks none
  | .ok none => stay table locks (some statement)
  | .ok (some locks) =>
    match table.heap.get recordId with
    | none => stay table locks (some statement.next)
    | some version =>
      if deleted version.header then
        stay table locks (some statement.next)
      else
        stay table locks
          (some (statement.into (.claimed version)))

def setXmax (version : Version ρ) (xid : Nat) : Version ρ :=
  { version with
    header := { version.header with xmax := xid } }

/- `_delete_one` from the claim on: the indexes, and then
   the header. -/
def deleteClaimed
    (xid : Nat)
    (recordId : RecordId)
    (version : Version ρ) : Progress ρ τ :=
  match Index.rewriteAll (some (recordId, version.row)) none
      table.indexes with
  | (indexes, some _) =>
    stay { table with indexes := indexes } locks none
  | (indexes, none) =>
    match table.heap.replace recordId
        (setXmax version xid) with
    | .error _ =>
      stay { table with indexes := indexes } locks none
    | .ok (heap, _) =>
      { table := { table with
          heap := heap, indexes := indexes }
        locks := locks
        statement := some statement.next
        effects := [.removed recordId] }

/- `_update_one` from the claim on, up to the new version's
   lock. -/
def updateClaimed
    (xid : Nat)
    (fresh : PageId)
    (hFresh : fresh ∉ table.heap.pageIds)
    (recordId : RecordId)
    (version : Version ρ)
    (values : ρ) : Progress ρ τ :=
  match table.check values with
  | .error _ => stay table locks none
  | .ok _ =>
    match hReplace : table.heap.replace recordId
        (setXmax version xid) with
    | .error _ => stay table locks none
    | .ok (heap, _) =>
      let placed : Progress ρ τ := place
        { table with heap := heap } locks statement xid
        fresh (by
          rw [HeapFile.pageIds_replace hReplace]
          exact hFresh)
        values (some (recordId, version.row))
      { placed with
        effects := .removed recordId :: placed.effects }

/- The lock of a row just put in, and then the indexes. -/
def settleIn
    (xid : Nat)
    (recordId : RecordId)
    (row : ρ)
    (old : Located ρ) : Progress ρ τ :=
  match locks.tryAcquire xid
      (rowResource statement.table recordId) .exclusive with
  | .error _ => stay table locks none
  | .ok none => stay table locks (some statement)
  | .ok (some locks) =>
    match Index.rewriteAll old (some (recordId, row))
        table.indexes with
    | (indexes, raised) =>
      stay { table with indexes := indexes } locks
        (if raised.isSome then none
          else some statement.next)

/- One step of a statement at its next row. -/
def advanceRow
    (running : List Nat)
    (xid : Nat)
    (fresh : PageId)
    (hFresh : fresh ∉ table.heap.pageIds)
    (change : Change ρ) : Progress ρ τ :=
  match statement.phase, change with
  | .arriving, .insert values =>
    match table.check values with
    | .error _ => stay table locks none
    | .ok _ =>
      place table locks statement xid fresh hFresh values
        none
  | .arriving, .delete recordId =>
    arrive table locks statement running recordId
  | .arriving, .update recordId _ =>
    arrive table locks statement running recordId
  | .waiting, .delete recordId =>
    claim table locks statement xid recordId
  | .waiting, .update recordId _ =>
    claim table locks statement xid recordId
  | .claimed version, .delete recordId =>
    deleteClaimed table locks statement xid recordId
      version
  | .claimed version, .update recordId values =>
    updateClaimed table locks statement xid fresh hFresh
      recordId version values
  | .placed recordId old, .insert values =>
    settleIn table locks statement xid recordId values old
  | .placed recordId old, .update _ values =>
    settleIn table locks statement xid recordId values old
  -- no statement gets to these
  | .waiting, .insert _ => stay table locks (some statement)
  | .claimed _, .insert _ =>
    stay table locks (some statement)
  | .placed _ _, .delete _ =>
    stay table locks (some statement)

end Steps

--
-- The Database
--

structure Db (ι ρ τ : Type) where
  manager : TransactionManager ι
  locks : LockManager
  tables : String → Option (Table ρ τ)
  /- The statement each session is in the middle of. -/
  pending : String → Option (Statement ρ)

inductive Event (ρ : Type) where
  | begin
      (session : String)
      (implicit : Bool)
      (isolation : IsolationLevel)
  | issue
      (session table : String)
      (changes : List (Change ρ))
  | advance (session : String) (fresh : PageId)
  | giveUp (session : String)
  | commit (session : String)
  | scan (session : String)
  | vacuum (names : String → Bool)

/- An effect, and where and under which id it happened. -/
structure Trace (ρ : Type) where
  table : String
  xid : Nat
  effect : Effect ρ
deriving DecidableEq, Repr

namespace Db

/- Accept the session's work. A transaction with a failed
   statement is rolled back instead, which is not part of
   these runs. -/
def commitIn
    (db : Db ι ρ τ)
    (session : String) : Db ι ρ τ :=
  match db.manager.commit session with
  | .error _ => db
  | .ok (manager, transaction) =>
    { db with
      manager := manager
      locks := db.locks.releaseAll
        transaction.transactionId }

/- A statement raised: its transaction can only be rolled
   back now. -/
def fail
    (db : Db ι ρ τ)
    (session : String) : Db ι ρ τ :=
  { db with
    manager := db.manager.markFailed session
    pending := Function.update db.pending session none }

/- A statement with no row left is done. -/
def finish
    (db : Db ι ρ τ)
    (session : String)
    (statement : Statement ρ) : Db ι ρ τ :=
  let done := { db with
    pending := Function.update db.pending session none }
  if statement.owns then done.commitIn session else done

/- What a step of a statement leaves. -/
def keep
    (db : Db ι ρ τ)
    (session table : String)
    (progress : Progress ρ τ) : Db ι ρ τ :=
  let moved := { db with
    locks := progress.locks
    tables := Function.update db.tables table
      (some progress.table) }
  match progress.statement with
  | none => moved.fail session
  | some statement =>
    { moved with
      pending := Function.update db.pending session
        (some statement) }

/- Let the session's statement take one step. -/
def advance [Payload ρ]
    (db : Db ι ρ τ)
    (session : String)
    (fresh : PageId) : Db ι ρ τ × List (Trace ρ) :=
  match db.pending session, db.manager.activeIn session with
  | some statement, some transaction =>
    match statement.todo with
    | [] => (db.finish session statement, [])
    | change :: _ =>
      match db.tables statement.table with
      | none => (db, [])
      | some table =>
        if hFresh : fresh ∈ table.heap.pageIds then
          (db, [])
        else
          let progress := advanceRow table db.locks
            statement db.manager.runningIds
            transaction.transactionId fresh hFresh
            change
          (db.keep session statement.table progress,
            progress.effects.map fun effect =>
              ⟨statement.table,
                transaction.transactionId, effect⟩)
  | _, _ => (db, [])

/- A statement starts, in the session's transaction or in
   one of its own. -/
def issue
    (db : Db ι ρ τ)
    (session table : String)
    (changes : List (Change ρ)) : Db ι ρ τ :=
  if (db.tables table).isNone then db
  else
    match db.manager.begin true session
        Transaction.defaultIsolation with
    | .error _ => db
    | .ok manager =>
      { db with
        manager := manager
        pending := Function.update db.pending session
          (some
            { table := table
              owns :=
                (db.manager.activeIn session).isNone
              todo := changes
              phase := .arriving }) }

/- The rows of a table a session sees, where they are. -/
def scanRows
    (db : Db ι ρ τ)
    (session table : String) : List (RecordId × ρ) :=
  match db.tables table with
  | none => []
  | some found =>
    let snapshot := (db.manager.snapshotIn session).2
    (found.heap.records.filter fun record =>
      visible record.2.header snapshot).map
        fun record => (record.1, record.2.row)

/- The horizon is read once, before any table. -/
def vacuumTables
    (db : Db ι ρ τ)
    (names : String → Bool) : Db ι ρ τ :=
  { db with
    tables := fun name => (db.tables name).map fun table =>
      if names name then
        { table with
          heap := (vacuumHeap db.manager.oldestSnapshotXmin
            table.heap).1 }
      else table }

/- A session in the middle of a statement takes no other
   call. -/
def step [Payload ρ]
    (db : Db ι ρ τ) :
    Event ρ → Db ι ρ τ × List (Trace ρ)
  | .begin session implicit isolation =>
    if (db.pending session).isSome then (db, [])
    else
      match db.manager.begin implicit session isolation with
      | .error _ => (db, [])
      | .ok manager => ({ db with manager := manager }, [])
  | .issue session table changes =>
    if (db.pending session).isSome then (db, [])
    else (db.issue session table changes, [])
  | .advance session fresh => db.advance session fresh
  | .giveUp session =>
    if (db.pending session).isSome then
      (db.fail session, [])
    else (db, [])
  | .commit session =>
    if (db.pending session).isSome then (db, [])
    else (db.commitIn session, [])
  | .scan session =>
    if (db.pending session).isSome then (db, [])
    else
      ({ db with
        manager := (db.manager.snapshotIn session).1 }, [])
  | .vacuum names => (db.vacuumTables names, [])

/- A run, with everything that was done to rows. -/
def run [Payload ρ]
    (db : Db ι ρ τ) :
    List (Event ρ) → Db ι ρ τ × List (Trace ρ)
  | [] => (db, [])
  | event :: rest =>
    let (next, done) := db.step event
    let (final, later) := run next rest
    (final, done ++ later)

end Db

end Mvcc

end ChenDB
