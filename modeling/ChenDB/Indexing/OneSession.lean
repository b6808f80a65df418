import ChenDB.Indexing.Key
import ChenDB.Mvcc.Claims

/-
  Tables with their indexes under the calls of one session.
  A statement is taken a row's step at a time; a rollback puts
  the pages back as they stood when the transaction began,
  since nobody else writes to them meanwhile.
-/

--
-- Trees
--

namespace ChenDB

namespace Indexing

open Executor (Value)
open Mvcc (Change Index LockManager Statement Table Version
  advanceRow chosen vacuumHeap)
open Storage (HeapFile Payload RecordId)
open Transaction (IsolationLevel TransactionManager)

variable {ρ φ : Type}

/- An entry of a leaf; entries are ordered by `sort_key`. -/
abbrev Entry := Key × RecordId

def sortsBefore (first second : Entry) : Bool :=
  first.1 < second.1 ||
    first.1 = second.1 &&
      (first.2.pageId < second.2.pageId ||
        first.2.pageId = second.2.pageId &&
          first.2.slotId < second.2.slotId)

/- A tree by the entries of its leaves, in order, and the
   column of the table that it is over. -/
structure Tree (ρ φ : Type) where
  unique : Bool
  dataType : DataType
  column : ρ → Value φ
  entries : List Entry

namespace Tree

def search (tree : Tree ρ φ) (key : Key) : List RecordId :=
  (tree.entries.filter fun entry => entry.1 = key).map
    Prod.snd

variable [SortableDouble φ]

/- `index.encode` of the indexed column of a row. -/
def encode
    (tree : Tree ρ φ)
    (row : ρ) : Except EngineError Key :=
  encodeKey (tree.column row) tree.dataType

def insert
    (tree : Tree ρ φ)
    (name : String)
    (key : Key)
    (recordId : RecordId) : Except EngineError (Tree ρ φ) :=
  if tree.unique ∧ ¬ isNullKey key ∧ tree.search key ≠ []
  then
    .error (.uniqueViolation
      (s!"index '{name}' is unique and already contains " ++
        SortableDouble.describe φ tree.dataType key))
  else
    let entry : Entry := (key, recordId)
    .ok { tree with
      entries :=
        tree.entries.takeWhile (sortsBefore · entry) ++
          entry :: tree.entries.dropWhile
            (sortsBefore · entry) }

omit [SortableDouble φ] in
def delete
    (tree : Tree ρ φ)
    (key : Key)
    (recordId : RecordId) : Tree ρ φ :=
  { tree with entries := tree.entries.erase (key, recordId) }

def insertRow
    (name : String)
    (row : ρ)
    (recordId : RecordId)
    (tree : Tree ρ φ) : Except EngineError (Tree ρ φ) := do
  let key ← tree.encode row
  tree.insert name key recordId

def deleteRow
    (row : ρ)
    (recordId : RecordId)
    (tree : Tree ρ φ) : Except EngineError (Tree ρ φ) := do
  let key ← tree.encode row
  return tree.delete key recordId

/- The rows of a heap, put in one after another. -/
def populate
    (name : String)
    (tree : Tree ρ φ) :
    List (RecordId × Version ρ) → Except EngineError (Tree ρ φ)
  | [] => .ok tree
  | record :: rest => do
      let grown ← insertRow name record.2.row record.1 tree
      populate name grown rest

end Tree

def indexOver [SortableDouble φ]
    (name : String)
    (tree : Tree ρ φ) : Index ρ (Tree ρ φ) where
  name := name
  tree := tree
  insertEntry := Tree.insertRow name
  deleteEntry := Tree.deleteRow

--
-- Tables
--

structure Column (ρ φ : Type) where
  name : String
  dataType : DataType
  value : ρ → Value φ

structure IndexedTable (ρ φ : Type) where
  columns : List (Column ρ φ)
  table : Table ρ (Tree ρ φ)

abbrev Tables (ρ φ : Type) :=
  List (String × IndexedTable ρ φ)

/- Names are compared after `str.casefold`. -/
def findTable
    (casefold : String → String)
    (tables : Tables ρ φ)
    (name : String) : Option (String × IndexedTable ρ φ) :=
  tables.find? fun entry => casefold entry.1 = casefold name

def setTable
    (tables : Tables ρ φ)
    (name : String)
    (table : IndexedTable ρ φ) : Tables ρ φ :=
  tables.map fun entry =>
    if entry.1 = name then (name, table) else entry

/- Every index there is, with the heap it leads into. -/
def allIndexes
    (tables : Tables ρ φ) :
    List (HeapFile (Version ρ) × Index ρ (Tree ρ φ)) :=
  tables.flatMap fun entry =>
    entry.2.table.indexes.map fun index =>
      (entry.2.table.heap, index)

def findIndex
    (casefold : String → String)
    (tables : Tables ρ φ)
    (name : String) :
    Option (HeapFile (Version ρ) × Index ρ (Tree ρ φ)) :=
  (allIndexes tables).find? fun found =>
    casefold found.2.name = casefold name

def isSystemTable
    (casefold : String → String)
    (name : String) : Bool :=
  (casefold name).startsWith "chendb_"

def namesOr (names : List String) : String :=
  if names.isEmpty then "none" else ", ".intercalate names

def requireTable
    (casefold : String → String)
    (tables : Tables ρ φ)
    (name : String) :
    Except EngineError (String × IndexedTable ρ φ) :=
  match findTable casefold tables name with
  | some found => .ok found
  | none => .error (.catalogError
      (s!"no table named '{name}'; this database has " ++
        namesOr (tables.map Prod.fst)))

def requireIndex
    (casefold : String → String)
    (tables : Tables ρ φ)
    (name : String) :
    Except EngineError
      (HeapFile (Version ρ) × Index ρ (Tree ρ φ)) :=
  match findIndex casefold tables name with
  | some found => .ok found
  | none => .error (.catalogError
      (s!"no index named '{name}'; this database has " ++
        namesOr ((allIndexes tables).map fun found =>
          found.2.name)))

/- The table's indexes with a new one, kept by name. -/
def addIndex
    (casefold : String → String)
    (index : Index ρ (Tree ρ φ))
    (found : IndexedTable ρ φ) : IndexedTable ρ φ :=
  let first (other : Index ρ (Tree ρ φ)) : Bool :=
    casefold other.name < casefold index.name
  { found with
    table := { found.table with
      indexes :=
        found.table.indexes.takeWhile first ++
          index :: found.table.indexes.dropWhile first } }

/- What `create_index` checks before it builds: the name is
   free, and there is such a column. -/
def indexedColumn
    (casefold : String → String)
    (tables : Tables ρ φ)
    (name table column : String) :
    Except EngineError
      (String × IndexedTable ρ φ × Column ρ φ) := do
  if isSystemTable casefold name then
    throw (.catalogError
      (s!"'{name}' is reserved: names beginning 'chendb_' " ++
        "belong to the engine"))
  else if (findIndex casefold tables name).isSome then
    throw (.catalogError s!"index '{name}' already exists")
  else if (findTable casefold tables name).isSome then
    throw (.catalogError s!"'{name}' is already a table name")
  else if isSystemTable casefold table then
    throw (.catalogError
      s!"cannot index the system table '{table}'")
  else
    let (owner, found) ← requireTable casefold tables table
    match found.columns.find? fun known =>
        casefold known.name = casefold column with
    | none => throw (.catalogError
        (s!"no column named '{column}' in '{owner}'; it " ++
          "has " ++ ", ".intercalate
            (found.columns.map Column.name)))
    | some known => return (owner, found, known)

/- `Catalog.create_index`: every version of the heap goes in,
   also one no snapshot can see. -/
def createIndex [SortableDouble φ]
    (casefold : String → String)
    (tables : Tables ρ φ)
    (name table column : String)
    (unique : Bool) : Except EngineError (Tables ρ φ) := do
  let (owner, found, known) ←
    indexedColumn casefold tables name table column
  let tree ← Tree.populate name
    { unique := unique
      dataType := known.dataType
      column := known.value
      entries := [] }
    found.table.heap.records
  return setTable tables owner
    (addIndex casefold (indexOver name tree) found)

--
-- The Session
--

structure OneSession (ρ φ : Type) where
  manager : TransactionManager Unit
  locks : LockManager
  tables : Tables ρ φ
  /- The statement the session is in the middle of. -/
  pending : Option (Statement ρ)
  /- The tables as the open transaction found them. -/
  saved : Tables ρ φ

inductive Call (ρ : Type) where
  | begin (implicit : Bool) (isolation : IsolationLevel)
  | issue (table : String) (changes : List (Change ρ))
  | advance (fresh : PageId)
  | commit
  | rollback
  | createIndex (name table column : String) (unique : Bool)
  | vacuum (table : Option String)
  | scan
deriving DecidableEq, Repr

def defaultSession : String := "default"

namespace OneSession

/- The state a call leaves; one that raised leaves it as it
   was. -/
def attempt
    (state : OneSession ρ φ)
    (result : Except EngineError (OneSession ρ φ)) :
    OneSession ρ φ :=
  match result with
  | .error _ => state
  | .ok after => after

def begin
    (state : OneSession ρ φ)
    (implicit : Bool)
    (isolation : IsolationLevel) :
    Except EngineError (OneSession ρ φ) := do
  let manager ← state.manager.begin implicit defaultSession
    isolation
  return { state with
    manager := manager
    saved :=
      if (state.manager.activeIn defaultSession).isNone then
        state.tables
      else state.saved }

def rollback
    (state : OneSession ρ φ) :
    Except EngineError (OneSession ρ φ) := do
  let transaction ← state.manager.requireActive "ROLLBACK"
    defaultSession
  return { state with
    manager := state.manager.retire defaultSession
    locks := state.locks.releaseAll transaction.transactionId
    tables := state.saved
    pending := none }

def commit
    (state : OneSession ρ φ) :
    Except EngineError (OneSession ρ φ) :=
  if state.manager.isFailedIn defaultSession then
    state.rollback
  else do
    let (manager, transaction) ←
      state.manager.commit defaultSession
    return { state with
      manager := manager
      locks :=
        state.locks.releaseAll transaction.transactionId }

/- The statement has no row left: it ends the transaction it
   opened. -/
def finish
    (state : OneSession ρ φ)
    (statement : Statement ρ) : OneSession ρ φ :=
  let done := { state with pending := none }
  if statement.owns then done.attempt done.commit else done

/- What a step of a statement leaves. A statement that raised
   takes back the transaction it opened, and nothing of one
   that was open before it. -/
def keep
    (state : OneSession ρ φ)
    (statement : Statement ρ)
    (found : IndexedTable ρ φ)
    (progress : Mvcc.Progress ρ (Tree ρ φ)) :
    OneSession ρ φ :=
  let moved := { state with
    locks := progress.locks
    tables := setTable state.tables statement.table
      { found with table := progress.table }
    pending := progress.statement }
  if progress.statement.isNone ∧ statement.owns then
    moved.attempt moved.rollback
  else moved

def advance [Payload ρ]
    (state : OneSession ρ φ)
    (fresh : PageId) : OneSession ρ φ :=
  match state.pending,
      state.manager.activeIn defaultSession with
  | some statement, some transaction =>
    match statement.todo with
    | [] => state.finish statement
    | change :: _ =>
      match state.tables.find? fun entry =>
          entry.1 = statement.table with
      | none => state
      | some (_, found) =>
        if hFresh : fresh ∈ found.table.heap.pageIds
        then state
        else
          state.keep statement found
            (advanceRow found.table state.locks
              statement state.manager.runningIds
              transaction.transactionId fresh hFresh
              change)
  | _, _ => state

/- A statement starts, in the transaction that is open or in
   one of its own. -/
def issue
    (casefold : String → String)
    (state : OneSession ρ φ)
    (table : String)
    (changes : List (Change ρ)) :
    Except EngineError (OneSession ρ φ) := do
  let (name, _) ← requireTable casefold state.tables table
  let owns := (state.manager.activeIn defaultSession).isNone
  let begun ← state.begin true Transaction.defaultIsolation
  return { begun with
    pending := some
      { table := name
        owns := owns
        todo := changes
        phase := .arriving } }

/- The horizon is read once, before any table. -/
def vacuum
    (casefold : String → String)
    (state : OneSession ρ φ)
    (table : Option String) :
    Except EngineError (OneSession ρ φ) := do
  let horizon := state.manager.oldestSnapshotXmin
  Mvcc.requireTable casefold (state.tables.map Prod.fst)
    table
  return { state with
    tables := state.tables.map fun entry =>
      if chosen casefold table entry.1 then
        (entry.1, { entry.2 with
          table := { entry.2.table with
            heap :=
              (vacuumHeap horizon entry.2.table.heap).1 } })
      else entry }

/- A session in the middle of a statement takes no other
   call. -/
def step [Payload ρ] [SortableDouble φ]
    (casefold : String → String)
    (state : OneSession ρ φ)
    (call : Call ρ) : OneSession ρ φ :=
  match call, state.pending with
  | .advance fresh, _ => state.advance fresh
  | _, some _ => state
  | .begin implicit isolation, none =>
    state.attempt (state.begin implicit isolation)
  | .issue table changes, none =>
    state.attempt (state.issue casefold table changes)
  | .commit, none => state.attempt state.commit
  | .rollback, none => state.attempt state.rollback
  | .createIndex name table column unique, none =>
    match createIndex casefold state.tables name table
        column unique with
    | .error _ => state
    | .ok tables => { state with tables := tables }
  | .vacuum table, none =>
    state.attempt (state.vacuum casefold table)
  | .scan, none => { state with
      manager := (state.manager.snapshotIn defaultSession).1 }

def run [Payload ρ] [SortableDouble φ]
    (casefold : String → String)
    (state : OneSession ρ φ) :
    List (Call ρ) → OneSession ρ φ
  | [] => state
  | call :: rest => run casefold (state.step casefold call) rest

/- `heap.get` for every record id in turn. -/
def fetchAll
    (heap : HeapFile (Version ρ)) :
    List RecordId → Except EngineError (List ρ)
  | [] => .ok []
  | recordId :: rest =>
    match heap.get recordId with
    | none => .error (.recordNotFound
        (s!"no live record at ({recordId.pageId}," ++
          s!"{recordId.slotId})"))
    | some version => do
        let rows ← fetchAll heap rest
        return version.row :: rows

/- Every row whose indexed column equals the value. -/
def lookup [SortableDouble φ]
    (casefold : String → String)
    (state : OneSession ρ φ)
    (name : String)
    (value : Value φ) : Except EngineError (List ρ) := do
  let (heap, index) ←
    requireIndex casefold state.tables name
  let key ← encodeKey value index.tree.dataType
  fetchAll heap (index.tree.search key)

end OneSession

end Indexing

end ChenDB
