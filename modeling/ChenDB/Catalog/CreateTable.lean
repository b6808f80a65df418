import ChenDB.Catalog.SystemTables

/-
  `Catalog.create_table`, and when a call of it that raises
  leaves the tables and the lookups as they were.
-/

--
-- Databases
--

namespace ChenDB

namespace Catalog

open Executor (Binary64)
open Indexing (BPlusTree KeyTexts SortKey)
open Library.StateExcept
open Mvcc (Version)
open Serialization (Codable PythonText)
open Storage (RecordId)

section Tables

variable [CaseFolding] [PythonText]

/-
  The pages of a database: the system tables, and the stored
  versions of each heap by the first page of it. The engine
  never frees a page, so the pager hands out the next one.
-/
structure Database where
  pageSize : Nat
  pageCount : Nat
  nextObjectId : Nat
  system : SystemTables
  records : PageId → List (RecordId × Version (List Codable))

abbrev CatalogM (α : Type) :=
  EStateM CatalogRaise Database α

/- A lookup changes nothing. -/
def lookup
    {α : Type}
    (find : SystemTables → Except CatalogRaise α) :
    CatalogM α := fun db =>
  match find db.system with
  | .ok answer => .ok answer db
  | .error raised => .error raised db

def change
    (next : Database → Except CatalogRaise Database) :
    CatalogM Unit := fun db =>
  match next db with
  | .ok after => .ok () after
  | .error raised => .error raised db

/- `meta.next_object_id += 1`. -/
def takeObjectId : CatalogM Nat := fun db =>
  .ok db.nextObjectId
    { db with nextObjectId := db.nextObjectId + 1 }

/- `allocate_page`. -/
def takePage : CatalogM PageId := fun db =>
  .ok db.pageCount { db with pageCount := db.pageCount + 1 }

namespace Database

def insertTable
    (row : TableRow)
    (db : Database) : Except CatalogRaise Database := do
  let (heap, count) ←
    db.system.tables.insert db.pageSize db.pageCount row
  return { db with
    pageCount := count
    system := { db.system with tables := heap } }

def insertColumn
    (row : ColumnRow)
    (db : Database) : Except CatalogRaise Database := do
  let (heap, count) ←
    db.system.columns.insert db.pageSize db.pageCount row
  return { db with
    pageCount := count
    system := { db.system with columns := heap } }

def insertIndex
    (row : IndexRow)
    (db : Database) : Except CatalogRaise Database := do
  let (heap, count) ←
    db.system.indexes.insert db.pageSize db.pageCount row
  return { db with
    pageCount := count
    system := { db.system with indexes := heap } }

end Database

--
-- Creating
--

def reserved (name : String) : CatalogRaise :=
  catalogError
    (s!"{PythonText.repr name} is reserved: names " ++
      "beginning 'chendb_' belong to the engine")

/- The row of each column, until one is refused. -/
def insertColumns
    (tableId : Nat) : Nat → List Column → CatalogM Unit
  | _, [] => return ()
  | position, column :: rest => do
      change (Database.insertColumn
        { tableId := tableId
          position := position
          column := column })
      insertColumns tableId (position + 1) rest

/- `create_table` up to the last row of a column. -/
def storeTable
    (name : String)
    (schema : Schema) : CatalogM TableInfo := do
  if isSystemTable name = true then
    throw (reserved name)
  else
    match ← lookup (SystemTables.getTable · name) with
    | some _ => throw (catalogError
        s!"table {PythonText.repr name} already exists")
    | none => do
        let tableId ← takeObjectId
        let page ← takePage
        let row : TableRow :=
          { tableId := tableId
            name := name
            firstPage := page
            lastPage := page }
        change (Database.insertTable row)
        insertColumns tableId 0 schema.columns
        return SystemTables.newInfo row schema

section Indexes

variable [KeyTexts]

/- The loop of `create_index`; the pages that an insert into
   the tree takes are the next ones of the file. -/
def fillIndex
    (options : Indexing.TreeOptions)
    (known : Indexing.Column (List Codable) Binary64) :
    BPlusTree SortKey →
      List (RecordId × Version (List Codable)) →
      CatalogM (BPlusTree SortKey)
  | tree, [] => return tree
  | tree, (recordId, version) :: rest => do
      let db ← get
      let supply := List.range' db.pageCount
        (Indexing.maxDepth + 2)
      let built : Except EngineError (BPlusTree SortKey) := do
        let key ← Indexing.keyOf known version
        BPlusTree.insert options
          { tree with supply := supply } key recordId
      match built with
      | .error raised => throw (.engine raised)
      | .ok grown => do
          set { db with
            pageCount := db.pageCount +
              (supply.length - grown.supply.length) }
          fillIndex options known grown rest

/- `create_index` once a column is known: the tree, and the
   row that says where it is. -/
def buildIndex
    (name : String)
    (info : TableInfo)
    (position : Nat)
    (column : String)
    (unique : Bool) : CatalogM IndexInfo := do
  let dataType := (info.schema.columns.map
    Column.dataType).getD position .integer
  let indexId ← takeObjectId
  let root ← takePage
  let db ← get
  let tree ← fillIndex
    { name := name
      unique := unique
      pageSize := db.pageSize
      describe := KeyTexts.describe dataType }
    { name := column
      dataType := dataType
      value := fun row => row.getD position .null }
    (BPlusTree.create root) (db.records info.firstPage)
  change (Database.insertIndex
    { indexId := indexId
      tableId := info.tableId
      name := name
      position := position
      rootPage := tree.root
      isUnique := unique })
  lookup (SystemTables.requireIndex · name)

def createIndex
    (name table column : String)
    (unique : Bool) : CatalogM IndexInfo := do
  if isSystemTable name = true then
    throw (reserved name)
  else if
      (← lookup (SystemTables.getIndex · name)).isSome then
    throw (catalogError
      s!"index {PythonText.repr name} already exists")
  else if
      (← lookup (SystemTables.getTable · name)).isSome then
    throw (catalogError
      s!"{PythonText.repr name} is already a table name")
  else
    let info ← lookup (SystemTables.requireTable · table)
    if info.isSystem = true then
      throw (catalogError ("cannot index the system table " ++
        PythonText.repr info.name))
    else
      match info.schema.indexOf column with
      | none => throw (catalogError
          (s!"no column named {PythonText.repr column} in " ++
            s!"{PythonText.repr info.name}; it has " ++
            ", ".intercalate
              (info.schema.columns.map Column.name)))
      | some position =>
        buildIndex name info position column unique

def createTable
    (name : String)
    (schema : Schema) : CatalogM TableInfo := do
  let info ← storeTable name schema
  match schema.primaryKey with
  | none => return info
  | some key => do
      let _ ← createIndex (primaryKeyIndexName name) name
        key.name true
      lookup (SystemTables.requireTable · name)

--
-- Reached Databases
--

/- A heap whose first page has just been allocated. -/
def emptyHeap
    {ρ : Type}
    (pageSize : Nat)
    (page : PageId) : CatalogHeap ρ where
  firstPage := page
  lastPage := page
  room := pageSize - Storage.pageHeaderSize
  rows := []

/- `Catalog.bootstrap` in a new file: the meta page is the
   first, then a page for each system table. -/
def bootstrap (pageSize : Nat) : Database where
  pageSize := pageSize
  pageCount := 4
  nextObjectId := 100
  system := {
    tables := emptyHeap pageSize 1
    columns := emptyHeap pageSize 2
    indexes := emptyHeap pageSize 3 }
  records _ := []

/-
  What statements on rows do: versions come and go in the
  pages that are allocated, a heap that grew has its row
  written again, and so has a tree with another root.
-/
structure Written (before after : Database) : Prop where
  pageSize : after.pageSize = before.pageSize
  pageCount : before.pageCount ≤ after.pageCount
  nextObjectId : after.nextObjectId = before.nextObjectId
  columns : after.system.columns = before.system.columns
  tables : (after.system.tables.rows.map fun row =>
      (row.tableId, row.name)).Perm
    (before.system.tables.rows.map fun row =>
      (row.tableId, row.name))
  indexes : (after.system.indexes.rows.map fun row =>
      { row with rootPage := 0 }).Perm
    (before.system.indexes.rows.map fun row =>
      { row with rootPage := 0 })
  unallocated : ∀ page, after.pageCount ≤ page →
    after.records page = []

/- A rollback puts back what was reached before. -/
inductive Reached : Database → Prop where
  | bootstrapped (pageSize : Nat) :
      Reached (bootstrap pageSize)
  | tableCreated {db after info} (name : String)
      (schema : Schema) :
      Reached db →
      (createTable name schema).run db = .ok info after →
      Reached after
  | tableRefused {db after raised} (name : String)
      (schema : Schema) :
      Reached db →
      (createTable name schema).run db = .error raised after →
      Reached after
  | indexCreated {db after info}
      (name table column : String) (unique : Bool) :
      Reached db →
      (createIndex name table column unique).run db =
        .ok info after →
      Reached after
  | indexRefused {db after raised}
      (name table column : String) (unique : Bool) :
      Reached db →
      (createIndex name table column unique).run db =
        .error raised after →
      Reached after
  | written {db after} :
      Reached db → Written db after → Reached after

end Indexes

--
-- The Claim
--

namespace Database

/- A table as it reads back: its row, its schema and its
   stored versions. -/
def readBack (db : Database) :
    List (TableRow × Except CatalogRaise Schema ×
      List (RecordId × Version (List Codable))) :=
  db.system.tables.rows.map fun row =>
    (row, loadSchema db.system.columns.rows row.tableId,
      db.records row.firstPage)

end Database

/- What worked before still works. -/
def StillWorks
    {α : Type}
    (find : SystemTables → Except CatalogRaise α)
    (before after : Database) : Prop :=
  ∀ answer, find before.system = .ok answer →
    find after.system = .ok answer

/- The tables there are, with their schemas and rows, and
   what the lookups answer. -/
structure Unchanged (before after : Database) : Prop where
  tables : ∀ entry,
    entry ∈ after.readBack ↔ entry ∈ before.readBack
  getTable : ∀ name,
    StillWorks (SystemTables.getTable · name) before after
  requireTable : ∀ name,
    StillWorks (SystemTables.requireTable · name) before
      after
  listTables : ∀ includeSystem,
    StillWorks (SystemTables.listTables · includeSystem)
      before after
  getIndex : ∀ name,
    StillWorks (SystemTables.getIndex · name) before after
  requireIndex : ∀ name,
    StillWorks (SystemTables.requireIndex · name) before
      after
  listIndexes : ∀ table,
    StillWorks (SystemTables.listIndexes · table) before
      after

namespace Database

/- The row that `create_table` would write. -/
def tableRow (db : Database) (name : String) : TableRow where
  tableId := db.nextObjectId
  name := name
  firstPage := db.pageCount
  lastPage := db.pageCount

/- The page that the root of the first index would get. -/
def rootPage
    (db : Database)
    (name : String)
    (schema : Schema) : PageId :=
  match (storeTable name schema).run db with
  | .ok _ stored => stored.pageCount
  | .error _ _ => 0

/- The row of the index behind the key. -/
def keyIndexRow
    (db : Database)
    (name : String)
    (schema : Schema)
    (key : Column) : IndexRow where
  indexId := db.nextObjectId + 1
  tableId := db.nextObjectId
  name := primaryKeyIndexName name
  position := (schema.indexOf key.name).getD 0
  rootPage := db.rootPage name schema
  isUnique := true

end Database

/- The index behind the key cannot be created: its name is
   reserved or taken, the indexes cannot be read, or its row
   is too large for a page. -/
def KeyRefused
    (db : Database)
    (name : String)
    (schema : Schema)
    (key : Column) : Prop :=
  isSystemTable (primaryKeyIndexName name) = true ∨
    db.system.getIndex (primaryKeyIndexName name) ≠ .ok none ∨
    db.system.getTable (primaryKeyIndexName name) ≠ .ok none ∨
    ¬ Fits db.pageSize (db.keyIndexRow name schema key)

/- The row of the table goes in, and something after it does
   not. -/
structure FailsLate
    (db : Database)
    (name : String)
    (schema : Schema) : Prop where
  unreserved : isSystemTable name = false
  free : db.system.getTable name = .ok none
  fits : Fits db.pageSize (db.tableRow name)
  late : (∃ row ∈ columnRows db.nextObjectId 0
      schema.columns, ¬ Fits db.pageSize row) ∨
    ∃ key, schema.primaryKey = some key ∧
      KeyRefused db name schema key

--
-- Steps
--

section Steps

variable {α : Type} {P : Database → Prop}

omit [CaseFolding] [PythonText] in
theorem run_lookup
    (find : SystemTables → Except CatalogRaise α)
    (db : Database) :
    (lookup find).run db =
      match find db.system with
      | .ok answer => .ok answer db
      | .error raised => .error raised db := rfl

omit [CaseFolding] [PythonText] in
theorem lookup_keeps
    (find : SystemTables → Except CatalogRaise α) :
    Triple P (lookup find)
      (fun answer db => P db ∧ find db.system = .ok answer)
      (fun _ => P) := by
  intro db hDb
  rw [run_lookup]
  cases hFind : find db.system with
  | ok answer => exact ⟨hDb, hFind⟩
  | error raised => exact hDb

omit [CaseFolding] [PythonText] in
theorem run_change
    (next : Database → Except CatalogRaise Database)
    (db : Database) :
    (change next).run db =
      match next db with
      | .ok after => .ok () after
      | .error raised => .error raised db := rfl

omit [CaseFolding] [PythonText] in
/- A first part that raises ends the whole. -/
theorem run_bind_of_error
    {β : Type}
    {program : CatalogM α}
    {next : α → CatalogM β}
    {db after : Database}
    {raised : CatalogRaise}
    (hFirst : program.run db = .error raised after) :
    (program >>= next).run db = .error raised after := by
  rw [EStateM.run_bind, hFirst]

omit [CaseFolding] [PythonText] in
theorem change_spec
    {Q : Database → Prop}
    {next : Database → Except CatalogRaise Database}
    (hNext : ∀ db after, P db → next db = .ok after → Q after) :
    Triple P (change next) (fun _ => Q) (fun _ => P) := by
  intro db hDb
  rw [run_change]
  cases hRun : next db with
  | ok after => exact hNext db after hDb hRun
  | error raised => exact hDb

variable [KeyTexts] in
omit [CaseFolding] [PythonText] in
/- Building a tree takes pages and does nothing else. -/
theorem fillIndex_keeps
    (hGrows : ∀ db count, P db → db.pageCount ≤ count →
      P { db with pageCount := count })
    (options : Indexing.TreeOptions)
    (known : Indexing.Column (List Codable) Binary64)
    (tree : BPlusTree SortKey)
    (records : List (RecordId × Version (List Codable))) :
    Triple P (fillIndex options known tree records)
      (fun _ => P) (fun _ => P) := by
  induction records generalizing tree with
  | nil => exact Triple.pure fun _ h => h
  | cons record rest ih =>
    rcases record with ⟨recordId, version⟩
    unfold fillIndex
    refine Triple.read fun db hDb => ?_
    simp only
    split
    · refine Triple.throw fun current hCurrent => ?_
      rw [hCurrent]
      exact hDb
    · refine Triple.bind (Triple.set (Q := fun _ => P)
        fun _ _ => ?_) fun _ => ih _
      exact hGrows db _ hDb (Nat.le_add_right _ _)

end Steps

--
-- Ids
--

/- Every id was handed out, and only once. -/
structure Valid (db : Database) : Prop where
  nextObjectId : 100 ≤ db.nextObjectId
  nodup : (db.system.tables.rows.map TableRow.tableId).Nodup
  tables : ∀ row ∈ db.system.tables.rows,
    3 < row.tableId ∧ row.tableId < db.nextObjectId
  columns : ∀ row ∈ db.system.columns.rows,
    row.tableId < db.nextObjectId
  indexes : ∀ row ∈ db.system.indexes.rows,
    3 < row.tableId ∧ row.tableId < db.nextObjectId
  unallocated : ∀ page, db.pageCount ≤ page →
    db.records page = []

namespace Valid

variable {db : Database}

variable {count : Nat}

omit [CaseFolding] [PythonText] in
theorem grow
    (hValid : Valid db)
    {nextObjectId : Nat}
    (hCount : db.pageCount ≤ count)
    (hNext : db.nextObjectId ≤ nextObjectId) :
    Valid { db with
      pageCount := count
      nextObjectId := nextObjectId } where
  nextObjectId := Nat.le_trans hValid.nextObjectId hNext
  nodup := hValid.nodup
  tables row hRow :=
    ⟨(hValid.tables row hRow).1,
      Nat.lt_of_lt_of_le (hValid.tables row hRow).2 hNext⟩
  columns row hRow :=
    Nat.lt_of_lt_of_le (hValid.columns row hRow) hNext
  indexes row hRow :=
    ⟨(hValid.indexes row hRow).1,
      Nat.lt_of_lt_of_le (hValid.indexes row hRow).2 hNext⟩
  unallocated page hPage :=
    hValid.unallocated page (Nat.le_trans hCount hPage)

/- What an insert that went in did to the heap. -/
theorem insert_ok
    {ρ : Type} [CatalogRow ρ]
    {pageSize pageCount : Nat}
    {heap grown : CatalogHeap ρ}
    {row : ρ}
    (hInsert : heap.insert pageSize pageCount row =
      .ok (grown, count)) :
    grown.rows = heap.rows ++ [row] ∧ pageCount ≤ count := by
  by_cases hFits : Fits pageSize row
  · rcases heap.insert_fits hFits pageCount with
      ⟨grown', count', hInsert', hRows, hCount⟩
    rw [hInsert] at hInsert'
    cases hInsert'
    exact ⟨hRows, hCount⟩
  · rcases heap.insert_refused hFits pageCount with
      ⟨raised, hRaised⟩
    rw [hInsert] at hRaised
    cases hRaised

variable {after : Database}

theorem insertTable
    (hValid : Valid db)
    {row : TableRow}
    (hHigh : 3 < row.tableId)
    (hLow : row.tableId < db.nextObjectId)
    (hNew : ∀ other ∈ db.system.tables.rows,
      other.tableId ≠ row.tableId)
    (hInsert : db.insertTable row = .ok after) :
    Valid after := by
  rcases ok_of_bind hInsert with
    ⟨⟨heap, count⟩, hHeap, hEnd⟩
  cases hEnd
  rcases insert_ok hHeap with ⟨hRows, hCount⟩
  refine { hValid.grow hCount (Nat.le_refl _) with
    nodup := ?_, tables := ?_ }
  · change (heap.rows.map TableRow.tableId).Nodup
    rw [hRows, List.map_append, List.nodup_append]
    refine ⟨hValid.nodup, List.nodup_singleton _, ?_⟩
    intro first hFirst second hSecond
    rcases List.mem_map.mp hFirst with ⟨other, hOther, rfl⟩
    rw [List.mem_singleton.mp hSecond]
    exact hNew other hOther
  · change ∀ other ∈ heap.rows, _
    rw [hRows, List.forall_mem_append,
      List.forall_mem_singleton]
    exact ⟨hValid.tables, hHigh, hLow⟩

theorem insertColumn
    (hValid : Valid db)
    {row : ColumnRow}
    (hLow : row.tableId < db.nextObjectId)
    (hInsert : db.insertColumn row = .ok after) :
    Valid after ∧ after.nextObjectId = db.nextObjectId := by
  rcases ok_of_bind hInsert with
    ⟨⟨heap, count⟩, hHeap, hEnd⟩
  cases hEnd
  rcases insert_ok hHeap with ⟨hRows, hCount⟩
  refine ⟨{ hValid.grow hCount (Nat.le_refl _) with
    columns := ?_ }, rfl⟩
  change ∀ other ∈ heap.rows, _
  rw [hRows, List.forall_mem_append, List.forall_mem_singleton]
  exact ⟨hValid.columns, hLow⟩

theorem insertIndex
    (hValid : Valid db)
    {row : IndexRow}
    (hHigh : 3 < row.tableId)
    (hLow : row.tableId < db.nextObjectId)
    (hInsert : db.insertIndex row = .ok after) :
    Valid after := by
  rcases ok_of_bind hInsert with
    ⟨⟨heap, count⟩, hHeap, hEnd⟩
  cases hEnd
  rcases insert_ok hHeap with ⟨hRows, hCount⟩
  refine { hValid.grow hCount (Nat.le_refl _) with
    indexes := ?_ }
  change ∀ other ∈ heap.rows, _
  rw [hRows, List.forall_mem_append, List.forall_mem_singleton]
  exact ⟨hValid.indexes, hHigh, hLow⟩

omit [CaseFolding] [PythonText] in
theorem written
    (hValid : Valid db)
    (hWritten : Written db after) : Valid after := by
  have hIds : (after.system.tables.rows.map
      TableRow.tableId).Perm
        (db.system.tables.rows.map TableRow.tableId) := by
    simpa [Function.comp_def] using
      hWritten.tables.map Prod.fst
  have hOwners : (after.system.indexes.rows.map
      IndexRow.tableId).Perm
        (db.system.indexes.rows.map IndexRow.tableId) := by
    simpa [Function.comp_def] using
      hWritten.indexes.map IndexRow.tableId
  refine
    { nextObjectId := ?_, nodup := ?_, tables := ?_,
      columns := ?_, indexes := ?_,
      unallocated := hWritten.unallocated }
  · rw [hWritten.nextObjectId]
    exact hValid.nextObjectId
  · exact hIds.nodup_iff.mpr hValid.nodup
  · intro row hRow
    have hId := hIds.mem_iff.mp (List.mem_map_of_mem hRow)
    rcases List.mem_map.mp hId with ⟨other, hOther, hSame⟩
    rw [hWritten.nextObjectId, ← hSame]
    exact hValid.tables other hOther
  · rw [hWritten.columns, hWritten.nextObjectId]
    exact hValid.columns
  · intro row hRow
    have hId := hOwners.mem_iff.mp (List.mem_map_of_mem hRow)
    rcases List.mem_map.mp hId with ⟨other, hOther, hSame⟩
    rw [hWritten.nextObjectId, ← hSame]
    exact hValid.indexes other hOther

omit [CaseFolding] [PythonText] in
theorem bootstrap (pageSize : Nat) :
    Valid (bootstrap pageSize) where
  nextObjectId := Nat.le_refl 100
  nodup := List.nodup_nil
  tables _ hRow := nomatch hRow
  columns _ hRow := nomatch hRow
  indexes _ hRow := nomatch hRow
  unallocated _ _ := rfl

end Valid

variable {db : Database} {name : String} {info : TableInfo}

/- A table of a user, as a lookup gives it, has an id that
   was handed out. -/
theorem getTable_id
    (hValid : Valid db)
    (hGet : db.system.getTable name = .ok (some info))
    (hUser : info.isSystem = false) :
    3 < info.tableId ∧ info.tableId < db.nextObjectId := by
  unfold SystemTables.getTable at hGet
  cases hSystem : db.system.systemTable name with
  | some system =>
    rw [hSystem] at hGet
    cases hGet
    rw [SystemTables.systemTable_isSystem hSystem] at hUser
    cases hUser
  | none =>
    rw [hSystem] at hGet
    unfold SystemTables.scanForTable at hGet
    cases hFound : db.system.tables.rows.find? fun row =>
        decide (casefold row.name = casefold name) with
    | none =>
      rw [hFound] at hGet
      cases hGet
    | some row =>
      rw [hFound] at hGet
      change some <$> db.system.infoOf row = _ at hGet
      cases hInfo : db.system.infoOf row with
      | error raised =>
        rw [hInfo] at hGet
        cases hGet
      | ok found =>
        rw [hInfo] at hGet
        cases hGet
        rw [SystemTables.infoOf_tableId hInfo]
        exact hValid.tables row
          (List.mem_of_find?_eq_some hFound)

/- An id that was handed out, and that no table has yet. -/
structure Taken (tableId : Nat) (db : Database) : Prop where
  valid : Valid db
  high : 3 < tableId
  low : tableId < db.nextObjectId
  new : ∀ row ∈ db.system.tables.rows, row.tableId ≠ tableId

theorem insertColumns_keeps
    (tableId position : Nat)
    (columns : List Column) :
    Triple
      (fun db => Valid db ∧ tableId < db.nextObjectId)
      (insertColumns tableId position columns)
      (fun _ => Valid) (fun _ => Valid) := by
  induction columns generalizing position with
  | nil => exact Triple.pure fun _ h => h.1
  | cons column rest ih =>
    unfold insertColumns
    refine Triple.bind (Q := fun _ db =>
      Valid db ∧ tableId < db.nextObjectId) ?_
      fun _ => ih _
    refine (change_spec fun db after hDb hInsert => ?_).raises
      (fun _ _ h => h.1)
    rcases hDb.1.insertColumn hDb.2 hInsert with ⟨hValid, hNext⟩
    exact ⟨hValid, hNext ▸ hDb.2⟩

theorem storeTable_keeps
    (name : String)
    (schema : Schema) :
    Triple Valid (storeTable name schema)
      (fun _ => Valid) (fun _ => Valid) := by
  unfold storeTable
  refine Triple.ite (fun _ => Triple.throw fun _ h => h)
    fun _ => ?_
  refine Triple.bind (Q := fun _ => Valid)
    ((lookup_keeps _).weaken (fun _ h => h)
      (fun _ _ h => h.1) fun _ _ h => h) fun found => ?_
  cases found with
  | some info => exact Triple.throw fun _ h => h
  | none =>
    refine Triple.bind (Q := Taken) (fun db hValid =>
      ⟨hValid.grow (Nat.le_refl _) (Nat.le_succ _),
        Nat.lt_of_lt_of_le (by decide) hValid.nextObjectId,
        Nat.lt_succ_self _, fun row hRow =>
          Nat.ne_of_lt (hValid.tables row hRow).2⟩)
      fun tableId => ?_
    refine Triple.bind (Q := fun _ => Taken tableId)
      (fun db hTaken =>
        ⟨hTaken.valid.grow (Nat.le_succ _) (Nat.le_refl _),
          hTaken.high, hTaken.low, hTaken.new⟩)
      fun page => ?_
    refine Triple.bind (Q := fun _ db =>
      Valid db ∧ tableId < db.nextObjectId) ?_ fun _ => ?_
    · refine (change_spec
        (fun db after hTaken hInsert => ?_)).raises
        (fun _ _ h => h.valid)
      refine ⟨hTaken.valid.insertTable hTaken.high
        hTaken.low hTaken.new hInsert, ?_⟩
      rcases ok_of_bind hInsert with
        ⟨⟨heap, count⟩, _, hEnd⟩
      cases hEnd
      exact hTaken.low
    · exact Triple.bind (insertColumns_keeps _ _ _)
        fun _ => Triple.pure fun _ h => h

theorem requireTable_get
    {system : SystemTables}
    (hRequire : system.requireTable name = .ok info) :
    system.getTable name = .ok (some info) := by
  unfold SystemTables.requireTable at hRequire
  rcases ok_of_bind hRequire with ⟨found, hGet, hRest⟩
  cases found with
  | none =>
    rcases ok_of_bind hRest with ⟨tables, _, hThrow⟩
    cases hThrow
  | some other =>
    cases hRest
    exact hGet

variable [KeyTexts] in
theorem buildIndex_keeps
    (name : String)
    (info : TableInfo)
    (position : Nat)
    (column : String)
    (unique : Bool) :
    Triple
      (fun db => Valid db ∧ 3 < info.tableId ∧
        info.tableId < db.nextObjectId)
      (buildIndex name info position column unique)
      (fun _ => Valid) (fun _ => Valid) := by
  have hPages : ∀ db count,
      Valid db ∧ 3 < info.tableId ∧
        info.tableId < db.nextObjectId →
      db.pageCount ≤ count →
      Valid { db with pageCount := count } ∧
        3 < info.tableId ∧
          info.tableId < db.nextObjectId :=
    fun db count hDb hCount =>
      ⟨hDb.1.grow hCount (Nat.le_refl _), hDb.2⟩
  unfold buildIndex
  refine Triple.bind (Q := fun _ db => Valid db ∧
    3 < info.tableId ∧ info.tableId < db.nextObjectId)
    (fun db hDb => ?_) fun indexId => ?_
  · exact ⟨hDb.1.grow (Nat.le_refl _) (Nat.le_succ _),
      hDb.2.1, Nat.lt_succ_of_lt hDb.2.2⟩
  refine Triple.bind (Q := fun _ db => Valid db ∧
    3 < info.tableId ∧ info.tableId < db.nextObjectId)
    (fun db hDb => hPages db _ hDb (Nat.le_succ _))
    fun root => ?_
  refine Triple.read fun db hDb => ?_
  refine Triple.bind ((fillIndex_keeps hPages _ _ _ _).weaken
    (fun current hCurrent => hCurrent ▸ hDb)
    (fun _ _ h => h) (fun _ _ h => h.1)) fun tree => ?_
  refine Triple.bind ?_ fun _ =>
    (lookup_keeps _).weaken (fun _ h => h)
      (fun _ _ h => h.1) fun _ _ h => h
  refine (change_spec fun db after hDb hInsert => ?_).raises
    (fun _ _ h => h.1)
  exact hDb.1.insertIndex hDb.2.1 hDb.2.2 hInsert

variable [KeyTexts] in
theorem createIndex_keeps
    (name table column : String)
    (unique : Bool) :
    Triple Valid (createIndex name table column unique)
      (fun _ => Valid) (fun _ => Valid) := by
  have hLookup : ∀ {α : Type}
      (find : SystemTables → Except CatalogRaise α),
      Triple Valid (lookup find) (fun _ => Valid)
        (fun _ => Valid) := fun find =>
    (lookup_keeps find).weaken (fun _ h => h)
      (fun _ _ h => h.1) fun _ _ h => h
  unfold createIndex
  refine Triple.ite (fun _ => Triple.throw fun _ h => h)
    fun _ => ?_
  refine Triple.bind (hLookup _) fun index => ?_
  refine Triple.ite (fun _ => Triple.throw fun _ h => h)
    fun _ => ?_
  refine Triple.bind (hLookup _) fun other => ?_
  refine Triple.ite (fun _ => Triple.throw fun _ h => h)
    fun _ => ?_
  refine Triple.bind (lookup_keeps _) fun info => ?_
  refine Triple.ite
    (fun _ => Triple.throw fun _ h => h.1) fun hUser => ?_
  rw [Bool.not_eq_true] at hUser
  cases info.schema.indexOf column with
  | none => exact Triple.throw fun _ h => h.1
  | some position =>
    refine (buildIndex_keeps name info position column
      unique).weaken (fun db hDb => ?_) (fun _ _ h => h)
        fun _ _ h => h
    exact ⟨hDb.1, getTable_id hDb.1
      (requireTable_get hDb.2) hUser⟩

variable [KeyTexts] in
theorem createTable_keeps
    (name : String)
    (schema : Schema) :
    Triple Valid (createTable name schema)
      (fun _ => Valid) (fun _ => Valid) := by
  unfold createTable
  refine Triple.bind (storeTable_keeps name schema)
    fun info => ?_
  cases schema.primaryKey with
  | none => exact Triple.pure fun _ h => h
  | some key =>
    refine Triple.bind (createIndex_keeps _ _ _ _)
      fun _ => ?_
    exact (lookup_keeps _).weaken (fun _ h => h)
      (fun _ _ h => h.1) fun _ _ h => h

variable [KeyTexts] in
/- Whatever was called, the ids are in order. -/
theorem reached_valid
    (hReached : Reached db) : Valid db := by
  induction hReached with
  | bootstrapped pageSize => exact .bootstrap pageSize
  | tableCreated name schema _ hRun ih =>
    exact (createTable_keeps name schema).of_ok ih hRun
  | tableRefused name schema _ hRun ih =>
    exact (createTable_keeps name schema).of_error ih hRun
  | indexCreated name table column unique _ hRun ih =>
    exact (createIndex_keeps name table column unique).of_ok
      ih hRun
  | indexRefused name table column unique _ hRun ih =>
    exact (createIndex_keeps name table column
      unique).of_error ih hRun
  | written _ hWritten ih => exact ih.written hWritten

--
-- The Rows of a Table
--

section Storing

variable {db : Database} {name : String} {schema : Schema}

/- Rows of columns went in, and nothing else happened. -/
structure Columned
    (before after : Database)
    (rows : List ColumnRow) : Prop where
  pageSize : after.pageSize = before.pageSize
  nextObjectId : after.nextObjectId = before.nextObjectId
  tables : after.system.tables = before.system.tables
  indexes : after.system.indexes = before.system.indexes
  records : after.records = before.records
  columns : after.system.columns.rows =
    before.system.columns.rows ++ rows

variable {row : ColumnRow}

theorem insertColumn_fits
    (hFits : Fits db.pageSize row) :
    ∃ after, db.insertColumn row = .ok after ∧
      Columned db after [row] := by
  rcases db.system.columns.insert_fits hFits db.pageCount with
    ⟨heap, count, hInsert, hRows, _⟩
  unfold Database.insertColumn
  rw [hInsert]
  exact ⟨_, rfl, rfl, rfl, rfl, rfl, rfl, hRows⟩

theorem insertColumn_refused
    (hRefused : ¬ Fits db.pageSize row) :
    ∃ raised, db.insertColumn row = .error raised := by
  rcases db.system.columns.insert_refused hRefused
    db.pageCount with ⟨raised, hInsert⟩
  unfold Database.insertColumn
  rw [hInsert]
  exact ⟨raised, rfl⟩

variable {tableId position : Nat} {columns : List Column}

theorem insertColumns_fit
    (hFit : ∀ row ∈ columnRows tableId position columns,
      Fits db.pageSize row) :
    ∃ after,
      (insertColumns tableId position columns).run db =
        .ok () after ∧
      Columned db after
        (columnRows tableId position columns) := by
  induction columns generalizing db position with
  | nil =>
    exact ⟨db, rfl, rfl, rfl, rfl, rfl, rfl,
      (List.append_nil _).symm⟩
  | cons column rest ih =>
    rcases insertColumn_fits
        (hFit _ (.head _)) with
      ⟨middle, hInsert, hFirst⟩
    have hRest : ∀ row ∈ columnRows tableId (position + 1)
        rest, Fits middle.pageSize row := by
      intro row hRow
      rw [hFirst.pageSize]
      exact hFit row (.tail _ hRow)
    rcases ih hRest with ⟨after, hRun, hLater⟩
    refine ⟨after, ?_, ?_⟩
    · unfold insertColumns
      rw [EStateM.run_bind, run_change, hInsert]
      exact hRun
    · exact
        { pageSize := hLater.pageSize.trans hFirst.pageSize
          nextObjectId := hLater.nextObjectId.trans
            hFirst.nextObjectId
          tables := hLater.tables.trans hFirst.tables
          indexes := hLater.indexes.trans hFirst.indexes
          records := hLater.records.trans hFirst.records
          columns := by
            rw [hLater.columns, hFirst.columns,
              List.append_assoc]
            rfl }

theorem insertColumns_refused
    (hRow : row ∈ columnRows tableId position columns)
    (hRefused : ¬ Fits db.pageSize row) :
    ∃ raised after,
      (insertColumns tableId position columns).run db =
        .error raised after ∧
      after.system.tables = db.system.tables := by
  induction columns generalizing db position with
  | nil => cases hRow
  | cons column rest ih =>
    unfold insertColumns
    rw [EStateM.run_bind, run_change]
    by_cases hHere : Fits db.pageSize
        { tableId := tableId
          position := position
          column := column : ColumnRow }
    · rcases insertColumn_fits hHere with
        ⟨middle, hInsert, hFirst⟩
      rw [hInsert]
      rcases List.mem_cons.mp hRow with rfl | hLater
      · exact absurd hHere hRefused
      · rcases ih hLater (by rwa [hFirst.pageSize]) with
          ⟨raised, after, hRun, hTables⟩
        exact ⟨raised, after, hRun, hTables.trans hFirst.tables⟩
    · rcases insertColumn_refused hHere with
        ⟨raised, hInsert⟩
      rw [hInsert]
      exact ⟨raised, db, rfl, rfl⟩

/- The id and the page of a new table are taken. -/
def Database.opened (db : Database) : Database :=
  { db with
    nextObjectId := db.nextObjectId + 1
    pageCount := db.pageCount + 1 }

theorem storeTable_run
    (hUser : isSystemTable name = false)
    (hFree : db.system.getTable name = .ok none) :
    (storeTable name schema).run db =
      (do
        change (Database.insertTable (db.tableRow name))
        insertColumns db.nextObjectId 0 schema.columns
        return SystemTables.newInfo (db.tableRow name)
          schema : CatalogM TableInfo).run db.opened := by
  unfold storeTable
  rw [if_neg (by rw [hUser]; exact Bool.false_ne_true),
    EStateM.run_bind, run_lookup, hFree]
  rfl

/- What raises before the row of the table is in. -/
theorem storeTable_early
    (schema : Schema)
    (hEarly : isSystemTable name = true ∨
      db.system.getTable name ≠ .ok none ∨
      ¬ Fits db.pageSize (db.tableRow name)) :
    ∃ raised after,
      (storeTable name schema).run db = .error raised after ∧
      after.system = db.system ∧
      after.records = db.records := by
  by_cases hUser : isSystemTable name = true
  · unfold storeTable
    rw [if_pos hUser]
    exact ⟨_, db, rfl, rfl, rfl⟩
  · rw [Bool.not_eq_true] at hUser
    by_cases hFree : db.system.getTable name = .ok none
    · rw [storeTable_run hUser hFree]
      have hRefused : ¬ Fits db.opened.pageSize
          (db.tableRow name) :=
        (hEarly.resolve_left
          (by simp [hUser])).resolve_left
            (not_not_intro hFree)
      rcases db.opened.system.tables.insert_refused hRefused
        db.opened.pageCount with ⟨raised, hInsert⟩
      have hChange : db.opened.insertTable
          (db.tableRow name) = .error raised := by
        unfold Database.insertTable
        rw [hInsert]
        rfl
      rw [EStateM.run_bind, run_change, hChange]
      exact ⟨raised, db.opened, rfl, rfl, rfl⟩
    · unfold storeTable
      rw [if_neg (by rw [hUser]; exact Bool.false_ne_true),
        EStateM.run_bind, run_lookup]
      cases hGet : db.system.getTable name with
      | error raised => exact ⟨_, db, rfl, rfl, rfl⟩
      | ok found =>
        cases found with
        | none => exact absurd hGet hFree
        | some info => exact ⟨_, db, rfl, rfl, rfl⟩

/- The row of the table is in, whatever comes next. -/
theorem storeTable_placed
    (schema : Schema)
    (hUser : isSystemTable name = false)
    (hFree : db.system.getTable name = .ok none)
    (hFits : Fits db.pageSize (db.tableRow name)) :
    ∃ placed,
      (storeTable name schema).run db =
        (do
          insertColumns db.nextObjectId 0 schema.columns
          return SystemTables.newInfo (db.tableRow name)
            schema : CatalogM TableInfo).run placed ∧
      placed.pageSize = db.pageSize ∧
      placed.nextObjectId = db.nextObjectId + 1 ∧
      placed.system.tables.rows =
        db.system.tables.rows ++ [db.tableRow name] ∧
      placed.system.columns = db.system.columns ∧
      placed.system.indexes = db.system.indexes ∧
      placed.records = db.records := by
  have hOpened : Fits db.opened.pageSize
      (db.tableRow name) := hFits
  rcases db.opened.system.tables.insert_fits hOpened
    db.opened.pageCount with ⟨heap, count, hInsert, hRows, _⟩
  have hChange : db.opened.insertTable (db.tableRow name) =
      .ok { db.opened with
        pageCount := count
        system := { db.opened.system with
          tables := heap } } := by
    unfold Database.insertTable
    rw [hInsert]
    rfl
  rw [storeTable_run hUser hFree, EStateM.run_bind,
    run_change, hChange]
  exact ⟨_, rfl, rfl, rfl, hRows, rfl, rfl, rfl⟩

/- All the rows of the table are in. -/
structure StoredTable
    (db stored : Database)
    (name : String)
    (schema : Schema) : Prop where
  pageSize : stored.pageSize = db.pageSize
  nextObjectId : stored.nextObjectId = db.nextObjectId + 1
  records : stored.records = db.records
  adds : SystemTables.Adds db.system stored.system
    (db.tableRow name) schema

theorem storeTable_fits
    (hValid : Valid db)
    (hUser : isSystemTable name = false)
    (hFree : db.system.getTable name = .ok none)
    (hFits : Fits db.pageSize (db.tableRow name))
    (hColumns : ∀ row ∈ columnRows db.nextObjectId 0
      schema.columns, Fits db.pageSize row) :
    ∃ stored,
      (storeTable name schema).run db =
        .ok (SystemTables.newInfo (db.tableRow name) schema)
          stored ∧
      StoredTable db stored name schema := by
  rcases storeTable_placed schema hUser hFree
    hFits with ⟨placed, hRun, hSize, hNext, hTables,
      hSame, hIndexes, hRecords⟩
  have hPlaced : ∀ row ∈ columnRows db.nextObjectId 0
      schema.columns, Fits placed.pageSize row :=
    fun row hRow => hSize ▸ hColumns row hRow
  rcases insertColumns_fit hPlaced with
    ⟨stored, hInsert, hColumned⟩
  refine ⟨stored, ?_, ?_⟩
  · rw [hRun, EStateM.run_bind, hInsert]
    rfl
  · exact
      { pageSize := hColumned.pageSize.trans hSize
        nextObjectId := hColumned.nextObjectId.trans hNext
        records := hColumned.records.trans hRecords
        adds :=
          { tables := by rw [hColumned.tables, hTables]
            columns := by rw [hColumned.columns, hSame]; rfl
            indexes := hColumned.indexes.trans hIndexes
            nodup := hValid.nodup
            user := fun row hRow => (hValid.tables row hRow).1
            newTable := fun row hRow =>
              Nat.ne_of_lt (hValid.tables row hRow).2
            newColumns := fun row hRow =>
              Nat.ne_of_lt (hValid.columns row hRow)
            newIndexes := fun row hRow =>
              ⟨(hValid.indexes row hRow).1,
                Nat.ne_of_lt (hValid.indexes row hRow).2⟩
            userRow := Nat.lt_of_lt_of_le (by decide)
              hValid.nextObjectId } }

end Storing

--
-- The Index of the Key
--

section KeyIndex

variable [KeyTexts] {db stored : Database}
variable {name : String} {schema : Schema} {key : Column}

variable {info : TableInfo}

omit [KeyTexts] in
theorem rootPage_stored
    (hRun : (storeTable name schema).run db = .ok info stored) :
    db.rootPage name schema = stored.pageCount := by
  unfold Database.rootPage
  rw [hRun]

omit [KeyTexts] in
theorem keyIndexRow_column
    (hKey : schema.primaryKey = some key) :
    ∃ position column,
      schema.indexOf key.name = some position ∧
      schema.columns[position]? = some column := by
  rcases schema.indexOf_mem
      (List.mem_of_find?_eq_some hKey) with
    ⟨position, hIndex, hInside⟩
  exact ⟨position, schema.columns[position], hIndex,
    List.getElem?_eq_getElem hInside⟩

/- Over a table with no rows the tree is its root. -/
theorem buildIndex_empty
    (hEmpty : stored.records info.firstPage = [])
    (indexName column : String)
    (position : Nat)
    (unique : Bool) :
    (buildIndex indexName info position column unique).run
        stored =
      (do
        change (Database.insertIndex
          { indexId := stored.nextObjectId
            tableId := info.tableId
            name := indexName
            position := position
            rootPage := stored.pageCount
            isUnique := unique })
        lookup (SystemTables.requireIndex · indexName) :
        CatalogM IndexInfo).run stored.opened := by
  have hOpened : stored.opened.records info.firstPage = [] :=
    hEmpty
  unfold buildIndex
  have hId : takeObjectId.run stored =
      .ok stored.nextObjectId { stored with
        nextObjectId := stored.nextObjectId + 1 } := rfl
  have hPage : takePage.run { stored with
      nextObjectId := stored.nextObjectId + 1 } =
        .ok stored.pageCount stored.opened := rfl
  have hGet : (get : CatalogM Database).run stored.opened =
      .ok stored.opened stored.opened := rfl
  refine run_bind_of_ok hId (run_bind_of_ok hPage
    (run_bind_of_ok hGet ?_))
  refine @run_bind_of_ok _ _ _ _ _ _ _ stored.opened
    (BPlusTree.create stored.pageCount) _ ?_ rfl
  rw [hOpened]
  rfl

section IndexRun

variable
    (hValid : Valid db)
    (hFree : db.system.getTable name = .ok none)
    (hStored : StoredTable db stored name schema)
    (hRoot : db.rootPage name schema = stored.pageCount)
    (hKey : schema.primaryKey = some key)

include hValid hFree hStored hRoot hKey

/- With its name free, the index gets as far as its row. -/
theorem createIndex_run
    (hUser : isSystemTable (primaryKeyIndexName name) = false)
    (hIndex : db.system.getIndex (primaryKeyIndexName name) =
      .ok none)
    (hTable : db.system.getTable (primaryKeyIndexName name) =
      .ok none) :
    (createIndex (primaryKeyIndexName name) name key.name
        true).run stored =
      (do
        change (Database.insertIndex
          (db.keyIndexRow name schema key))
        lookup (SystemTables.requireIndex ·
          (primaryKeyIndexName name)) :
        CatalogM IndexInfo).run stored.opened := by
  rcases keyIndexRow_column hKey with
    ⟨position, column, hPosition, _⟩
  have hIndex' := (hStored.adds.getIndex
    (primaryKeyIndexName name)).trans hIndex
  have hTable' := (hStored.adds.getTable_none_iff
    (casefold_primaryKeyIndexName name).symm).mpr hTable
  have hRequire : stored.system.requireTable name = .ok
      (SystemTables.newInfo (db.tableRow name) schema) :=
    hStored.adds.requireTable_new hFree rfl rfl
  have hEmpty : stored.records (SystemTables.newInfo
      (db.tableRow name) schema).firstPage = [] := by
    change stored.records db.pageCount = []
    rw [hStored.records]
    exact hValid.unallocated _ (Nat.le_refl _)
  have hRow : db.keyIndexRow name schema key =
      { indexId := stored.nextObjectId
        tableId := db.nextObjectId
        name := primaryKeyIndexName name
        position := position
        rootPage := stored.pageCount
        isUnique := true } := by
    unfold Database.keyIndexRow
    rw [hPosition, hRoot, hStored.nextObjectId]
    rfl
  have hBuild := buildIndex_empty hEmpty
    (primaryKeyIndexName name) key.name position true
  unfold createIndex
  rw [if_neg (by simp [hUser]), EStateM.run_bind, run_lookup,
    hIndex']
  simp only [Option.isSome_none, Bool.false_eq_true, if_false]
  rw [EStateM.run_bind, run_lookup, hTable']
  simp only [Option.isSome_none, Bool.false_eq_true, if_false]
  rw [EStateM.run_bind, run_lookup, hRequire]
  simp only [SystemTables.newInfo, Bool.false_eq_true,
    if_false, hPosition]
  rw [hRow]
  exact hBuild

/- A reason that the index cannot be created raises, with the
   row of the table still there. -/
theorem createIndex_refused
    (hRefused : KeyRefused db name schema key) :
    ∃ raised after,
      (createIndex (primaryKeyIndexName name) name key.name
        true).run stored = .error raised after ∧
      after.system.tables = stored.system.tables := by
  by_cases hUser : isSystemTable
      (primaryKeyIndexName name) = true
  · unfold createIndex
    rw [if_pos hUser]
    exact ⟨_, stored, rfl, rfl⟩
  by_cases hIndex : db.system.getIndex
      (primaryKeyIndexName name) = .ok none
  · by_cases hTable : db.system.getTable
        (primaryKeyIndexName name) = .ok none
    · have hRun := createIndex_run hValid hFree hStored hRoot
        hKey (by simpa using hUser) hIndex hTable
      have hLarge : ¬ Fits stored.opened.pageSize
          (db.keyIndexRow name schema key) := by
        change ¬ Fits stored.pageSize _
        rw [hStored.pageSize]
        exact ((hRefused.resolve_left hUser).resolve_left
          (not_not_intro hIndex)).resolve_left
            (not_not_intro hTable)
      rcases stored.opened.system.indexes.insert_refused
        hLarge stored.opened.pageCount with ⟨raised, hInsert⟩
      have hChange : stored.opened.insertIndex
          (db.keyIndexRow name schema key) =
          .error raised := by
        unfold Database.insertIndex
        rw [hInsert]
        rfl
      have hStep : (change (Database.insertIndex
          (db.keyIndexRow name schema key))).run
            stored.opened = .error raised stored.opened := by
        rw [run_change, hChange]
      exact ⟨raised, stored.opened,
        hRun.trans (run_bind_of_error hStep), rfl⟩
    · have hTable' : stored.system.getTable
          (primaryKeyIndexName name) ≠ .ok none := fun hNone =>
        hTable ((hStored.adds.getTable_none_iff
          (casefold_primaryKeyIndexName name).symm).mp hNone)
      have hIndex' := (hStored.adds.getIndex
        (primaryKeyIndexName name)).trans hIndex
      unfold createIndex
      rw [if_neg hUser, EStateM.run_bind, run_lookup, hIndex']
      simp only [Option.isSome_none, Bool.false_eq_true,
        if_false]
      rw [EStateM.run_bind, run_lookup]
      cases hGet : stored.system.getTable
          (primaryKeyIndexName name) with
      | error raised => exact ⟨_, stored, rfl, rfl⟩
      | ok found =>
        cases found with
        | none => exact absurd hGet hTable'
        | some info =>
          simp only [Option.isSome_some, if_true]
          exact ⟨_, stored, rfl, rfl⟩
  · unfold createIndex
    rw [if_neg hUser, EStateM.run_bind, run_lookup,
      hStored.adds.getIndex]
    cases hGet : db.system.getIndex
        (primaryKeyIndexName name) with
    | error raised => exact ⟨_, stored, rfl, rfl⟩
    | ok found =>
      cases found with
      | none => exact absurd hGet hIndex
      | some info =>
        simp only [Option.isSome_some, if_true]
        exact ⟨_, stored, rfl, rfl⟩

/- With no such reason the index is created, and the table is
   found after it. -/
theorem createIndex_fits
    (hAccepted : ¬ KeyRefused db name schema key) :
    ∃ index after info,
      (createIndex (primaryKeyIndexName name) name key.name
        true).run stored = .ok index after ∧
      after.system.requireTable name = .ok info := by
  unfold KeyRefused at hAccepted
  push Not at hAccepted
  rcases hAccepted with ⟨hUser, hIndex, hTable, hFits⟩
  rcases keyIndexRow_column hKey with
    ⟨position, column, hPosition, hColumn⟩
  have hSmall : Fits stored.opened.pageSize
      (db.keyIndexRow name schema key) := by
    change Fits stored.pageSize _
    rw [hStored.pageSize]
    exact hFits
  rcases stored.opened.system.indexes.insert_fits hSmall
    stored.opened.pageCount with
    ⟨heap, count, hInsert, hRows, _⟩
  have hChange : stored.opened.insertIndex
      (db.keyIndexRow name schema key) =
      .ok { stored.opened with
        pageCount := count
        system := { stored.opened.system with
          indexes := heap } } := by
    unfold Database.insertIndex
    rw [hInsert]
    rfl
  have hColumn' : schema.columns[(db.keyIndexRow name schema
      key).position]? = some column := by
    change schema.columns[(schema.indexOf
      key.name).getD 0]? = _
    rw [hPosition]
    exact hColumn
  generalize hFinal : ({ stored.opened.system with
    indexes := heap } : SystemTables) = final at hChange
  have hFinal' : final.tables = stored.system.tables ∧
      final.columns = stored.system.columns ∧
      final.indexes = heap := by
    subst hFinal
    exact ⟨rfl, rfl, rfl⟩
  rcases hFinal' with ⟨hTables, hColumns, hIndexes⟩
  have hRequire : ∃ index, final.requireIndex
      (primaryKeyIndexName name) = .ok index := by
    have hNewRows : final.indexes.rows =
        stored.system.indexes.rows ++
          [db.keyIndexRow name schema key] := by
      rw [hIndexes]
      exact hRows
    have hNameFree : db.system.getIndex
        (db.keyIndexRow name schema key).name =
          .ok none := hIndex
    have hFound := hStored.adds.requireIndex_new hTables
      hColumns hNewRows rfl hColumn' hNameFree
    exact hFound
  rcases hRequire with ⟨index, hRequire⟩
  refine ⟨index, { stored.opened with
    pageCount := count
    system := final }, _, ?_,
    hStored.adds.requireTable_new hFree hTables hColumns⟩
  rw [createIndex_run hValid hFree hStored hRoot hKey
    (by simpa using hUser) hIndex hTable]
  refine run_bind_of_ok (by rw [run_change, hChange]) ?_
  rw [run_lookup]
  simp only [hRequire]

end IndexRun

end KeyIndex

--
-- All or Nothing
--

section AllOrNothing

variable [KeyTexts] {db after : Database}
variable {name : String} {schema : Schema}

omit [KeyTexts] in
theorem Unchanged.of_same
    (hSystem : after.system = db.system)
    (hRecords : after.records = db.records) :
    Unchanged db after := by
  have hWorks : ∀ {α : Type}
      (find : SystemTables → Except CatalogRaise α),
      StillWorks find db after := by
    intro α find answer hAnswer
    rw [hSystem]
    exact hAnswer
  refine ⟨fun entry => ?_, fun _ => hWorks _,
    fun _ => hWorks _, fun _ => hWorks _, fun _ => hWorks _,
    fun _ => hWorks _, fun _ => hWorks _⟩
  unfold Database.readBack
  rw [hSystem, hRecords]

omit [KeyTexts] in
/- A row with a new id is one more table. -/
theorem not_unchanged
    (hValid : Valid db)
    {row : TableRow}
    (hNew : row.tableId = db.nextObjectId)
    (hRow : row ∈ after.system.tables.rows) :
    ¬ Unchanged db after := by
  intro hUnchanged
  have hAfter := List.mem_map_of_mem (f := fun row =>
    (row, loadSchema after.system.columns.rows row.tableId,
      after.records row.firstPage)) hRow
  have hBefore := (hUnchanged.tables _).mp hAfter
  rcases List.mem_map.mp hBefore with ⟨other, hOld, hSame⟩
  have hRowSame : other = row := congrArg Prod.fst hSame
  have hLow := (hValid.tables other hOld).2
  rw [hRowSame, hNew] at hLow
  exact Nat.lt_irrefl _ hLow

theorem failsLate_raises
    (hValid : Valid db)
    (hLate : FailsLate db name schema) :
    ∃ raised after,
      (createTable name schema).run db = .error raised after ∧
      ¬ Unchanged db after := by
  rcases storeTable_placed schema hLate.unreserved
    hLate.free hLate.fits with ⟨placed, hRun, hSize, _,
      hTables, _, _, _⟩
  by_cases hColumns : ∀ row ∈ columnRows db.nextObjectId 0
      schema.columns, Fits db.pageSize row
  · rcases hLate.late with ⟨row, hRow, hRefused⟩ |
      ⟨key, hKey, hRefused⟩
    · exact absurd (hColumns row hRow) hRefused
    · rcases storeTable_fits hValid hLate.unreserved hLate.free
        hLate.fits hColumns with ⟨stored, hStore, hStored⟩
      rcases createIndex_refused hValid hLate.free hStored
        (rootPage_stored hStore) hKey hRefused with
        ⟨raised, after, hIndex, hAfter⟩
      have hRow : db.tableRow name ∈
          after.system.tables.rows := by
        rw [hAfter, hStored.adds.tables]
        exact List.mem_append_right _ (.head _)
      refine ⟨raised, after, run_bind_of_ok hStore ?_,
        not_unchanged hValid rfl hRow⟩
      rw [hKey]
      exact run_bind_of_error hIndex
  · push Not at hColumns
    rcases hColumns with ⟨row, hRow, hRefused⟩
    have hLarge : ¬ Fits placed.pageSize row := by
      rwa [hSize]
    rcases insertColumns_refused hRow hLarge with
      ⟨raised, after, hInsert, hAfter⟩
    have hThere : db.tableRow name ∈
        after.system.tables.rows := by
      rw [hAfter, hTables]
      exact List.mem_append_right _ (.head _)
    refine ⟨raised, after, run_bind_of_error ?_,
      not_unchanged hValid rfl hThere⟩
    rw [hRun]
    exact run_bind_of_error hInsert

theorem unchanged_of_raises
    (hValid : Valid db)
    (hOnTime : ¬ FailsLate db name schema)
    {raised : CatalogRaise}
    (hRun : (createTable name schema).run db =
      .error raised after) :
    Unchanged db after := by
  by_cases hEarly : isSystemTable name = true ∨
      db.system.getTable name ≠ .ok none ∨
      ¬ Fits db.pageSize (db.tableRow name)
  · rcases storeTable_early schema hEarly with
      ⟨raised', after', hStore, hSystem, hRecords⟩
    have hRun' : (createTable name schema).run db =
        .error raised' after' := run_bind_of_error hStore
    rw [hRun] at hRun'
    cases hRun'
    exact .of_same hSystem hRecords
  · push Not at hEarly
    rcases hEarly with ⟨hUser, hFree, hFits⟩
    have hUser' : isSystemTable name = false := by
      simpa using hUser
    have hColumns : ∀ row ∈ columnRows db.nextObjectId 0
        schema.columns, Fits db.pageSize row := by
      intro row hRow
      by_contra hRefused
      exact hOnTime ⟨hUser', hFree, hFits,
        .inl ⟨row, hRow, hRefused⟩⟩
    rcases storeTable_fits hValid hUser' hFree hFits hColumns
      with ⟨stored, hStore, hStored⟩
    have hReturned : ∃ info final,
        (createTable name schema).run db = .ok info final := by
      cases hKey : schema.primaryKey with
      | none =>
        refine ⟨SystemTables.newInfo (db.tableRow name)
          schema, stored, run_bind_of_ok hStore ?_⟩
        rw [hKey]
        rfl
      | some key =>
        have hAccepted : ¬ KeyRefused db name schema key :=
          fun hRefused => hOnTime ⟨hUser', hFree, hFits,
            .inr ⟨key, hKey, hRefused⟩⟩
        rcases createIndex_fits hValid hFree hStored
          (rootPage_stored hStore) hKey hAccepted with
          ⟨index, final, info, hIndex, hRequire⟩
        refine ⟨info, final, run_bind_of_ok hStore ?_⟩
        rw [hKey]
        refine run_bind_of_ok hIndex ?_
        rw [run_lookup, hRequire]
    rcases hReturned with ⟨info, final, hOk⟩
    rw [hRun] at hOk
    cases hOk

end AllOrNothing

end Tables

--
-- A Reserved Name
--

abbrev asciiFolding : CaseFolding where
  foldChar char := [char.toLower]
  ascii _ _ := rfl

abbrev plainTexts : KeyTexts where
  render _ := ""
  describe _ _ := ""
  decodeError _ := ""

section Reserved

attribute [local instance] asciiFolding
attribute [local instance] plainTexts
attribute [local instance] Serialization.asWritten

/- `id INTEGER PRIMARY KEY`. -/
def keyed : Schema where
  columns :=
    [{ required "id" .integer with primaryKey := true }]
  valid := rfl

/- The index behind the key would be `chendb_pkey`. -/
theorem chendb_failsLate :
    FailsLate (bootstrap 4096) "chendb" keyed where
  unreserved := by decide +kernel
  free := rfl
  fits := ⟨_, rfl, by decide +kernel⟩
  late := .inr ⟨_, rfl, .inl (by decide +kernel)⟩

theorem reserved_not_failsLate :
    ¬ FailsLate (bootstrap 4096) "chendb_t" keyed := by
  intro hLate
  have hUser := hLate.unreserved
  revert hUser
  decide +kernel

end Reserved

end Catalog

end ChenDB
