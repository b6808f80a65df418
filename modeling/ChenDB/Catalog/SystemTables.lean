import ChenDB.Indexing.KeyOrder
import ChenDB.Indexing.UniqueBuild
import ChenDB.Serialization.Record
import ChenDB.Library.Traversal
import Mathlib.Data.List.Sort

/-
  The catalog: a row for each table, one for each of its
  columns and one for each index, in three heaps of their own,
  and what a lookup reads back from them.
-/

--
-- Names
--

namespace ChenDB

namespace Catalog

open Indexing (DataType)
open Library.StateExcept (ok_of_bind)
open Library.Struct (Bytes)
open Library.Traversal (forall₂_of_mapM)
open Serialization (Codable PythonText RecordError
  encodeRecord)
open Storage (pageHeaderSize slotSize)

/-
  The table behind `str.casefold`: what each code point folds
  to. In ASCII that is its lower case.
-/
class CaseFolding where
  foldChar : Char → List Char
  ascii : ∀ char, char.toNat < 128 →
    foldChar char = [char.toLower]

variable [CaseFolding]

def casefold (name : String) : List Char :=
  name.toList.flatMap CaseFolding.foldChar

theorem casefold_append (first second : String) :
    casefold (first ++ second) =
      casefold first ++ casefold second := by
  simp [casefold]

/- `is_system_table`: a name beginning with `chendb_`. -/
def isSystemTable (name : String) : Bool :=
  "chendb_".toList.isPrefixOf (casefold name)

def primaryKeyIndexName (table : String) : String :=
  table ++ "_pkey"

/- No table has the name of an index behind its key. -/
theorem casefold_primaryKeyIndexName (name : String) :
    casefold (primaryKeyIndexName name) ≠ casefold name := by
  have hSuffix : casefold "_pkey" =
      ['_', 'p', 'k', 'e', 'y'] := by
    have hFold : ∀ char ∈ "_pkey".toList,
        CaseFolding.foldChar char = [char.toLower] := by
      intro char hChar
      apply CaseFolding.ascii
      have hAscii : ("_pkey".toList.all fun char =>
          decide (char.toNat < 128)) = true := by
        decide
      exact of_decide_eq_true
        (List.all_eq_true.mp hAscii char hChar)
    unfold casefold
    rw [List.flatMap_congr hFold]
    decide
  unfold primaryKeyIndexName
  rw [casefold_append, hSuffix]
  intro hSame
  have hLength := congrArg List.length hSame
  simp at hLength

--
-- Schemas
--

/- What the catalog raises, on its own or from encoding a
   row. -/
inductive CatalogRaise where
  | engine (error : EngineError)
  | record (error : RecordError)
deriving DecidableEq, Repr

structure Column where
  name : String
  dataType : DataType
  nullable : Bool
  primaryKey : Bool
deriving DecidableEq, Repr

section Schemas

variable [PythonText]

/- `Column.__post_init__`. -/
def Column.check
    (column : Column) : Except CatalogRaise Unit :=
  if column.name = "" then
    .error (.engine (.schemaError
      "column name must not be empty"))
  else if column.name.length > 64 then
    .error (.engine (.schemaError
      (s!"column name {PythonText.repr column.name} " ++
        "exceeds 64 characters")))
  else if column.primaryKey ∧ column.nullable then
    .error (.engine (.schemaError
      (s!"column {PythonText.repr column.name} is a " ++
        "primary key and therefore cannot be nullable")))
  else .ok ()

/- The first check of a column that raises. -/
def checkColumns :
    List Column → Except CatalogRaise Unit
  | [] => .ok ()
  | column :: rest => do
      column.check
      checkColumns rest

/- The loop of `Schema.__post_init__` over the names. -/
def checkDistinct :
    List (List Char) → List Column → Except CatalogRaise Unit
  | _, [] => .ok ()
  | seen, column :: rest =>
    if casefold column.name ∈ seen then
      .error (.engine (.schemaError
        (s!"duplicate column name " ++
          s!"{PythonText.repr column.name}")))
    else checkDistinct (casefold column.name :: seen) rest

def checkSchema
    (columns : List Column) : Except CatalogRaise Unit := do
  checkColumns columns
  if columns = [] then
    throw (.engine (.schemaError
      "a schema needs at least one column"))
  else
    checkDistinct [] columns
    if columns.countP Column.primaryKey > 1 then
      throw (.engine (.schemaError
        ("composite primary keys are not supported yet " ++
          "(Milestone 5)")))

/- Columns that every check has passed. -/
structure Schema where
  columns : List Column
  valid : checkSchema columns = .ok ()

/- `Schema(tuple(columns))`. -/
def Schema.of
    (columns : List Column) : Except CatalogRaise Schema :=
  match h : checkSchema columns with
  | .ok () => .ok ⟨columns, h⟩
  | .error raised => .error raised

theorem Schema.of_columns (schema : Schema) :
    Schema.of schema.columns = .ok schema := by
  unfold Schema.of
  split
  · rfl
  · rename_i raised hRaised
    rw [schema.valid] at hRaised
    cases hRaised

theorem Schema.columns_ne_nil (schema : Schema) :
    schema.columns ≠ [] := by
  intro hEmpty
  have hValid := schema.valid
  rw [hEmpty] at hValid
  cases hValid

theorem Schema.checked (schema : Schema) :
    checkColumns schema.columns = .ok () := by
  have hValid := schema.valid
  unfold checkSchema at hValid
  rcases ok_of_bind hValid with
    ⟨⟨⟩, hColumns, -⟩
  exact hColumns

def Schema.primaryKey (schema : Schema) : Option Column :=
  schema.columns.find? Column.primaryKey

/- `Schema.index_of`: the position of a column. -/
def Schema.indexOf
    (schema : Schema)
    (name : String) : Option Nat :=
  schema.columns.findIdx? fun column =>
    casefold column.name = casefold name

/- A column of the schema is found by its own name. -/
theorem Schema.indexOf_mem
    {schema : Schema}
    {column : Column}
    (hColumn : column ∈ schema.columns) :
    ∃ position, schema.indexOf column.name = some position ∧
      position < schema.columns.length := by
  unfold Schema.indexOf
  cases hFound : schema.columns.findIdx? fun other =>
      casefold other.name = casefold column.name with
  | none =>
    have hNone := List.findIdx?_eq_none_iff.mp hFound column
      hColumn
    simp at hNone
  | some position =>
    have hSome := List.findIdx?_eq_some_iff_getElem.mp
      hFound
    exact ⟨position, rfl, hSome.1⟩

end Schemas

--
-- Rows
--

/- `DataType` as the integer a row keeps. -/
def typeId : DataType → Int
  | .integer => 1
  | .float => 2
  | .boolean => 3
  | .text => 4

structure TableRow where
  tableId : Nat
  name : String
  firstPage : PageId
  lastPage : PageId
deriving DecidableEq, Repr

structure ColumnRow where
  tableId : Nat
  position : Nat
  column : Column
deriving DecidableEq, Repr

structure IndexRow where
  indexId : Nat
  tableId : Nat
  name : String
  position : Nat
  rootPage : PageId
  isUnique : Bool
deriving DecidableEq, Repr

def required
    (name : String)
    (dataType : DataType) : Column where
  name := name
  dataType := dataType
  nullable := false
  primaryKey := false

/- Names in lower case fold to themselves. -/
theorem casefold_of_lower
    {name : String}
    (hLower : ∀ char ∈ name.toList,
      char.toNat < 128 ∧ char.toLower = char) :
    casefold name = name.toList := by
  have hFold : ∀ char ∈ name.toList,
      CaseFolding.foldChar char = [char] := by
    intro char hChar
    rcases hLower char hChar with ⟨hAscii, hSame⟩
    rw [CaseFolding.ascii char hAscii, hSame]
  unfold casefold
  rw [List.flatMap_congr hFold]
  simp

section Rows

variable [PythonText]

variable {columns : List Column}

theorem checkSchema_of_lower
    (hChecks : checkColumns columns = .ok ())
    (hNonempty : columns ≠ [])
    (hKeys : columns.countP Column.primaryKey ≤ 1)
    (hPlain : columns.all (fun column =>
      column.name.toList.all fun char =>
        decide (char.toNat < 128 ∧ char.toLower = char)) = true)
    (hApart : (columns.map Column.name).Nodup) :
    checkSchema columns = .ok () := by
  have hLower : ∀ column ∈ columns,
      ∀ char ∈ column.name.toList,
        char.toNat < 128 ∧ char.toLower = char := by
    simpa only [List.all_eq_true, decide_eq_true_eq]
      using hPlain
  have hDistinct : ∀ seen : List (List Char),
      (∀ column ∈ columns, column.name.toList ∉ seen) →
        checkDistinct seen columns = .ok () := by
    clear hChecks hNonempty hKeys hPlain
    induction columns with
    | nil => exact fun _ _ => rfl
    | cons column rest ih =>
      intro seen hUnseen
      rw [List.map_cons, List.nodup_cons] at hApart
      have hHere := casefold_of_lower
        (hLower column (.head _))
      rw [checkDistinct, hHere,
        if_neg (hUnseen column (.head _))]
      refine ih hApart.2 (fun other hOther => hLower other
        (.tail _ hOther)) _ ?_
      intro other hOther hSeen
      rcases List.mem_cons.mp hSeen with hSame | hBefore
      · exact hApart.1 (List.mem_map.mpr
          ⟨other, hOther, String.toList_inj.mp hSame⟩)
      · exact hUnseen other
          (.tail _ hOther) hBefore
  unfold checkSchema
  rw [hChecks]
  simp only [bind, Except.bind, if_neg hNonempty]
  rw [hDistinct [] (fun _ _ hNever => by cases hNever)]
  simp only [if_neg (Nat.not_lt.mpr hKeys)]
  rfl

def tablesTableSchema : Schema where
  columns :=
    [{ required "table_id" .integer with primaryKey := true },
     required "name" .text,
     required "first_page" .integer,
     required "last_page" .integer]
  valid := checkSchema_of_lower rfl (by decide) (by decide)
    (by decide) (by decide)

def columnsTableSchema : Schema where
  columns :=
    [required "table_id" .integer, required "position" .integer,
     required "name" .text,
     required "type_id" .integer,
     required "nullable" .boolean,
     required "primary_key" .boolean]
  valid := checkSchema_of_lower rfl (by decide) (by decide)
    (by decide) (by decide)

def indexesTableSchema : Schema where
  columns :=
    [{ required "index_id" .integer with primaryKey := true },
     required "table_id" .integer,
     required "name" .text,
     required "column_position" .integer,
     required "root_page" .integer,
     required "is_unique" .boolean]
  valid := checkSchema_of_lower rfl (by decide) (by decide)
    (by decide) (by decide)

/- What the codec of records needs of a schema. -/
def Schema.layout (schema : Schema) :
    Serialization.Schema where
  columns := schema.columns.map fun column =>
    { name := column.name
      dataType := column.dataType
      nullable := column.nullable }
  nonempty hEmpty :=
    schema.columns_ne_nil (List.map_eq_nil_iff.mp hEmpty)

/- A row of a system table, as the values that are stored
   and come back. -/
class CatalogRow (ρ : Type) where
  schema : Schema
  values : ρ → List Codable
  stored : ∀ row, Serialization.storedRow
    schema.layout.columns (values row) = values row

instance tableRowValues : CatalogRow TableRow where
  schema := tablesTableSchema
  values row :=
    [.int row.tableId, .text row.name, .int row.firstPage,
     .int row.lastPage]
  stored _ := rfl

instance columnRowValues : CatalogRow ColumnRow where
  schema := columnsTableSchema
  values row :=
    [.int row.tableId, .int row.position,
     .text row.column.name, .int (typeId row.column.dataType),
     .bool row.column.nullable, .bool row.column.primaryKey]
  stored _ := rfl

instance indexRowValues : CatalogRow IndexRow where
  schema := indexesTableSchema
  values row :=
    [.int row.indexId, .int row.tableId, .text row.name,
     .int row.position, .int row.rootPage,
     .bool row.isUnique]
  stored _ := rfl

variable {ρ : Type} [CatalogRow ρ]

def encodeRow (row : ρ) : Except RecordError Bytes :=
  encodeRecord (CatalogRow.schema ρ).layout
    (CatalogRow.values row)

/- `Page.max_payload_size`. -/
def maxPayload (pageSize : Nat) : Nat :=
  pageSize - pageHeaderSize - slotSize

/-
  A heap of the catalog: its rows in the order of a scan, and
  how many bytes its last page still has for a row and the
  slot of it.
-/
structure CatalogHeap (ρ : Type) where
  firstPage : PageId
  lastPage : PageId
  room : Nat
  rows : List ρ

/- `heap.insert(encode_record(...))`, and the pages of the
   file after it. -/
def CatalogHeap.insert
    (pageSize pageCount : Nat)
    (heap : CatalogHeap ρ)
    (row : ρ) :
    Except CatalogRaise (CatalogHeap ρ × Nat) := do
  let payload ← (encodeRow row).mapError .record
  if payload.length > maxPayload pageSize then
    throw (.engine (.recordTooLarge
      (s!"record of {payload.length} bytes exceeds the " ++
        s!"{maxPayload pageSize}-byte maximum for a " ++
        s!"{pageSize}-byte page. Real systems store " ++
        "oversized values out of line (PostgreSQL TOAST, " ++
        "SQLite overflow pages); ChenDB does not yet.")))
  else if payload.length + slotSize ≤ heap.room then
    return (
      { heap with
        room := heap.room - (payload.length + slotSize)
        rows := heap.rows ++ [row] }, pageCount)
  else
    -- `_extend`: the row starts a page of its own.
    return (
      { heap with
        lastPage := pageCount
        room := maxPayload pageSize - payload.length
        rows := heap.rows ++ [row] }, pageCount + 1)

/- The row goes in: it can be encoded, and an empty page has
   the space for it. -/
def Fits (pageSize : Nat) (row : ρ) : Prop :=
  ∃ payload, encodeRow row = .ok payload ∧
    payload.length ≤ maxPayload pageSize

variable {pageSize : Nat} {row : ρ}

theorem CatalogHeap.insert_fits
    (hFits : Fits pageSize row)
    (pageCount : Nat)
    (heap : CatalogHeap ρ) :
    ∃ grown count,
      heap.insert pageSize pageCount row = .ok (grown, count) ∧
      grown.rows = heap.rows ++ [row] ∧
      pageCount ≤ count := by
  rcases hFits with ⟨payload, hEncode, hSmall⟩
  unfold CatalogHeap.insert
  rw [hEncode]
  simp only [Except.mapError, bind, Except.bind,
    if_neg (Nat.not_lt.mpr hSmall)]
  split
  · exact ⟨_, _, rfl, rfl, Nat.le_refl _⟩
  · exact ⟨_, _, rfl, rfl, Nat.le_succ _⟩

theorem CatalogHeap.insert_refused
    (hRefused : ¬ Fits pageSize row)
    (pageCount : Nat)
    (heap : CatalogHeap ρ) :
    ∃ raised,
      heap.insert pageSize pageCount row = .error raised := by
  unfold CatalogHeap.insert
  cases hEncode : encodeRow row with
  | error raised => exact ⟨_, rfl⟩
  | ok payload =>
    have hLarge : payload.length > maxPayload pageSize := by
      refine Nat.lt_of_not_le fun hSmall => ?_
      exact hRefused ⟨payload, hEncode, hSmall⟩
    simp only [Except.mapError, bind, Except.bind,
      if_pos hLarge]
    exact ⟨_, rfl⟩

--
-- Lookups
--

/-
  What the catalog keeps in its pages. The dictionaries of a
  `Catalog` remember what the functions below read there, and
  are left out: this is the catalog as a reopened file has it.
-/
structure SystemTables where
  tables : CatalogHeap TableRow
  columns : CatalogHeap ColumnRow
  indexes : CatalogHeap IndexRow

structure TableInfo where
  tableId : Nat
  name : String
  schema : Schema
  firstPage : PageId
  lastPage : PageId
  isSystem : Bool

structure IndexInfo where
  indexId : Nat
  name : String
  tableName : String
  tableId : Nat
  columnPosition : Nat
  columnName : String
  dataType : DataType
  rootPage : PageId
  unique : Bool

def corrupt (message : String) : CatalogRaise :=
  .engine (.corruptDatabase message)

def catalogError (message : String) : CatalogRaise :=
  .engine (.catalogError message)

/- `_load_schema`: the columns of a table, by position. -/
def loadSchema
    (columns : List ColumnRow)
    (tableId : Nat) : Except CatalogRaise Schema := do
  let found := columns.filter fun row =>
    decide (row.tableId = tableId)
  checkColumns (found.map ColumnRow.column)
  if found = [] then
    throw (corrupt (s!"table {tableId} has a " ++
      "chendb_tables row but no columns"))
  else
    let sorted := found.insertionSort fun first second =>
      first.position ≤ second.position
    let positions := sorted.map ColumnRow.position
    if positions ≠ List.range positions.length then
      throw (corrupt (s!"table {tableId} has " ++
        s!"non-contiguous column positions {positions}"))
    else Schema.of (sorted.map ColumnRow.column)

namespace SystemTables

/- `_system_table_info`. -/
def systemTable
    (system : SystemTables)
    (name : String) : Option TableInfo :=
  if casefold name = "chendb_tables".toList then
    some {
      tableId := 1
      name := "chendb_tables"
      schema := tablesTableSchema
      firstPage := system.tables.firstPage
      lastPage := system.tables.lastPage
      isSystem := true }
  else if casefold name = "chendb_columns".toList then
    some {
      tableId := 2
      name := "chendb_columns"
      schema := columnsTableSchema
      firstPage := system.columns.firstPage
      lastPage := system.columns.lastPage
      isSystem := true }
  else if casefold name = "chendb_indexes".toList then
    some {
      tableId := 3
      name := "chendb_indexes"
      schema := indexesTableSchema
      firstPage := system.indexes.firstPage
      lastPage := system.indexes.lastPage
      isSystem := true }
  else none

/- The table of a row, with its columns. -/
def infoOf
    (system : SystemTables)
    (row : TableRow) : Except CatalogRaise TableInfo := do
  let schema ← loadSchema system.columns.rows row.tableId
  return {
    tableId := row.tableId
    name := row.name
    schema := schema
    firstPage := row.firstPage
    lastPage := row.lastPage
    isSystem := false }

/- `_scan_for_table`: the first row with the name. -/
def scanForTable
    (system : SystemTables)
    (folded : List Char) :
    Except CatalogRaise (Option TableInfo) :=
  match system.tables.rows.find? fun row =>
      decide (casefold row.name = folded) with
  | none => .ok none
  | some row => some <$> system.infoOf row

def getTable
    (system : SystemTables)
    (name : String) :
    Except CatalogRaise (Option TableInfo) :=
  match system.systemTable name with
  | some info => .ok (some info)
  | none => system.scanForTable (casefold name)

def listTables
    (system : SystemTables)
    (includeSystem : Bool) :
    Except CatalogRaise (List TableInfo) := do
  let user ← system.tables.rows.mapM system.infoOf
  let sorted := user.insertionSort fun first second =>
    casefold first.name ≤ casefold second.name
  if includeSystem then
    return sorted ++
      ["chendb_tables", "chendb_columns",
        "chendb_indexes"].filterMap system.systemTable
  else return sorted

/- `", ".join(names) or "none"`. -/
def known (names : List String) : String :=
  if ", ".intercalate names = "" then "none"
  else ", ".intercalate names

def requireTable
    (system : SystemTables)
    (name : String) : Except CatalogRaise TableInfo := do
  match ← system.getTable name with
  | some info => return info
  | none => do
      let tables ← system.listTables false
      throw (catalogError
        (s!"no table named {PythonText.repr name}; this " ++
          "database has " ++
          known (tables.map TableInfo.name)))

/- The dictionary `tables_by_id`, where the last table with
   an id is the one that counts. -/
def ownerOf
    (tables : List TableInfo)
    (tableId : Nat) : Option TableInfo :=
  tables.reverse.find? fun info =>
    decide (info.tableId = tableId)

/- The loop body of `_index_map`. -/
def indexOf
    (tables : List TableInfo)
    (row : IndexRow) : Except CatalogRaise IndexInfo :=
  match ownerOf tables row.tableId with
  | none => .error (corrupt
      (s!"index {PythonText.repr row.name} references " ++
        s!"table {row.tableId}, which does not exist"))
  | some owner =>
    match owner.schema.columns[row.position]? with
    | none => .error (corrupt
        (s!"index {PythonText.repr row.name} references " ++
          s!"column {row.position} of " ++
          s!"{PythonText.repr owner.name}, which has " ++
          s!"{owner.schema.columns.length} columns"))
    | some column => .ok
        { indexId := row.indexId
          name := row.name
          tableName := owner.name
          tableId := owner.tableId
          columnPosition := row.position
          columnName := column.name
          dataType := column.dataType
          rootPage := row.rootPage
          unique := row.isUnique }

/- `found[key] = info` on a dictionary that keeps the order
   of its keys. -/
def put
    (indexes : List (List Char × IndexInfo))
    (info : IndexInfo) : List (List Char × IndexInfo) :=
  if casefold info.name ∈ indexes.map Prod.fst then
    indexes.map fun entry =>
      if entry.1 = casefold info.name then (entry.1, info)
      else entry
  else indexes ++ [(casefold info.name, info)]

/- The loop of `_index_map`. -/
def loadIndexes
    (tables : List TableInfo) :
    List (List Char × IndexInfo) → List IndexRow →
      Except CatalogRaise (List (List Char × IndexInfo))
  | indexes, [] => .ok indexes
  | indexes, row :: rest => do
      let info ← indexOf tables row
      loadIndexes tables (put indexes info) rest

def indexMap
    (system : SystemTables) :
    Except CatalogRaise (List (List Char × IndexInfo)) := do
  let tables ← system.listTables true
  loadIndexes tables [] system.indexes.rows

def getIndex
    (system : SystemTables)
    (name : String) :
    Except CatalogRaise (Option IndexInfo) := do
  let indexes ← system.indexMap
  return indexes.lookup (casefold name)

def listIndexes
    (system : SystemTables)
    (table : Option String) :
    Except CatalogRaise (List IndexInfo) := do
  let indexes ← system.indexMap
  let all := indexes.map Prod.snd
  let chosen ← match table with
    | none => pure all
    | some name => do
        let info ← system.requireTable name
        pure (all.filter fun index =>
          casefold index.tableName = casefold info.name)
  return chosen.insertionSort fun first second =>
    casefold first.name ≤ casefold second.name

def requireIndex
    (system : SystemTables)
    (name : String) : Except CatalogRaise IndexInfo := do
  match ← system.getIndex name with
  | some index => return index
  | none => do
      let indexes ← system.listIndexes none
      throw (catalogError
        (s!"no index named {PythonText.repr name}; this " ++
          "database has " ++
          known (indexes.map IndexInfo.name)))

end SystemTables

--
-- A Table Is Added
--

/- The rows of the columns of a table, from a position on. -/
def columnRows
    (tableId : Nat) : Nat → List Column → List ColumnRow
  | _, [] => []
  | position, column :: rest =>
    { tableId := tableId
      position := position
      column := column } ::
      columnRows tableId (position + 1) rest

omit [CaseFolding] [PythonText] in
theorem columnRows_columns
    (tableId position : Nat)
    (columns : List Column) :
    (columnRows tableId position columns).map
      ColumnRow.column = columns := by
  induction columns generalizing position with
  | nil => rfl
  | cons column rest ih => rw [columnRows, List.map_cons, ih]

omit [CaseFolding] [PythonText] in
theorem columnRows_positions
    (tableId position : Nat)
    (columns : List Column) :
    (columnRows tableId position columns).map
      ColumnRow.position =
        List.range' position columns.length := by
  induction columns generalizing position with
  | nil => rfl
  | cons column rest ih =>
    rw [columnRows, List.map_cons, ih, List.length_cons,
      List.range'_succ]

variable {tableId : Nat}

omit [CaseFolding] [PythonText] in
theorem tableId_of_columnRows
    {position : Nat}
    {row : ColumnRow}
    (hRow : row ∈ columnRows tableId position columns) :
    row.tableId = tableId := by
  induction columns generalizing position with
  | nil => cases hRow
  | cons column rest ih =>
    rcases List.mem_cons.mp hRow with rfl | hRest
    · rfl
    · exact ih hRest

theorem loadSchema_append
    {columns added : List ColumnRow}
    (hOthers : ∀ row ∈ added, row.tableId ≠ tableId) :
    loadSchema (columns ++ added) tableId =
      loadSchema columns tableId := by
  have hNone : (added.filter fun row =>
      decide (row.tableId = tableId)) = [] := by
    refine List.filter_eq_nil_iff.mpr fun row hRow => ?_
    simpa using hOthers row hRow
  unfold loadSchema
  rw [List.filter_append, hNone, List.append_nil]

/- The rows of a table read back as its schema. -/
theorem loadSchema_columnRows
    {columns : List ColumnRow}
    (hNew : ∀ row ∈ columns, row.tableId ≠ tableId)
    (schema : Schema) :
    loadSchema
        (columns ++ columnRows tableId 0 schema.columns)
        tableId =
      .ok schema := by
  have hFound : ((columns ++ columnRows tableId 0
      schema.columns).filter fun row =>
        decide (row.tableId = tableId)) =
      columnRows tableId 0 schema.columns := by
    rw [List.filter_append, List.filter_eq_nil_iff.mpr
      fun row hRow => by simpa using hNew row hRow,
      List.nil_append]
    refine List.filter_eq_self.mpr fun row hRow => ?_
    simpa using tableId_of_columnRows hRow
  have hSorted : (columnRows tableId 0
      schema.columns).insertionSort
        (fun first second =>
          first.position ≤ second.position) =
      columnRows tableId 0 schema.columns := by
    refine List.Pairwise.insertionSort_eq ?_
    rw [← List.pairwise_map (R := (· ≤ ·)),
      columnRows_positions]
    exact List.pairwise_le_range'
  have hNonempty : columnRows tableId 0 schema.columns ≠
      [] := by
    intro hEmpty
    have hColumns := congrArg (List.map ColumnRow.column)
      hEmpty
    rw [columnRows_columns] at hColumns
    exact schema.columns_ne_nil hColumns
  unfold loadSchema
  rw [hFound]
  simp only [columnRows_columns, schema.checked, bind,
    Except.bind, if_neg hNonempty, hSorted,
    columnRows_positions, List.length_range',
    List.range_eq_range', ne_eq, not_true_eq_false,
    if_false]
  exact schema.of_columns

namespace SystemTables

/- The rows of one more table are in, and its id is new. -/
structure Adds
    (before after : SystemTables)
    (row : TableRow)
    (schema : Schema) : Prop where
  tables : after.tables.rows = before.tables.rows ++ [row]
  columns : after.columns.rows = before.columns.rows ++
    columnRows row.tableId 0 schema.columns
  indexes : after.indexes = before.indexes
  nodup : (before.tables.rows.map TableRow.tableId).Nodup
  user : ∀ other ∈ before.tables.rows, 3 < other.tableId
  newTable : ∀ other ∈ before.tables.rows,
    other.tableId ≠ row.tableId
  newColumns : ∀ other ∈ before.columns.rows,
    other.tableId ≠ row.tableId
  newIndexes : ∀ other ∈ before.indexes.rows,
    3 < other.tableId ∧ other.tableId ≠ row.tableId
  userRow : 3 < row.tableId

/- The information on the new table. -/
def newInfo (row : TableRow) (schema : Schema) : TableInfo where
  tableId := row.tableId
  name := row.name
  schema := schema
  firstPage := row.firstPage
  lastPage := row.lastPage
  isSystem := false

section Adds

variable {before after : SystemTables}
variable {row : TableRow} {schema : Schema}

theorem Adds.infoOf_other
    (hAdds : Adds before after row schema)
    {other : TableRow}
    (hOther : other ∈ before.tables.rows) :
    after.infoOf other = before.infoOf other := by
  have hSame : loadSchema after.columns.rows other.tableId =
      loadSchema before.columns.rows other.tableId := by
    rw [hAdds.columns]
    refine loadSchema_append fun added hAdded => ?_
    rw [tableId_of_columnRows hAdded]
    exact (hAdds.newTable other hOther).symm
  unfold infoOf
  rw [hSame]

theorem Adds.infoOf_new
    (hAdds : Adds before after row schema) :
    after.infoOf row = .ok (newInfo row schema) := by
  have hLoad : loadSchema after.columns.rows row.tableId =
      .ok schema := by
    rw [hAdds.columns]
    exact loadSchema_columnRows hAdds.newColumns schema
  unfold infoOf
  rw [hLoad]
  rfl

/- What says that a name is free. -/
theorem getTable_none_iff
    (system : SystemTables)
    (name : String) :
    system.getTable name = .ok none ↔
      system.systemTable name = none ∧
        ∀ row ∈ system.tables.rows,
          casefold row.name ≠ casefold name := by
  unfold getTable scanForTable
  cases system.systemTable name with
  | some info => simp
  | none =>
    cases hFound : system.tables.rows.find? fun row =>
        decide (casefold row.name = casefold name) with
    | none => simpa using hFound
    | some row =>
      have hRow := List.mem_of_find?_eq_some hFound
      have hName := List.find?_some hFound
      constructor
      · intro hNone
        change some <$> system.infoOf row = _ at hNone
        cases hInfo : system.infoOf row with
        | error raised =>
          rw [hInfo] at hNone
          cases hNone
        | ok info =>
          rw [hInfo] at hNone
          cases hNone
      · intro hFree
        exact absurd (by simpa using hName)
          (hFree.2 row hRow)

/- Whether a name is that of a system table is not in the
   rows. -/
theorem systemTable_none_iff
    (system : SystemTables)
    (name : String) :
    system.systemTable name = none ↔
      casefold name ≠ "chendb_tables".toList ∧
        casefold name ≠ "chendb_columns".toList ∧
        casefold name ≠ "chendb_indexes".toList := by
  unfold systemTable
  constructor
  · intro hNone
    split at hNone
    · cases hNone
    · split at hNone
      · cases hNone
      · split at hNone
        · cases hNone
        · rename_i hTables hColumns hIndexes
          exact ⟨hTables, hColumns, hIndexes⟩
  · rintro ⟨hTables, hColumns, hIndexes⟩
    rw [if_neg hTables, if_neg hColumns, if_neg hIndexes]

variable {name : String}

/- Other names are as free as before. -/
theorem Adds.getTable_none_iff
    (hAdds : Adds before after row schema)
    (hOther : casefold row.name ≠ casefold name) :
    after.getTable name = .ok none ↔
      before.getTable name = .ok none := by
  rw [SystemTables.getTable_none_iff,
    SystemTables.getTable_none_iff, systemTable_none_iff,
    systemTable_none_iff, hAdds.tables]
  simp only [List.forall_mem_append, List.forall_mem_singleton]
  exact ⟨fun h => ⟨h.1, h.2.1⟩, fun h => ⟨h.1, h.2, hOther⟩⟩

variable {system other : SystemTables}

theorem infoOf_congr
    (hColumns : other.columns = system.columns) :
    other.infoOf = system.infoOf := by
  funext row
  unfold infoOf
  rw [hColumns]

variable {final : SystemTables}

/- The new table is found by its name. -/
theorem Adds.requireTable_new
    (hAdds : Adds before after row schema)
    (hFree : before.getTable row.name = .ok none)
    (hTables : final.tables = after.tables)
    (hColumns : final.columns = after.columns) :
    final.requireTable row.name =
      .ok (newInfo row schema) := by
  rcases (SystemTables.getTable_none_iff _ _).mp hFree with
    ⟨hUser, hNames⟩
  have hUser' : final.systemTable row.name = none :=
    (systemTable_none_iff _ _).mpr
      ((systemTable_none_iff _ _).mp hUser)
  have hFound : final.tables.rows.find? (fun other =>
      decide (casefold other.name = casefold row.name)) =
      some row := by
    rw [hTables, hAdds.tables, List.find?_append,
      List.find?_eq_none.mpr fun other hOther => by
        simpa using hNames other hOther]
    simp
  unfold requireTable getTable scanForTable
  rw [hUser', hFound]
  simp only [infoOf_congr hColumns, hAdds.infoOf_new]
  rfl

variable {rows : List TableRow}

/- The other tables are read as before. -/
theorem Adds.mapM_infoOf
    (hAdds : Adds before after row schema)
    (hRows : ∀ other ∈ rows, other ∈ before.tables.rows) :
    rows.mapM after.infoOf = rows.mapM before.infoOf := by
  induction rows with
  | nil => rfl
  | cons other rest ih =>
    rw [List.mapM_cons, List.mapM_cons,
      hAdds.infoOf_other (hRows other (.head _)),
      ih fun next hNext => hRows next
        (.tail _ hNext)]

theorem Adds.mapM_all
    (hAdds : Adds before after row schema) :
    after.tables.rows.mapM after.infoOf =
      (before.tables.rows.mapM before.infoOf >>= fun infos =>
        pure (infos ++ [newInfo row schema])) := by
  rw [hAdds.tables, List.mapM_append,
    hAdds.mapM_infoOf fun _ h => h]
  simp only [List.mapM_cons, List.mapM_nil, hAdds.infoOf_new]
  rfl

variable {info : TableInfo}

theorem systemTable_id
    (hInfo : system.systemTable name = some info) :
    info.tableId ≤ 3 := by
  unfold systemTable at hInfo
  split at hInfo
  · cases hInfo
    exact Nat.le_of_ble_eq_true rfl
  · split at hInfo
    · cases hInfo
      exact Nat.le_of_ble_eq_true rfl
    · split at hInfo
      · cases hInfo
        exact Nat.le_refl 3
      · cases hInfo

theorem systemTable_isSystem
    (hInfo : system.systemTable name = some info) :
    info.isSystem = true := by
  unfold systemTable at hInfo
  split at hInfo
  · cases hInfo
    rfl
  · split at hInfo
    · cases hInfo
      rfl
    · split at hInfo
      · cases hInfo
        rfl
      · cases hInfo

variable {infos : List TableInfo}

/- The tables of users in a listing. -/
theorem listTables_user
    (hInfos : system.tables.rows.mapM system.infoOf =
      .ok infos) :
    ∃ tables, system.listTables true = .ok tables ∧
      ∀ info, 3 < info.tableId →
        (info ∈ tables ↔ info ∈ infos) := by
  unfold listTables
  rw [hInfos]
  refine ⟨_, rfl, fun info hUser => ?_⟩
  rw [List.mem_append, List.mem_insertionSort]
  constructor
  · rintro (hInfo | hSystem)
    · exact hInfo
    · rcases List.mem_filterMap.mp hSystem with
        ⟨name, _, hName⟩
      exact absurd (systemTable_id hName)
        (Nat.not_le.mpr hUser)
  · exact .inl

theorem infoOf_tableId
    {row : TableRow}
    (hInfo : system.infoOf row = .ok info) :
    info.tableId = row.tableId := by
  unfold infoOf at hInfo
  rcases ok_of_bind hInfo with ⟨schema, _, hRest⟩
  cases hRest
  rfl

theorem infos_tableIds
    (hInfos : rows.mapM system.infoOf = .ok infos) :
    infos.map TableInfo.tableId =
      rows.map TableRow.tableId := by
  have hEach := forall₂_of_mapM hInfos
  clear hInfos
  induction hEach with
  | nil => rfl
  | cons hHead _ ih =>
    rw [List.map_cons, List.map_cons, ih, infoOf_tableId hHead]

/- At most one table has the id. -/
def Single (tables : List TableInfo) (tableId : Nat) : Prop :=
  ∀ first ∈ tables, ∀ second ∈ tables,
    first.tableId = tableId → second.tableId = tableId →
      first = second

variable {tables : List TableInfo} {tableId : Nat}

theorem single_of_nodup
    (hNodup : (infos.map TableInfo.tableId).Nodup)
    (hSame : ∀ info, info.tableId = tableId →
      (info ∈ tables ↔ info ∈ infos)) :
    Single tables tableId := by
  intro first hFirst second hSecond hId hId'
  exact List.inj_on_of_nodup_map hNodup
    ((hSame first hId).mp hFirst)
    ((hSame second hId').mp hSecond) (hId.trans hId'.symm)

theorem ownerOf_iff
    (hSingle : Single tables tableId)
    (info : TableInfo) :
    ownerOf tables tableId = some info ↔
      info ∈ tables ∧ info.tableId = tableId := by
  constructor
  · intro hOwner
    have hInfo := List.mem_of_find?_eq_some hOwner
    have hId := List.find?_some hOwner
    exact ⟨List.mem_reverse.mp hInfo, by simpa using hId⟩
  · rintro ⟨hInfo, hId⟩
    cases hOwner : ownerOf tables tableId with
    | none =>
      have hNone := List.find?_eq_none.mp hOwner info
        (List.mem_reverse.mpr hInfo)
      simp [hId] at hNone
    | some other =>
      have hOther := List.mem_of_find?_eq_some hOwner
      have hId' := List.find?_some hOwner
      rw [hSingle other (List.mem_reverse.mp hOther) info
        hInfo (by simpa using hId') hId]

variable {others : List TableInfo}

theorem ownerOf_congr
    (hSingle : Single tables tableId)
    (hSame : ∀ info, info.tableId = tableId →
      (info ∈ others ↔ info ∈ tables)) :
    ownerOf others tableId = ownerOf tables tableId := by
  have hOthers : Single others tableId :=
    fun first hFirst second hSecond hId hId' =>
      hSingle first ((hSame first hId).mp hFirst) second
        ((hSame second hId').mp hSecond) hId hId'
  refine Option.ext fun info => ?_
  rw [ownerOf_iff hOthers, ownerOf_iff hSingle]
  exact and_congr_left fun hId => hSame info hId

theorem loadIndexes_congr
    {rows : List IndexRow}
    (hOwners : ∀ row ∈ rows,
      ownerOf others row.tableId = ownerOf tables row.tableId)
    (indexes : List (List Char × IndexInfo)) :
    loadIndexes others indexes rows =
      loadIndexes tables indexes rows := by
  induction rows generalizing indexes with
  | nil => rfl
  | cons row rest ih =>
    have hHere : indexOf others row = indexOf tables row := by
      unfold indexOf
      rw [hOwners row (.head _)]
    unfold loadIndexes
    rw [hHere]
    cases indexOf tables row with
    | error raised => rfl
    | ok info =>
      exact ih (fun next hNext => hOwners next
        (.tail _ hNext)) _

theorem loadIndexes_append
    (tables : List TableInfo)
    (indexes : List (List Char × IndexInfo))
    (rows : List IndexRow)
    (row : IndexRow) :
    loadIndexes tables indexes (rows ++ [row]) =
      (loadIndexes tables indexes rows >>= fun found => do
        let info ← indexOf tables row
        pure (put found info)) := by
  induction rows generalizing indexes with
  | nil => rfl
  | cons first rest ih =>
    simp only [List.cons_append, loadIndexes, ih, bind_assoc]

/- The indexes there are, in one catalog and in another with
   the same tables but for new ones. -/
theorem indexMap_congr
    {extra : List TableInfo}
    (hInfos : system.tables.rows.mapM system.infoOf = .ok infos)
    (hOther : other.tables.rows.mapM other.infoOf =
      .ok (infos ++ extra))
    (hNodup : (infos.map TableInfo.tableId).Nodup)
    (hRows : ∀ row ∈ system.indexes.rows,
      3 < row.tableId ∧
        ∀ info ∈ extra, info.tableId ≠ row.tableId) :
    ∃ tables, other.listTables true = .ok tables ∧
      (∀ info, 3 < info.tableId →
        (info ∈ tables ↔ info ∈ infos ++ extra)) ∧
      loadIndexes tables [] system.indexes.rows =
        system.indexMap := by
  rcases listTables_user hInfos with ⟨known, hKnown, hKnownUser⟩
  rcases listTables_user hOther with ⟨tables, hTables, hUser⟩
  refine ⟨tables, hTables, hUser, ?_⟩
  unfold indexMap
  rw [hKnown]
  refine loadIndexes_congr (fun row hRow => ?_) []
  rcases hRows row hRow with ⟨hHigh, hOld⟩
  refine ownerOf_congr ?_ fun info hId => ?_
  · refine single_of_nodup hNodup fun info hId => ?_
    exact hKnownUser info (hId ▸ hHigh)
  · rw [hUser info (hId ▸ hHigh), hKnownUser info
      (hId ▸ hHigh), List.mem_append]
    exact or_iff_left fun hExtra =>
      hOld info hExtra hId

theorem Adds.indexMap
    (hAdds : Adds before after row schema) :
    after.indexMap = before.indexMap := by
  have hAll := hAdds.mapM_all
  cases hInfos : before.tables.rows.mapM before.infoOf with
  | error raised =>
    rw [hInfos] at hAll
    unfold SystemTables.indexMap listTables
    rw [hAll, hInfos]
    rfl
  | ok infos =>
    rw [hInfos] at hAll
    rcases indexMap_congr hInfos hAll
      (by rw [infos_tableIds hInfos]; exact hAdds.nodup)
      (fun other hOther => by
        rcases hAdds.newIndexes other hOther with ⟨hHigh, hNew⟩
        refine ⟨hHigh, fun info hInfo => ?_⟩
        rw [List.mem_singleton.mp hInfo]
        exact hNew.symm) with ⟨tables, hTables, _, hSame⟩
    rw [← hSame]
    unfold SystemTables.indexMap
    rw [hTables, hAdds.indexes]
    rfl

theorem Adds.getIndex
    (hAdds : Adds before after row schema)
    (name : String) :
    after.getIndex name = before.getIndex name := by
  unfold SystemTables.getIndex
  rw [hAdds.indexMap]

/- A new key goes to the end of the dictionary. -/
omit [PythonText] in
theorem lookup_put
    {indexes : List (List Char × IndexInfo)}
    {info : IndexInfo}
    (hNew : indexes.lookup (casefold info.name) = none) :
    (put indexes info).lookup (casefold info.name) =
      some info := by
  have hAbsent : casefold info.name ∉
      indexes.map Prod.fst := by
    intro hKey
    rcases List.mem_map.mp hKey with ⟨entry, hEntry, hSame⟩
    have hApart := List.lookup_eq_none_iff.mp hNew entry hEntry
    simp [hSame] at hApart
  unfold put
  rw [if_neg hAbsent, List.lookup_append, hNew]
  simp

/- An index on the new table is found by its name. -/
theorem Adds.requireIndex_new
    (hAdds : Adds before after row schema)
    (hTables : final.tables = after.tables)
    (hColumns : final.columns = after.columns)
    {index : IndexRow}
    (hIndexes : final.indexes.rows =
      after.indexes.rows ++ [index])
    (hOwner : index.tableId = row.tableId)
    {column : Column}
    (hColumn : schema.columns[index.position]? = some column)
    (hFree : before.getIndex index.name = .ok none) :
    ∃ info, final.requireIndex index.name = .ok info := by
  rcases ok_of_bind hFree with ⟨indexes, hMap, hLookup⟩
  have hAbsent : indexes.lookup (casefold index.name) = none :=
    Except.ok.inj hLookup
  rcases ok_of_bind hMap with ⟨_, hListed, _⟩
  rcases ok_of_bind hListed with ⟨infos, hInfos, _⟩
  have hFinal : final.tables.rows.mapM final.infoOf =
      .ok (infos ++ [newInfo row schema]) := by
    rw [hTables, infoOf_congr hColumns, hAdds.mapM_all, hInfos]
    rfl
  have hNodup : (infos.map TableInfo.tableId).Nodup := by
    rw [infos_tableIds hInfos]
    exact hAdds.nodup
  have hOld : ∀ info ∈ infos, info.tableId ≠ row.tableId := by
    intro info hInfo
    have hId : info.tableId ∈
        before.tables.rows.map TableRow.tableId := by
      rw [← infos_tableIds hInfos]
      exact List.mem_map_of_mem hInfo
    rcases List.mem_map.mp hId with ⟨other, hOther, hSame⟩
    exact hSame ▸ hAdds.newTable other hOther
  rcases indexMap_congr hInfos hFinal hNodup
      (fun other hOther => by
        rcases hAdds.newIndexes other hOther with ⟨hHigh, hNew⟩
        refine ⟨hHigh, fun info hInfo => ?_⟩
        rw [List.mem_singleton.mp hInfo]
        exact hNew.symm) with ⟨tables, hList, hUser, hSame⟩
  have hNewOwner : ownerOf tables index.tableId =
      some (newInfo row schema) := by
    rw [hOwner]
    refine (ownerOf_iff ?_ _).mpr ⟨?_, rfl⟩
    · intro first hFirst second hSecond hId hId'
      have hNewest : ∀ info ∈ tables,
          info.tableId = row.tableId →
            info = newInfo row schema := by
        intro info hInfo hSameId
        have hThere := (hUser info
          (hSameId ▸ hAdds.userRow)).mp hInfo
        rcases List.mem_append.mp hThere with hEarlier | hNew
        · exact absurd hSameId (hOld info hEarlier)
        · exact List.mem_singleton.mp hNew
      rw [hNewest first hFirst hId, hNewest second hSecond hId']
    · exact (hUser (newInfo row schema) hAdds.userRow).mpr
        (List.mem_append_right _ (.head _))
  have hIndex : ∃ info, indexOf tables index = .ok info ∧
      info.name = index.name := by
    unfold indexOf
    rw [hNewOwner]
    simp only [newInfo, hColumn]
    exact ⟨_, rfl, rfl⟩
  rcases hIndex with ⟨info, hInfo, hName⟩
  have hFinalMap : final.indexMap = .ok (put indexes info) := by
    unfold SystemTables.indexMap
    rw [hList, hIndexes, hAdds.indexes]
    change loadIndexes tables [] _ = _
    rw [loadIndexes_append, hSame, hMap]
    change (indexOf tables index >>= _) = _
    rw [hInfo]
    rfl
  have hFound : final.getIndex index.name =
      .ok (some info) := by
    rw [← hName] at hAbsent ⊢
    unfold SystemTables.getIndex
    rw [hFinalMap]
    change Except.ok _ = _
    rw [lookup_put hAbsent]
  unfold requireIndex
  rw [hFound]
  exact ⟨info, rfl⟩

end Adds

end SystemTables

end Rows

end Catalog

end ChenDB
