import ChenDB.Planner.RowSource

/-
  UPDATE and DELETE of a session that has the database to
  itself: the rows are located, and then each of them is
  claimed, stamped and, for an UPDATE, put in again, with the
  indexes kept in step.
-/

--
-- Storing a Row
--

namespace ChenDB

namespace Executor

open Indexing (DataType KeyTexts Storable Tree encodeKey)
open Library.StateExcept (ok_of_bind)
open Library.Traversal (forall₂_of_mapM)
open Mvcc (LockManager Version deleted rowResource setXmax)
open Planner (Found OneEach Raised StoredRow TableIndex
  UserTable keptRows keptRows_oneEach mem_keptRows
  ok_of_mapError)
open Serialization (PythonText RecordError)
open Storage (HeapFile RecordId)
open Wal (noTransaction)

variable {schema : Serialization.Schema}

/- A row as it is given, before it is encoded. -/
abbrev Given (schema : Serialization.Schema) :=
  Row Binary64 schema.columns.length

theorem isFinite_of_requireFinite
    {value : Binary64}
    (hFinite : Serialization.requireFinite value = .ok ()) :
    value.isFinite = true := by
  unfold Serialization.requireFinite at hFinite
  split at hFinite
  · assumption
  · cases hFinite

variable {dataType : DataType} {value : Serialization.Codable}

/- What passes a column's check is read back as a value of its
   type. -/
theorem storable_stored
    (hSome : value.isNull = false)
    (hValid : Serialization.validate dataType value = .ok ()) :
    Storable dataType
      (Serialization.stored dataType value) := by
  cases value with
  | null => cases hSome
  | bool flag =>
    cases dataType with
    | boolean => exact .boolean flag
    | _ => cases hValid
  | int number =>
    cases dataType with
    | integer =>
      rcases Serialization.validate_int64 hValid with
        ⟨hLow, hHigh⟩
      exact .integer hLow hHigh
    | float =>
      rcases ok_of_bind hValid with ⟨double, hDouble, hFinite⟩
      rw [Serialization.stored_int hDouble]
      exact .float (isFinite_of_requireFinite hFinite)
    | _ => cases hValid
  | float number =>
    cases dataType with
    | float =>
      exact .float (isFinite_of_requireFinite hValid)
    | _ => cases hValid
  | text text =>
    cases dataType with
    | text => exact .text text
    | _ => cases hValid

theorem encodes_storable
    {columns : List Serialization.Column}
    {values : List Serialization.Codable}
    {bytes : Library.Struct.Bytes}
    (hEncodes :
      Serialization.Encodes columns values bytes) :
    List.Forall₂ (fun column value =>
        Serialization.stored column.dataType value = .null ∨
          Storable column.dataType
            (Serialization.stored column.dataType value))
      columns values := by
  induction hEncodes with
  | nil => exact .nil
  | null hRest ih =>
    rename_i column _ _ _
    refine .cons (.inl ?_) ih
    cases column.dataType <;> rfl
  | value hSome hValid _ _ ih =>
    exact .cons (.inr (storable_stored hSome hValid)) ih

section Storing

variable [PythonText]

variable {values : Given schema}

theorem storable_of_encodeRecord
    {raw : Library.Struct.Bytes}
    (hOk : Serialization.encodeRecord schema
      (List.ofFn values) = .ok raw)
    (index : Fin schema.columns.length) :
    Serialization.stored
        (schema.columns.get index).dataType (values index) =
          .null ∨
      Storable (schema.columns.get index).dataType
        (Serialization.stored
          (schema.columns.get index).dataType
          (values index)) := by
  have hLength : (List.ofFn values).length =
      schema.columns.length := List.length_ofFn
  unfold Serialization.encodeRecord at hOk
  rw [if_neg (not_not.mpr hLength)] at hOk
  rcases Serialization.encodeColumns_ok hLength hOk with
    ⟨bytes, hEncodes, _⟩
  have hEach := (List.forall₂_iff_get.mp
    (encodes_storable hEncodes)).2 index.val index.isLt
      (hLength.symm ▸ index.isLt)
  simpa using hEach

/- `encode_record`, and the row that a read will decode. -/
def storeRow
    (values : Given schema) :
    Except RecordError (StoredRow schema) :=
  match hEncode : Serialization.encodeRecord schema
      (List.ofFn values) with
  | .error raised => .error raised
  | .ok _ => .ok
      { values := fun index => Serialization.stored
          (schema.columns.get index).dataType (values index)
        storable := storable_of_encodeRecord hEncode }

theorem storeRow_ok
    {row : StoredRow schema}
    (hOk : storeRow values = .ok row) :
    (∃ raw, Serialization.encodeRecord schema
        (List.ofFn values) = .ok raw) ∧
      row.values = fun index => Serialization.stored
        (schema.columns.get index).dataType
        (values index) := by
  unfold storeRow at hOk
  split at hOk
  · cases hOk
  · rename_i raw hEncode
    cases hOk
    exact ⟨⟨raw, hEncode⟩, rfl⟩

end Storing

/- A value and what it is read back as have one key. -/
theorem encodeKey_stored [KeyTexts]
    {key : Indexing.Key}
    (hKey : encodeKey value dataType = .ok key) :
    encodeKey (Serialization.stored dataType value)
      dataType = .ok key := by
  unfold Serialization.stored
  split
  · rename_i number
    cases hOf : Binary64.ofInt number with
    | none => exact hKey
    | some double =>
      have hSame : Indexing.SortableDouble.sortable
            (.inl double : Binary64 ⊕ Int) =
          Indexing.SortableDouble.sortable
            (.inr number : Binary64 ⊕ Int) := by
        change some _ = (Binary64.ofInt number).map _
        rw [hOf]
        rfl
      change Indexing.encodeDouble (.inl double) = .ok key
      unfold Indexing.encodeDouble
      rw [hSame]
      exact hKey
  · exact hKey

--
-- Indexes
--

section Indexes

variable [KeyTexts]

/- `tree.delete(index.encode(...), record_id)`. -/
def removeEntry
    (row : Given schema)
    (recordId : RecordId)
    (index : TableIndex schema) :
    Except EngineError (TableIndex schema) := do
  let tree ← Tree.deleteRow row recordId index.tree
  pure { index with entries := tree.entries }

/- `tree.insert(index.encode(...), record_id)`. -/
def addEntry
    (row : Given schema)
    (recordId : RecordId)
    (index : TableIndex schema) :
    Except EngineError (TableIndex schema) := do
  let tree ←
    Tree.insertRow index.name row recordId index.tree
  pure { index with entries := tree.entries }

/- The entry of the old version out, that of the new one
   in. -/
def moveEntry
    (old new : RecordId × Given schema)
    (index : TableIndex schema) :
    Except EngineError (TableIndex schema) := do
  let without ← removeEntry old.2 old.1 index
  addEntry new.2 new.1 without

variable {row : Given schema} {recordId : RecordId}
variable {index after : TableIndex schema}

theorem removeEntry_ok
    (hOk : removeEntry row recordId index = .ok after) :
    ∃ key,
      encodeKey (row index.position) index.dataType = .ok key ∧
      after = { index with
        entries := index.entries.erase (key, recordId) } := by
  rcases ok_of_bind hOk with ⟨tree, hTree, hDone⟩
  rcases ok_of_bind hTree with ⟨key, hKey, hDelete⟩
  cases hDelete
  cases hDone
  exact ⟨key, hKey, rfl⟩

theorem addEntry_ok
    (hOk : addEntry row recordId index = .ok after) :
    ∃ key entries,
      encodeKey (row index.position) index.dataType = .ok key ∧
      entries.Perm ((key, recordId) :: index.entries) ∧
      after = { index with entries := entries } := by
  rcases ok_of_bind hOk with ⟨tree, hTree, hDone⟩
  rcases ok_of_bind hTree with ⟨key, hKey, hInsert⟩
  cases hDone
  refine ⟨key, tree.entries, hKey, ?_, rfl⟩
  unfold Tree.insert at hInsert
  split at hInsert
  · cases hInsert
  · cases hInsert
    refine List.perm_middle.trans ?_
    rw [List.takeWhile_append_dropWhile]
    rfl

variable {rows rows' : List (Found schema)}

theorem agrees_removeEntry
    {row : StoredRow schema}
    (hAgrees : index.Agrees rows)
    (hOne : OneEach rows)
    (hOk : removeEntry row.values recordId index = .ok after)
    (hRow : (recordId, row) ∈ rows)
    (hRows : ∀ place found, (place, found) ∈ rows' ↔
      (place, found) ∈ rows ∧ place ≠ recordId) :
    after.Agrees rows' := by
  rcases removeEntry_ok hOk with ⟨key, hKey, rfl⟩
  constructor
  · exact hAgrees.once.erase _
  · intro other place
    rw [hAgrees.once.mem_erase_iff, hAgrees.exact]
    constructor
    · rintro ⟨hDiffers, found, hFound, hOther⟩
      refine ⟨found, (hRows _ _).mpr ⟨hFound, ?_⟩, hOther⟩
      rintro rfl
      rw [hOne _ _ _ hFound hRow] at hOther
      cases hKey.symm.trans hOther
      exact hDiffers rfl
    · rintro ⟨found, hFound, hOther⟩
      rcases (hRows _ _).mp hFound with ⟨hBefore, hPlace⟩
      exact ⟨fun hSame => hPlace (congrArg Prod.snd hSame),
        found, hBefore, hOther⟩

theorem agrees_addEntry
    {values : Given schema}
    {row : StoredRow schema}
    (hAgrees : index.Agrees rows)
    (hOk : addEntry values recordId index = .ok after)
    (hStored : row.values = fun position =>
      Serialization.stored
        (schema.columns.get position).dataType
        (values position))
    (hFree : ∀ found, (recordId, found) ∉ rows)
    (hRows : ∀ place found, (place, found) ∈ rows' ↔
      (place, found) ∈ rows ∨ place = recordId ∧ found = row) :
    after.Agrees rows' := by
  rcases addEntry_ok hOk with ⟨key, entries, hKey, hPerm, rfl⟩
  have hStoredKey : encodeKey (row.values index.position)
      index.dataType = .ok key := by
    rw [hStored]
    exact encodeKey_stored hKey
  constructor
  · refine hPerm.nodup_iff.mpr
      (List.nodup_cons.mpr ⟨fun hMem => ?_, hAgrees.once⟩)
    rcases (hAgrees.exact _ _).mp hMem with ⟨found, hFound, _⟩
    exact hFree found hFound
  · intro other place
    refine hPerm.mem_iff.trans ?_
    rw [List.mem_cons, hAgrees.exact]
    constructor
    · rintro (hNew | ⟨found, hFound, hOther⟩)
      · cases hNew
        exact ⟨row, (hRows _ _).mpr (.inr ⟨rfl, rfl⟩),
          hStoredKey⟩
      · exact ⟨found, (hRows _ _).mpr (.inl hFound), hOther⟩
    · rintro ⟨found, hFound, hOther⟩
      rcases (hRows _ _).mp hFound with
        hBefore | ⟨rfl, rfl⟩
      · exact .inr ⟨found, hBefore, hOther⟩
      · cases hStoredKey.symm.trans hOther
        exact .inl rfl

end Indexes

--
-- Changing Rows
--

/- Pages nobody has yet. -/
structure FreshPages where
  next : List PageId → PageId
  unused : ∀ pageIds, next pageIds ∉ pageIds

/- What a statement's transaction works on. -/
structure Writing (schema : Serialization.Schema) where
  locks : LockManager
  table : UserTable schema

namespace Writing

variable [PythonText]

/- `_lock_row`. A lock that has to be waited for is not given
   up by anyone while this session waits. -/
def lockRow
    (xid : Nat)
    (recordId : RecordId)
    (writing : Writing schema) :
    Except EngineError (Writing schema) := do
  let resource := rowResource writing.table.name recordId
  match ← writing.locks.tryAcquire xid resource .exclusive with
  | some locks => pure { writing with locks := locks }
  | none => throw (.lockTimeout
      (s!"transaction {xid} waited 5s for exclusive on " ++
        s!"{PythonText.repr resource}, still held by " ++
        s!"{writing.locks.conflictsWith xid resource
          .exclusive}"))

/- `_claim_row`: the version to change, unless the row is gone
   or another transaction's by now. -/
def claimRow
    (running : List Nat)
    (xid : Nat)
    (recordId : RecordId)
    (writing : Writing schema) :
    Except EngineError
      (Writing schema × Option (Version (StoredRow schema))) :=
  match writing.table.heap.get recordId with
  | none => .ok (writing, none)
  | some version =>
    if deleted version.header ∧
        version.header.xmax ∉ running then
      .ok (writing, none)
    else do
      let locked ← writing.lockRow xid recordId
      match locked.table.heap.get recordId with
      | none => pure (locked, none)
      | some version =>
        if deleted version.header then
          pure (locked, none)
        else pure (locked, some version)

variable [KeyTexts]

def deleteOne
    (running : List Nat)
    (xid : Nat)
    (recordId : RecordId)
    (writing : Writing schema) :
    Except EngineError (Writing schema × Bool) := do
  match ← writing.claimRow running xid recordId with
  | (claimed, none) => pure (claimed, false)
  | (claimed, some version) =>
    let indexes ← claimed.table.indexes.mapM
      (removeEntry version.row.values recordId)
    let (heap, _) ← claimed.table.heap.replace recordId
      (setXmax version xid)
    pure ({ claimed with
      table := { claimed.table with
        heap := heap, indexes := indexes } }, true)

/- How many of the rows went. -/
def deleteMany
    (running : List Nat)
    (xid : Nat) :
    List RecordId → Writing schema →
      Except EngineError (Writing schema × Nat)
  | [], writing => .ok (writing, 0)
  | recordId :: rest, writing => do
      let (next, gone) ←
        writing.deleteOne running xid recordId
      let (final, count) ← deleteMany running xid rest next
      pure (final, if gone then count + 1 else count)

/- Stamp the old version, put the new one in, and then see to
   the indexes. -/
def updateOne
    (pages : FreshPages)
    (running : List Nat)
    (xid : Nat)
    (recordId : RecordId)
    (values : Given schema)
    (writing : Writing schema) :
    Except Raised (Writing schema × Option RecordId) := do
  match ← (writing.claimRow running xid recordId).mapError
      Raised.engine with
  | (claimed, none) => pure (claimed, none)
  | (claimed, some version) =>
    let row ← (storeRow values).mapError Raised.record
    let (stamped, _) ← (claimed.table.heap.replace recordId
      (setXmax version xid)).mapError Raised.engine
    let (heap, newId) ← (stamped.insert
      (pages.next stamped.pageIds)
      (pages.unused stamped.pageIds)
      ⟨⟨xid, noTransaction⟩, row⟩).mapError Raised.engine
    let locked ← (lockRow xid newId { claimed with
      table := { claimed.table with heap := heap } }).mapError
        Raised.engine
    let indexes ← (locked.table.indexes.mapM
      (moveEntry (recordId, version.row.values)
        (newId, values))).mapError Raised.engine
    pure ({ locked with
      table := { locked.table with indexes := indexes } },
      some newId)

/- Where the rows that were replaced are now. -/
def updateMany
    (pages : FreshPages)
    (running : List Nat)
    (xid : Nat) :
    List (RecordId × Given schema) → Writing schema →
      Except Raised (Writing schema × List RecordId)
  | [], writing => .ok (writing, [])
  | (recordId, values) :: rest, writing => do
      let (next, newId) ←
        writing.updateOne pages running xid recordId values
      let (final, replaced) ←
        updateMany pages running xid rest next
      pure (final, newId.toList ++ replaced)

end Writing

--
-- What a Change Does
--

/- The rows nobody has deleted. -/
def liveRows
    (heap : HeapFile (Version (StoredRow schema))) :
    List (Found schema) :=
  keptRows (fun header => !deleted header) heap

theorem mem_liveRows
    {heap : HeapFile (Version (StoredRow schema))}
    {recordId : RecordId}
    {row : StoredRow schema} :
    (recordId, row) ∈ liveRows heap ↔
      ∃ version, heap.get recordId = some version ∧
        deleted version.header = false ∧
        version.row = row := by
  unfold liveRows
  rw [mem_keptRows]
  simp only [Bool.not_eq_true']

/- Whoever made or deleted a version has an id that was given
   out. -/
def Stamped
    (bound : Nat)
    (heap : HeapFile (Version (StoredRow schema))) : Prop :=
  ∀ recordId version, heap.get recordId = some version →
    version.header.xmin ≠ noTransaction ∧
      version.header.xmin < bound ∧
      version.header.xmax < bound

section Changes

variable [KeyTexts]

def AllAgree (table : UserTable schema) : Prop :=
  ∀ index ∈ table.indexes, index.Agrees (liveRows table.heap)

/- Some rows go, and others come where there was nothing. -/
structure Changes
    (bound : Nat)
    (before after : UserTable schema)
    (gone : List RecordId)
    (added : List (Found schema)) : Prop where
  agree : AllAgree before → AllAgree after
  rows : ∀ place found,
    (place, found) ∈ liveRows after.heap ↔
      ((place, found) ∈ liveRows before.heap ∧
          place ∉ gone) ∨
        (place, found) ∈ added
  stamped : Stamped bound before.heap → Stamped bound after.heap
  held : ∀ place, before.heap.get place ≠ none →
    after.heap.get place ≠ none
  fresh : ∀ found ∈ added, before.heap.get found.1 = none
  apart : (added.map Prod.fst).Nodup

theorem Changes.refl
    (bound : Nat)
    (table : UserTable schema) :
    Changes bound table table [] [] where
  agree := id
  rows _ _ := by simp
  stamped := id
  held _ := id
  fresh := nofun
  apart := List.nodup_nil

theorem Changes.trans
    {bound : Nat}
    {before middle after : UserTable schema}
    {gone gone' : List RecordId}
    {added added' : List (Found schema)}
    (hFirst : Changes bound before middle gone added)
    (hSecond : Changes bound middle after gone' added')
    (hOld : ∀ place ∈ gone', before.heap.get place ≠ none) :
    Changes bound before after (gone ++ gone')
      (added ++ added') where
  agree hAgree := hSecond.agree (hFirst.agree hAgree)
  rows place found := by
    have hStays : (place, found) ∈ added → place ∉ gone' :=
      fun hAdded hGone => hOld place hGone
        (hFirst.fresh _ hAdded)
    rw [hSecond.rows, hFirst.rows, List.mem_append,
      List.mem_append]
    tauto
  stamped hStamped :=
    hSecond.stamped (hFirst.stamped hStamped)
  held place hHeld := hSecond.held place
    (hFirst.held place hHeld)
  fresh found hFound := by
    rcases List.mem_append.mp hFound with hHere | hThere
    · exact hFirst.fresh found hHere
    · by_contra hHeld
      exact hFirst.held _ hHeld (hSecond.fresh found hThere)
  apart := by
    rw [List.map_append]
    refine hFirst.apart.append hSecond.apart ?_
    intro place hHere hThere
    rcases List.mem_map.mp hHere with
      ⟨⟨_, row⟩, hAdded, rfl⟩
    rcases List.mem_map.mp hThere with ⟨found, hFound, hSame⟩
    have hLive := (hFirst.rows _ row).mpr (.inr hAdded)
    rcases mem_liveRows.mp hLive with ⟨version, hGet, _⟩
    have hNone := hSecond.fresh found hFound
    rw [hSame, hGet] at hNone
    cases hNone

end Changes

section Claiming

variable [PythonText] {writing claimed after : Writing schema}
variable {running : List Nat} {xid : Nat} {recordId : RecordId}

theorem lockRow_table
    (hOk : writing.lockRow xid recordId = .ok after) :
    after.table = writing.table := by
  rcases ok_of_bind hOk with ⟨granted, _, hRest⟩
  cases granted with
  | none => cases hRest
  | some locks =>
    cases hRest
    rfl

variable {version : Version (StoredRow schema)}

/- A live row is always claimed: nobody else is there to have
   taken it. -/
theorem claimRow_live
    {found : Option (Version (StoredRow schema))}
    (hOk : writing.claimRow running xid recordId =
      .ok (claimed, found))
    (hGet : writing.table.heap.get recordId = some version)
    (hLive : deleted version.header = false) :
    claimed.table = writing.table ∧ found = some version := by
  unfold Writing.claimRow at hOk
  rw [hGet] at hOk
  simp only [hLive, Bool.false_eq_true, false_and, if_false]
    at hOk
  rcases ok_of_bind hOk with ⟨locked, hLock, hRest⟩
  have hTable := lockRow_table hLock
  rw [hTable, hGet] at hRest
  simp only [hLive, Bool.false_eq_true, if_false] at hRest
  cases hRest
  exact ⟨hTable, rfl⟩

theorem replace_get
    {heap heap' : HeapFile (Version (StoredRow schema))}
    {replaced : Bool}
    (hGet : heap.get recordId = some version)
    (hOk : heap.replace recordId (setXmax version xid) =
      .ok (heap', replaced)) :
    heap'.get = Function.update heap.get recordId
      (some (setXmax version xid)) := by
  rcases Mvcc.replace_claimed xid hGet with ⟨_, hReplace⟩
  cases hReplace.symm.trans hOk
  exact HeapFile.get_replace hReplace

omit [PythonText] in
theorem deleted_setXmax
    (version : Version (StoredRow schema))
    (hXid : xid ≠ noTransaction) :
    deleted (setXmax version xid).header = true :=
  decide_eq_true hXid

end Claiming

section Rows

variable [PythonText] [KeyTexts]
variable {writing after : Writing schema}
variable {running : List Nat} {xid bound : Nat}
variable {recordId : RecordId} {row : StoredRow schema}

/- The row is out of the indexes and its version stamped. -/
theorem deleteOne_ok
    {gone : Bool}
    (hXid : xid ≠ noTransaction)
    (hBound : xid < bound)
    (hMem : (recordId, row) ∈ liveRows writing.table.heap)
    (hOk : writing.deleteOne running xid recordId =
      .ok (after, gone)) :
    gone = true ∧
      Changes bound writing.table after.table [recordId]
        [] := by
  rcases mem_liveRows.mp hMem with ⟨version, hGet, hLive, rfl⟩
  rcases ok_of_bind hOk with ⟨⟨claimed, found⟩, hClaim, hRest⟩
  rcases claimRow_live hClaim hGet hLive with ⟨hTable, rfl⟩
  rcases ok_of_bind hRest with ⟨indexes, hIndexes, hRest⟩
  rcases ok_of_bind hRest with
    ⟨⟨heap, replaced⟩, hReplace, hDone⟩
  cases hDone
  rw [hTable] at hIndexes hReplace
  have hHeap := replace_get hGet hReplace
  have hRows : ∀ place found,
      (place, found) ∈ liveRows heap ↔
        (place, found) ∈ liveRows writing.table.heap ∧
          place ≠ recordId := by
    intro place found
    rw [mem_liveRows, mem_liveRows, hHeap]
    by_cases hHere : place = recordId
    · subst hHere
      simp [deleted_setXmax version hXid]
    · simp [hHere]
  refine ⟨rfl, ?_, ?_, ?_, ?_, nofun, List.nodup_nil⟩
  · intro hAgree index hIndex
    rcases Library.Traversal.exists_of_forall₂
      (forall₂_of_mapM hIndexes) hIndex with
      ⟨old, hOld, hRemove⟩
    exact agrees_removeEntry (hAgree old hOld)
      keptRows_oneEach hRemove hMem hRows
  · intro place found
    rw [hRows]
    simp
  · intro hStamped place held hHeld
    rw [hHeap, Function.update_apply] at hHeld
    split at hHeld
    · cases hHeld
      rcases hStamped _ _ hGet with ⟨hMade, hBelow, _⟩
      exact ⟨hMade, hBelow, hBound⟩
    · exact hStamped _ _ hHeld
  · intro place hHeld
    rw [hHeap, Function.update_apply]
    split
    · exact Option.some_ne_none _
    · exact hHeld

variable {pages : FreshPages}

/- The old version is stamped, the new one stands where there
   was none, and each index has moved its entry. -/
theorem updateOne_ok
    {values : Given schema}
    {newId : Option RecordId}
    (hXid : xid ≠ noTransaction)
    (hBound : xid < bound)
    (hMem : (recordId, row) ∈ liveRows writing.table.heap)
    (hOk : writing.updateOne pages running xid recordId
      values = .ok (after, newId)) :
    ∃ place new, newId = some place ∧
      storeRow values = .ok new ∧
      Changes bound writing.table after.table [recordId]
        [(place, new)] := by
  rcases mem_liveRows.mp hMem with ⟨version, hGet, hLive, rfl⟩
  rcases ok_of_bind hOk with ⟨⟨claimed, found⟩, hClaim, hRest⟩
  rcases claimRow_live (ok_of_mapError hClaim) hGet hLive with
    ⟨hTable, rfl⟩
  rcases ok_of_bind hRest with ⟨new, hStore, hRest⟩
  rcases ok_of_bind hRest with
    ⟨⟨stamped, replaced⟩, hReplace, hRest⟩
  rcases ok_of_bind hRest with
    ⟨⟨heap, place⟩, hInsert, hRest⟩
  rcases ok_of_bind hRest with ⟨locked, hLock, hRest⟩
  rcases ok_of_bind hRest with ⟨indexes, hIndexes, hDone⟩
  cases hDone
  have hLocked := lockRow_table (ok_of_mapError hLock)
  have hMoved := ok_of_mapError hIndexes
  rw [hLocked] at hMoved
  simp only [hTable] at hMoved
  have hReplaced := ok_of_mapError hReplace
  rw [hTable] at hReplaced
  have hStamp := replace_get hGet hReplaced
  rcases HeapFile.get_insert (ok_of_mapError hInsert) with
    ⟨hFree, hPlaced⟩
  have hOther : place ≠ recordId := by
    rintro rfl
    rw [hStamp, Function.update_self] at hFree
    cases hFree
  have hBefore : writing.table.heap.get place = none := by
    rwa [hStamp, Function.update_of_ne hOther] at hFree
  have hNone : ∀ found,
      (place, found) ∉ liveRows writing.table.heap := by
    intro found hFound
    rcases mem_liveRows.mp hFound with ⟨_, hSome, _⟩
    cases hBefore.symm.trans hSome
  have hRows : ∀ other found,
      (other, found) ∈ liveRows heap ↔
        ((other, found) ∈ liveRows writing.table.heap ∧
            other ≠ recordId) ∨
          other = place ∧ found = new := by
    intro other found
    rw [mem_liveRows, mem_liveRows, hPlaced, hStamp]
    by_cases hNew : other = place
    · subst hNew
      rw [Function.update_self]
      constructor
      · rintro ⟨_, ⟨⟩, _, rfl⟩
        exact .inr ⟨rfl, rfl⟩
      · rintro (⟨⟨_, hSome, _⟩, _⟩ | ⟨_, rfl⟩)
        · cases hBefore.symm.trans hSome
        · exact ⟨_, rfl, rfl, rfl⟩
    · by_cases hHere : other = recordId
      · subst hHere
        simp [hNew, deleted_setXmax version hXid]
      · simp [Function.update_of_ne, hNew, hHere]
  have hTableAfter : locked.table.heap = heap := by
    rw [hLocked]
  refine ⟨place, new, rfl, ok_of_mapError hStore, ?_, ?_, ?_,
    ?_, ?_, List.nodup_singleton _⟩
  · intro hAgree index hIndex
    rcases Library.Traversal.exists_of_forall₂
      (forall₂_of_mapM hMoved) hIndex with
      ⟨old, hOld, hMove⟩
    rcases ok_of_bind hMove with ⟨without, hRemove, hAdd⟩
    have hWithout : without.Agrees
        ((liveRows writing.table.heap).filter fun found =>
          found.1 ≠ recordId) :=
      agrees_removeEntry (hAgree old hOld) keptRows_oneEach
        hRemove hMem (fun _ _ => by simp)
    show index.Agrees (liveRows locked.table.heap)
    rw [hTableAfter]
    exact agrees_addEntry hWithout hAdd
      (storeRow_ok (ok_of_mapError hStore)).2
      (fun found hFound =>
        hNone found (List.mem_filter.mp hFound).1)
      (fun other found => by simp [hRows])
  · intro other found
    show _ ∈ liveRows locked.table.heap ↔ _
    rw [hTableAfter, hRows]
    simp
  · intro hStamped other held hHeld
    replace hHeld : locked.table.heap.get other = some held :=
      hHeld
    rw [hTableAfter, hPlaced, hStamp, Function.update_apply,
      Function.update_apply] at hHeld
    split at hHeld
    · cases hHeld
      exact ⟨hXid, hBound, Nat.zero_lt_of_lt hBound⟩
    · split at hHeld
      · cases hHeld
        rcases hStamped _ _ hGet with ⟨hMade, hBelow, _⟩
        exact ⟨hMade, hBelow, hBound⟩
      · exact hStamped _ _ hHeld
  · intro other hHeld
    show locked.table.heap.get other ≠ none
    rw [hTableAfter, hPlaced, hStamp, Function.update_apply,
      Function.update_apply]
    split
    · exact Option.some_ne_none _
    · split
      · exact Option.some_ne_none _
      · exact hHeld
  · intro found hFound
    rw [List.mem_singleton.mp hFound]
    exact hBefore

omit [PythonText] in
/- Rows that are not among those that go stay live. -/
theorem Changes.stays
    {before middle : UserTable schema}
    {gone : List RecordId}
    {added : List (Found schema)}
    (hChanges : Changes bound before middle gone added)
    (hMem : (recordId, row) ∈ liveRows before.heap)
    (hNot : recordId ∉ gone) :
    (recordId, row) ∈ liveRows middle.heap :=
  (hChanges.rows _ _).mpr (.inl ⟨hMem, hNot⟩)

omit [PythonText] [KeyTexts] in
theorem held_of_live
    {heap : HeapFile (Version (StoredRow schema))}
    (hMem : (recordId, row) ∈ liveRows heap) :
    heap.get recordId ≠ none := by
  rcases mem_liveRows.mp hMem with ⟨version, hGet, _⟩
  rw [hGet]
  exact Option.some_ne_none _

/- All the rows go, and each is counted. -/
theorem deleteMany_ok
    {recordIds : List RecordId}
    {count : Nat}
    (hXid : xid ≠ noTransaction)
    (hBound : xid < bound)
    (hApart : recordIds.Nodup)
    (hLive : ∀ recordId ∈ recordIds,
      ∃ row, (recordId, row) ∈ liveRows writing.table.heap)
    (hOk : writing.deleteMany running xid recordIds =
      .ok (after, count)) :
    count = recordIds.length ∧
      Changes bound writing.table after.table recordIds
        [] := by
  induction recordIds generalizing writing count with
  | nil =>
    cases hOk
    exact ⟨rfl, .refl bound _⟩
  | cons recordId rest ih =>
    rw [List.nodup_cons] at hApart
    rcases hLive recordId (.head _) with ⟨row, hMem⟩
    rcases ok_of_bind hOk with ⟨⟨next, gone⟩, hOne, hRest⟩
    rcases ok_of_bind hRest with
      ⟨⟨final, later⟩, hMany, hDone⟩
    cases hDone
    rcases deleteOne_ok hXid hBound hMem hOne with ⟨rfl, hFirst⟩
    have hOthers : ∀ other ∈ rest, ∃ row,
        (other, row) ∈ liveRows writing.table.heap :=
      fun other hOther =>
        hLive other (.tail _ hOther)
    rcases ih hApart.2 (fun other hOther => by
      rcases hOthers other hOther with ⟨row, hRow⟩
      refine ⟨row, hFirst.stays hRow ?_⟩
      rw [List.mem_singleton]
      rintro rfl
      exact hApart.1 hOther) hMany with ⟨rfl, hSecond⟩
    refine ⟨rfl, hFirst.trans hSecond fun other hOther => ?_⟩
    rcases hOthers other hOther with ⟨row, hRow⟩
    exact held_of_live hRow

/- Each row is replaced by what its values are stored as. -/
theorem updateMany_ok
    {updates : List (RecordId × Given schema)}
    {replaced : List RecordId}
    (hXid : xid ≠ noTransaction)
    (hBound : xid < bound)
    (hApart : (updates.map Prod.fst).Nodup)
    (hLive : ∀ update ∈ updates, ∃ row,
      (update.1, row) ∈ liveRows writing.table.heap)
    (hOk : writing.updateMany pages running xid updates =
      .ok (after, replaced)) :
    ∃ added : List (Found schema),
      added.map Prod.fst = replaced ∧
      List.Forall₂ (fun update found =>
        storeRow update.2 = .ok found.2) updates added ∧
      Changes bound writing.table after.table
        (updates.map Prod.fst) added := by
  induction updates generalizing writing replaced with
  | nil =>
    cases hOk
    exact ⟨[], rfl, .nil, .refl bound _⟩
  | cons update rest ih =>
    rcases update with ⟨recordId, values⟩
    rw [List.map_cons, List.nodup_cons] at hApart
    rcases hLive _ (.head _) with ⟨row, hMem⟩
    rcases ok_of_bind hOk with ⟨⟨next, newId⟩, hOne, hRest⟩
    rcases ok_of_bind hRest with
      ⟨⟨final, later⟩, hMany, hDone⟩
    cases hDone
    rcases updateOne_ok hXid hBound hMem hOne with
      ⟨place, new, rfl, hStore, hFirst⟩
    have hOthers : ∀ other ∈ rest, ∃ row,
        (other.1, row) ∈ liveRows writing.table.heap :=
      fun other hOther =>
        hLive other (.tail _ hOther)
    rcases ih hApart.2 (fun other hOther => by
      rcases hOthers other hOther with ⟨row, hRow⟩
      refine ⟨row, hFirst.stays hRow ?_⟩
      rw [List.mem_singleton]
      intro hSame
      exact hApart.1 (hSame ▸ List.mem_map_of_mem hOther))
      hMany with ⟨added, rfl, hEach, hSecond⟩
    refine ⟨(place, new) :: added, rfl, .cons hStore hEach,
      hFirst.trans hSecond fun other hOther => ?_⟩
    rcases List.mem_map.mp hOther with ⟨update, hIn, rfl⟩
    rcases hOthers update hIn with ⟨row, hRow⟩
    exact held_of_live hRow

end Rows

end Executor

end ChenDB
