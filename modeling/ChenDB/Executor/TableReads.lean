import Mathlib.Algebra.BigOperators.Group.Multiset.Basic
import Mathlib.Data.Multiset.MapFold
import ChenDB.Indexing.KeyOrder
import ChenDB.Library.Traversal
import ChenDB.Serialization.Record
import ChenDB.Storage.Heap

/-
  The three ways the rows of a table are read: by the scan of a
  plan, by `Database.scan`, and to gather statistics.
-/

--
-- Sizes of Records
--

namespace ChenDB

namespace Executor

open Indexing (DataType normal)
open Library.ByteOrder (utf8)
open Library.StateExcept (ok_of_bind)
open Library.Struct
open Serialization (Codable PythonText RecordError Schema
  addTupleHeader decodeColumns decodeRecord decodeText
  decodeValue encodeRecord readTupleHeader setXmax
  stripTupleHeader tupleHeaderSize)
open Storage (RecordId)
open Transaction (Snapshot visible)

/- How many bytes a value takes up in a record. -/
def sizeOf : Codable → Nat
  | .null => 0
  | .bool _ => 1
  | .int _ => 8
  | .float _ => 8
  | .text value => 4 + (utf8 value).length

def sizeOfRow (row : List Codable) : Nat :=
  (row.map sizeOf).sum

theorem utf8_of_fromUTF8?
    {bytes : Bytes}
    {text : String}
    (hText : String.fromUTF8? ⟨bytes.toArray⟩ = some text) :
    utf8 text = bytes := by
  unfold String.fromUTF8? at hText
  split at hText
  · cases hText
    rfl
  · cases hText

section Sizes

variable [PythonText]

theorem decodeText_size
    {buf : Bytes}
    {offset next : Nat}
    {value : Codable}
    (hOk : decodeText buf offset = .ok (value, next)) :
    next = offset + sizeOf value := by
  unfold decodeText at hOk
  rcases ok_of_bind hOk with ⟨_, _, hRest⟩
  simp only at hRest
  split at hRest
  · cases hRest
  · rename_i hInside
    split at hRest
    · rename_i text hText
      cases hRest
      have hBytes := congrArg List.length
        (utf8_of_fromUTF8? hText)
      unfold slice at hBytes
      rw [List.length_take, List.length_drop] at hBytes
      simp only [sizeOf, slice] at hInside ⊢
      omega
    · cases hRest

/- What is read is as long as the value that it is. -/
theorem decodeValue_size
    {dataType : DataType}
    {buf : Bytes}
    {offset next : Nat}
    {value : Codable}
    (hOk : decodeValue dataType buf offset =
      .ok (value, next)) :
    next = offset + sizeOf value := by
  cases dataType with
  | integer =>
    rcases ok_of_bind hOk with ⟨_, _, hEnd⟩
    cases hEnd
    rfl
  | float =>
    rcases ok_of_bind hOk with ⟨_, _, hEnd⟩
    cases hEnd
    rfl
  | boolean =>
    rcases ok_of_bind hOk with ⟨_, _, hEnd⟩
    cases hEnd
    rfl
  | text => exact decodeText_size hOk

theorem decodeColumns_size
    {raw : Bytes}
    {columns : List Serialization.Column}
    {index offset stop : Nat}
    {values : List Codable}
    (hOk : decodeColumns raw columns index offset =
      .ok (values, stop)) :
    stop = offset + sizeOfRow values := by
  induction columns generalizing index offset stop values with
  | nil =>
    cases hOk
    rfl
  | cons column rest ih =>
    rw [decodeColumns] at hOk
    split at hOk
    · rcases ok_of_bind hOk with ⟨found, hFound, hEnd⟩
      cases hEnd
      have hStop := ih hFound
      simpa [sizeOfRow, sizeOf] using hStop
    · rcases ok_of_bind hOk with ⟨value, hValue, hRest⟩
      rcases ok_of_bind hRest with ⟨found, hFound, hEnd⟩
      cases hEnd
      have hNext := decodeValue_size hValue
      have hStop := ih hFound
      simp only [sizeOfRow, List.map_cons, List.sum_cons]
        at hStop ⊢
      omega

/- A record is as long as the bitmap and the values in it. -/
theorem decodeRecord_size
    {schema : Schema}
    {raw : Bytes}
    {values : List Codable}
    (hOk : decodeRecord schema raw = .ok values) :
    raw.length = schema.nullBitmapSize + sizeOfRow values := by
  rcases ok_of_bind hOk with ⟨_, _, hRest⟩
  rcases ok_of_bind hRest with ⟨found, hFound, hEnd⟩
  have hStop := decodeColumns_size hFound
  simp only at hEnd
  split at hEnd
  · cases hEnd
  · rename_i hAll
    cases hEnd
    omega

/- Without its first bytes a record is no record of the same
   row. -/
theorem decodeRecord_shorter
    {schema : Schema}
    {raw : Bytes}
    {values shifted : List Codable}
    (hOk : decodeRecord schema raw = .ok values)
    (hShifted : decodeRecord schema (stripTupleHeader raw) =
      .ok shifted) :
    sizeOfRow shifted < sizeOfRow values := by
  have hSize := decodeRecord_size hOk
  have hShort := decodeRecord_size hShifted
  have hBitmap : 0 < schema.nullBitmapSize := by
    have hColumns := List.length_pos_of_ne_nil schema.nonempty
    unfold Schema.nullBitmapSize
    omega
  unfold stripTupleHeader tupleHeaderSize at hShort
  rw [List.length_drop] at hShort
  omega

end Sizes

--
-- Tables
--

section Reading

variable [PythonText]

/- What `INSERT` makes of a row, and what the catalog does:
   only the rows of a user table are versions. -/
def Encoded
    (schema : Schema)
    (isSystem : Bool)
    (raw : Bytes) : Prop :=
  ∃ values payload, encodeRecord schema values = .ok payload ∧
    if isSystem then raw = payload
    else ∃ xmin xmax, addTupleHeader payload xmin xmax = .ok raw

/- The records of a heap, in physical order, after any inserts,
   stamps and removals; a free slot is used wherever it is. -/
inductive Filled
    (schema : Schema)
    (isSystem : Bool) : List (RecordId × Bytes) → Prop where
  | empty : Filled schema isSystem []
  | insert {before after raw}
      (recordId : RecordId)
      (hFilled : Filled schema isSystem (before ++ after))
      (hEncoded : Encoded schema isSystem raw) :
      Filled schema isSystem
        (before ++ (recordId, raw) :: after)
  | stamp {before after recordId raw stamped}
      (xmax : Nat)
      (hUser : isSystem = false)
      (hFilled : Filled schema isSystem
        (before ++ (recordId, raw) :: after))
      (hStamp : setXmax raw xmax = .ok stamped) :
      Filled schema isSystem
        (before ++ (recordId, stamped) :: after)
  | remove {before after record}
      (hFilled : Filled schema isSystem
        (before ++ record :: after)) :
      Filled schema isSystem (before ++ after)

/- A table, of the catalog or of a user. -/
structure HeapTable (schema : Schema) where
  isSystem : Bool
  records : List (RecordId × Bytes)
  filled : Filled schema isSystem records

/- A version's row, if the snapshot sees it. -/
def visibleRowOf
    (schema : Schema)
    (snapshot : Snapshot)
    (record : RecordId × Bytes) :
    Except RecordError (Option (List Codable)) := do
  let header ← readTupleHeader record.2
  if visible header snapshot then
    let row ← decodeRecord schema (stripTupleHeader record.2)
    pure (some row)
  else pure none

variable {schema : Schema}

/- `SeqScan`, which asks `_visible_row` of every record. -/
def seqScan
    (table : HeapTable schema)
    (snapshot : Snapshot) :
    Except RecordError (List (List Codable)) := do
  let rows ←
    table.records.mapM (visibleRowOf schema snapshot)
  pure (rows.filterMap id)

/- `Database.scan`. -/
def databaseScan
    (table : HeapTable schema)
    (snapshot : Snapshot) :
    Except RecordError (List (List Codable)) :=
  if table.isSystem then
    table.records.mapM fun record =>
      decodeRecord schema record.2
  else do
    let rows ←
      table.records.mapM (visibleRowOf schema snapshot)
    pure (rows.filterMap id)

/- A column's statistics: the values there are, as a counter
   tells them apart, which the distinct count, the most common
   values and the histogram are made of. -/
structure ColumnStatistics where
  seen : Multiset Codable
  nullCount : Nat
deriving DecidableEq

structure TableStatistics where
  rowCount : Nat
  columns : List ColumnStatistics
deriving DecidableEq

/- One value, counted in its column. -/
def countValue
    (column : ColumnStatistics)
    (value : Codable) : ColumnStatistics :=
  if value.isNull then
    { column with nullCount := column.nullCount + 1 }
  else { column with seen := normal value ::ₘ column.seen }

def countRow
    (statistics : TableStatistics)
    (row : List Codable) : TableStatistics :=
  { rowCount := statistics.rowCount + 1
    columns := List.zipWith countValue statistics.columns row }

def nothingSeen (schema : Schema) : TableStatistics :=
  { rowCount := 0
    columns := schema.columns.map fun _ => ⟨0, 0⟩ }

/- The counts over some rows. -/
def countsOver
    (schema : Schema)
    (rows : List (List Codable)) : TableStatistics :=
  rows.foldl countRow (nothingSeen schema)

/- `StatisticsCatalog.gather`, which counts every version. -/
def gather (table : HeapTable schema) :
    Except RecordError TableStatistics :=
  table.records.foldlM (fun statistics record => do
    let row ← decodeRecord schema (stripTupleHeader record.2)
    pure (countRow statistics row)) (nothingSeen schema)

/- The row of each record, as it was stored. -/
def decodedRows (table : HeapTable schema) :
    Except RecordError (List (List Codable)) :=
  table.records.mapM fun record =>
    decodeRecord schema
      (if table.isSystem then record.2
      else stripTupleHeader record.2)

/- The plan reads the rows that `Database.scan` does. -/
def ScansAlike
    (table : HeapTable schema)
    (snapshot : Snapshot) : Prop :=
  ∃ rows, databaseScan table snapshot = .ok rows ∧
    seqScan table snapshot = .ok rows

/- The statistics count each record, and its values. -/
def GathersAll (table : HeapTable schema) : Prop :=
  ∃ rows statistics, decodedRows table = .ok rows ∧
    gather table = .ok statistics ∧
    statistics.rowCount = table.records.length ∧
    statistics = countsOver schema rows

/- Each record is one of a row, under a header or not. -/
theorem encoded_of_filled
    {isSystem : Bool}
    {records : List (RecordId × Bytes)}
    (hFilled : Filled schema isSystem records) :
    ∀ record ∈ records, Encoded schema isSystem record.2 := by
  induction hFilled with
  | empty => exact fun _ hMem => absurd hMem List.not_mem_nil
  | insert recordId _ hEncoded ih =>
    intro record hMem
    rcases List.mem_append.mp hMem with hIn | hIn
    · exact ih record (List.mem_append_left _ hIn)
    · rcases List.mem_cons.mp hIn with rfl | hIn
      · exact hEncoded
      · exact ih record (List.mem_append_right _ hIn)
  | stamp xmax hUser _ hStamp ih =>
    intro record hMem
    rcases List.mem_append.mp hMem with hIn | hIn
    · exact ih record (List.mem_append_left _ hIn)
    · rcases List.mem_cons.mp hIn with rfl | hIn
      · rcases ih _ (List.mem_append_right _
          (.head _)) with
          ⟨values, payload, hEncode, hRaw⟩
        subst hUser
        rcases hRaw with ⟨xmin, before, hHeader⟩
        refine ⟨values, payload, hEncode, xmin, xmax, ?_⟩
        rw [← (Serialization.setXmax_addTupleHeader
          hHeader).2.2]
        exact hStamp
      · exact ih record (List.mem_append_right _
          (.tail _ hIn))
  | remove _ ih =>
    intro record hMem
    rcases List.mem_append.mp hMem with hIn | hIn
    · exact ih record (List.mem_append_left _ hIn)
    · exact ih record (List.mem_append_right _
        (.tail _ hIn))

/- A record is read where its header ends, if it has one. -/
theorem decodes_of_encoded
    {isSystem : Bool}
    {raw : Bytes}
    (hEncoded : Encoded schema isSystem raw) :
    ∃ row, decodeRecord schema
      (if isSystem then raw else stripTupleHeader raw) =
        .ok row := by
  rcases hEncoded with ⟨values, payload, hEncode, hRaw⟩
  have hDecoded := (Serialization.roundTrip_of_encodeRecord
    hEncode).decoded
  cases isSystem with
  | true =>
    exact ⟨_, (congrArg (decodeRecord schema) hRaw).trans
      hDecoded⟩
  | false =>
    rcases hRaw with ⟨xmin, xmax, hHeader⟩
    have hStrip := (Serialization.setXmax_addTupleHeader
      hHeader).2.1
    exact ⟨_, (congrArg (decodeRecord schema) hStrip).trans
      hDecoded⟩

theorem header_of_encoded
    {raw : Bytes}
    (hEncoded : Encoded schema false raw) :
    ∃ header, readTupleHeader raw = .ok header := by
  rcases hEncoded with ⟨_, _, _, xmin, xmax, hHeader⟩
  exact ⟨_, (Serialization.setXmax_addTupleHeader hHeader).1⟩

omit [PythonText] in
theorem mapM_exists {α β : Type}
    {f : α → Except RecordError β}
    {xs : List α}
    (hEach : ∀ x ∈ xs, ∃ y, f x = .ok y) :
    ∃ ys, xs.mapM f = .ok ys := by
  induction xs with
  | nil => exact ⟨[], rfl⟩
  | cons x rest ih =>
    rcases hEach x (.head _) with ⟨y, hy⟩
    rcases ih (fun z hz => hEach z
      (.tail _ hz)) with ⟨ys, hys⟩
    exact ⟨y :: ys, by rw [List.mapM_cons, hy, hys]; rfl⟩

/- With a header on every record nothing goes wrong. -/
theorem visibleRows_ok
    {records : List (RecordId × Bytes)}
    (hEncoded : ∀ record ∈ records,
      Encoded schema false record.2)
    (snapshot : Snapshot) :
    ∃ rows, records.mapM (visibleRowOf schema snapshot) =
      .ok rows := by
  refine mapM_exists fun record hMem => ?_
  rcases header_of_encoded (hEncoded record hMem) with
    ⟨header, hHeader⟩
  rcases decodes_of_encoded (hEncoded record hMem) with
    ⟨row, hRow⟩
  rw [if_neg (by decide)] at hRow
  unfold visibleRowOf
  simp only [hHeader, hRow, bind, Except.bind]
  split <;> exact ⟨_, rfl⟩

/- The rows that are counted are those without their first
   bytes. -/
theorem gather_eq
    (table : HeapTable schema) :
    gather table = (do
      let rows ← table.records.mapM fun record =>
        decodeRecord schema (stripTupleHeader record.2)
      pure (countsOver schema rows)) := by
  unfold gather countsOver
  generalize nothingSeen schema = start
  induction table.records generalizing start with
  | nil => rfl
  | cons record rest ih =>
    rw [List.foldlM_cons, List.mapM_cons]
    cases decodeRecord schema
        (stripTupleHeader record.2) with
    | error error => rfl
    | ok row =>
      simp only [bind, Except.bind, pure, Except.pure]
        at ih ⊢
      rw [ih]
      cases rest.mapM fun record => decodeRecord schema
          (stripTupleHeader record.2) <;> rfl

omit [PythonText] in
theorem rowCount_foldl
    (rows : List (List Codable))
    (start : TableStatistics) :
    (rows.foldl countRow start).rowCount =
      start.rowCount + rows.length := by
  induction rows generalizing start with
  | nil => rfl
  | cons row rest ih =>
    rw [List.foldl_cons, ih, List.length_cons]
    simp only [countRow]
    omega

theorem scansAlike_of_user
    {table : HeapTable schema}
    (hUser : table.isSystem = false)
    (snapshot : Snapshot) :
    ScansAlike table snapshot := by
  have hEncoded := encoded_of_filled table.filled
  rw [hUser] at hEncoded
  rcases visibleRows_ok hEncoded snapshot with ⟨rows, hRows⟩
  refine ⟨rows.filterMap id, ?_, ?_⟩
  · unfold databaseScan
    rw [hUser, if_neg (by decide), hRows]
    rfl
  · unfold seqScan
    rw [hRows]
    rfl

theorem gathersAll_of_user
    {table : HeapTable schema}
    (hUser : table.isSystem = false) :
    GathersAll table := by
  have hEncoded := encoded_of_filled table.filled
  have hRows : ∃ rows, table.records.mapM (fun record =>
      decodeRecord schema (stripTupleHeader record.2)) =
        .ok rows := by
    refine mapM_exists fun record hMem => ?_
    rcases decodes_of_encoded (hEncoded record hMem) with
      ⟨row, hRow⟩
    rw [hUser, if_neg (by decide)] at hRow
    exact ⟨row, hRow⟩
  rcases hRows with ⟨rows, hRows⟩
  refine ⟨rows, countsOver schema rows, ?_, ?_, ?_, rfl⟩
  · unfold decodedRows
    rw [hUser]
    exact hRows
  · rw [gather_eq, hRows]
    rfl
  · unfold countsOver
    rw [rowCount_foldl, ← (List.forall₂_iff_get.mp
      (Library.Traversal.forall₂_of_mapM hRows)).1]
    exact Nat.zero_add _

--
-- Rows Without a Header
--

/- What a scan emits is no row of the catalog's own, once there
   is one. -/
theorem not_scansAlike
    {table : HeapTable schema}
    (hSystem : table.isSystem = true)
    (hSome : table.records ≠ [])
    (snapshot : Snapshot) :
    ¬ ScansAlike table snapshot := by
  rintro ⟨rows, hScan, hSeq⟩
  unfold databaseScan at hScan
  rw [if_pos hSystem] at hScan
  unfold seqScan at hSeq
  cases hRecords : table.records with
  | nil => exact hSome hRecords
  | cons record rest =>
    rw [hRecords, List.mapM_cons] at hScan hSeq
    rcases ok_of_bind hScan with ⟨row, hRow, hRest⟩
    rcases ok_of_bind hRest with ⟨later, hLater, hEnd⟩
    cases hEnd
    rcases ok_of_bind hSeq with ⟨found, hFound, hEnd⟩
    rcases ok_of_bind hFound with ⟨kept, hKept, hFound⟩
    rcases ok_of_bind hFound with ⟨others, hOthers, hAll⟩
    cases hAll
    have hEmitted : (kept :: others).filterMap id =
        row :: later := Except.ok.inj hEnd
    have hLength : others.length = later.length :=
      (Library.Traversal.forall₂_of_mapM
        hOthers).length_eq.symm.trans
        (Library.Traversal.forall₂_of_mapM
          hLater).length_eq
    cases kept with
    | none =>
      -- Fewer rows come out than there are records.
      have hFew := List.length_filterMap_le id others
      change others.filterMap id = _ at hEmitted
      rw [hEmitted, List.length_cons] at hFew
      omega
    | some shifted =>
      have hSame : shifted = row := by
        change shifted :: others.filterMap id = _
          at hEmitted
        exact (List.cons.inj hEmitted).1
      rcases ok_of_bind hKept with ⟨header, _, hVisible⟩
      split at hVisible
      · rcases ok_of_bind hVisible with
          ⟨found, hDecoded, hDone⟩
        cases hDone
        have hLess := decodeRecord_shorter hRow hDecoded
        rw [hSame] at hLess
        exact Nat.lt_irrefl _ hLess
      · cases hVisible

theorem decodeColumns_length
    {raw : Bytes}
    {columns : List Serialization.Column}
    {index offset stop : Nat}
    {values : List Codable}
    (hOk : decodeColumns raw columns index offset =
      .ok (values, stop)) :
    values.length = columns.length := by
  induction columns generalizing index offset stop values with
  | nil =>
    cases hOk
    rfl
  | cons column rest ih =>
    rw [decodeColumns] at hOk
    split at hOk
    · rcases ok_of_bind hOk with ⟨found, hFound, hEnd⟩
      cases hEnd
      rw [List.length_cons, List.length_cons, ih hFound]
    · rcases ok_of_bind hOk with ⟨value, _, hRest⟩
      rcases ok_of_bind hRest with ⟨found, hFound, hEnd⟩
      cases hEnd
      rw [List.length_cons, List.length_cons, ih hFound]

theorem decodeRecord_length
    {raw : Bytes}
    {values : List Codable}
    (hOk : decodeRecord schema raw = .ok values) :
    values.length = schema.columns.length := by
  rcases ok_of_bind hOk with ⟨_, _, hRest⟩
  rcases ok_of_bind hRest with ⟨found, hFound, hEnd⟩
  simp only at hEnd
  split at hEnd
  · cases hEnd
  · cases hEnd
    exact decodeColumns_length hFound

omit [PythonText]

/- How many bytes the values counted take up. -/
def weight (columns : List ColumnStatistics) : Nat :=
  (columns.map fun column => (column.seen.map sizeOf).sum).sum

theorem sizeOf_normal (value : Codable) :
    sizeOf (normal value) = sizeOf value := by
  cases value <;> rfl

theorem weight_countValue
    {columns : List ColumnStatistics}
    {row : List Codable}
    (hLength : row.length = columns.length) :
    weight (List.zipWith countValue columns row) =
      weight columns + sizeOfRow row := by
  induction columns generalizing row with
  | nil =>
    cases row with
    | nil => rfl
    | cons value rest => cases hLength
  | cons column rest ih =>
    cases row with
    | nil => cases hLength
    | cons value later =>
      have hRest := ih (Nat.succ.inj hLength)
      have hOne : ((countValue column value).seen.map
          sizeOf).sum =
            (column.seen.map sizeOf).sum +
              sizeOf value := by
        unfold countValue
        cases value with
        | null => rfl
        | _ =>
          show ((normal _ ::ₘ column.seen).map
            sizeOf).sum = _
          rw [Multiset.map_cons, Multiset.sum_cons,
            sizeOf_normal, Nat.add_comm]
      simp only [weight, sizeOfRow, List.zipWith_cons_cons,
        List.map_cons, List.sum_cons, hOne] at hRest ⊢
      omega

theorem weight_countsOver
    {rows : List (List Codable)}
    {start : TableStatistics}
    (hLength : ∀ row ∈ rows,
      row.length = start.columns.length) :
    weight (rows.foldl countRow start).columns =
      weight start.columns + (rows.map sizeOfRow).sum := by
  induction rows generalizing start with
  | nil => rfl
  | cons row rest ih =>
    have hRow := hLength row (.head _)
    have hNext : (countRow start row).columns.length =
        start.columns.length := by
      show (List.zipWith _ _ _).length = _
      rw [List.length_zipWith, hRow, Nat.min_self]
    rw [List.foldl_cons, ih fun other hMem => (hLength other
      (.tail _ hMem)).trans hNext.symm]
    show weight (List.zipWith _ _ _) + _ = _
    rw [weight_countValue hRow, List.map_cons,
      List.sum_cons, Nat.add_assoc]

variable [PythonText]

/- Of the rows without their first bytes, none is as long as
   the row it was made of. -/
theorem sizes_shorter
    {records : List (RecordId × Bytes)}
    {rows shifted : List (List Codable)}
    (hRows : records.mapM (fun record =>
      decodeRecord schema record.2) = .ok rows)
    (hShifted : records.mapM (fun record =>
      decodeRecord schema (stripTupleHeader record.2)) =
        .ok shifted) :
    (shifted.map sizeOfRow).sum + records.length ≤
      (rows.map sizeOfRow).sum := by
  induction records generalizing rows shifted with
  | nil =>
    cases hRows
    cases hShifted
    exact Nat.le_refl _
  | cons record rest ih =>
    rw [List.mapM_cons] at hRows hShifted
    rcases ok_of_bind hRows with ⟨row, hRow, hRest⟩
    rcases ok_of_bind hRest with ⟨later, hLater, hEnd⟩
    cases hEnd
    rcases ok_of_bind hShifted with ⟨short, hShort, hRest⟩
    rcases ok_of_bind hRest with ⟨others, hOthers, hEnd⟩
    cases hEnd
    have hLess := decodeRecord_shorter hRow hShort
    have hAll := ih hLater hOthers
    simp only [List.map_cons, List.sum_cons, List.length_cons]
    omega

theorem not_gathersAll
    {table : HeapTable schema}
    (hSystem : table.isSystem = true)
    (hSome : table.records ≠ []) :
    ¬ GathersAll table := by
  rintro ⟨rows, statistics, hRows, hGather, _, rfl⟩
  unfold decodedRows at hRows
  rw [hSystem] at hRows
  rw [gather_eq] at hGather
  rcases ok_of_bind hGather with ⟨shifted, hShifted, hEnd⟩
  have hCounts : countsOver schema shifted =
      countsOver schema rows := Except.ok.inj hEnd
  have hWidth : ∀ {found : List (List Codable)}
      {read : RecordId × Bytes → Bytes},
      table.records.mapM (fun record =>
        decodeRecord schema (read record)) = .ok found →
      ∀ row ∈ found, row.length =
        (nothingSeen schema).columns.length := by
    intro found read hFound row hRow
    rcases List.getElem_of_mem hRow with ⟨index, hIndex, rfl⟩
    have hEach := List.forall₂_iff_get.mp
      (Library.Traversal.forall₂_of_mapM hFound)
    unfold nothingSeen
    rw [List.length_map]
    exact decodeRecord_length
      (hEach.2 index (hEach.1 ▸ hIndex) hIndex)
  have hWeights := congrArg (fun statistics =>
    weight statistics.columns) hCounts
  unfold countsOver at hWeights
  simp only [weight_countsOver (hWidth hShifted),
    weight_countsOver (hWidth hRows)] at hWeights
  have hShorter := sizes_shorter hRows hShifted
  have hLength := List.length_pos_of_ne_nil hSome
  omega

theorem reads_nothing
    {table : HeapTable schema}
    (hNone : table.records = [])
    (snapshot : Snapshot) :
    ScansAlike table snapshot ∧ GathersAll table := by
  constructor
  · refine ⟨[], ?_, ?_⟩
    · unfold databaseScan
      rw [hNone]
      split <;> rfl
    · unfold seqScan
      rw [hNone]
      rfl
  · refine ⟨[], nothingSeen schema, ?_, ?_, ?_, rfl⟩
    · unfold decodedRows
      rw [hNone]
      rfl
    · unfold gather
      rw [hNone]
      rfl
    · rw [hNone]
      rfl

/-
  A table reads the same by a plan as by `Database.scan`, and
  is counted as it is read, exactly when it is a user's, or is
  a table of the catalog with no record in it.
-/
theorem reads_same_iff
    (table : HeapTable schema)
    (snapshot : Snapshot) :
    (ScansAlike table snapshot ↔
      table.isSystem = false ∨ table.records = []) ∧
    (GathersAll table ↔
      table.isSystem = false ∨ table.records = []) := by
  cases hSystem : table.isSystem with
  | false =>
    exact ⟨iff_of_true (scansAlike_of_user hSystem snapshot)
        (.inl rfl),
      iff_of_true (gathersAll_of_user hSystem) (.inl rfl)⟩
  | true =>
    by_cases hNone : table.records = []
    · rcases reads_nothing hNone snapshot with
        ⟨hScans, hGathers⟩
      exact ⟨iff_of_true hScans (.inr hNone),
        iff_of_true hGathers (.inr hNone)⟩
    · have hNeither : ¬ (true = false ∨
          table.records = []) := by
        rintro (hUser | hEmpty)
        · cases hUser
        · exact hNone hEmpty
      exact ⟨iff_of_false
          (not_scansAlike hSystem hNone snapshot) hNeither,
        iff_of_false (not_gathersAll hSystem hNone)
          hNeither⟩

end Reading

--
-- The Catalog's Own Row
--

section OneTable

attribute [local instance] Serialization.asWritten

def tablesTable : Schema where
  columns :=
    [⟨"table_id", .integer, false⟩, ⟨"name", .text, false⟩,
     ⟨"first_page", .integer, false⟩,
     ⟨"last_page", .integer, false⟩]
  nonempty := nofun

/- The row of a table `t` in `chendb_tables`. -/
def bytesOfOne : Bytes :=
  [0, 100, 0, 0, 0, 0, 0, 0, 0, 1, 0, 0, 0, 116,
    5, 0, 0, 0, 0, 0, 0, 0, 5, 0, 0, 0, 0, 0, 0, 0]

theorem stored_bytesOfOne :
    Encoded tablesTable true bytesOfOne :=
  ⟨[.int 100, .text "t", .int 5, .int 5], bytesOfOne, rfl, rfl⟩

def listingOne : HeapTable tablesTable where
  isSystem := true
  records := [(⟨1, 0⟩, bytesOfOne)]
  filled := @Filled.insert _ tablesTable true [] [] _ ⟨1, 0⟩
    .empty stored_bytesOfOne

def noneRunning : Snapshot where
  xmin := 3
  xmax := 3
  active := []
  frozenXid := 3
  owner := 0

/- `Database.scan` reads the row; a plan does not, and the
   statistics are not of it. -/
theorem catalog_read_shifted :
    databaseScan listingOne noneRunning =
      .ok [[.int 100, .text "t", .int 5, .int 5]] ∧
    ¬ ScansAlike listingOne noneRunning ∧
    ¬ GathersAll listingOne :=
  ⟨rfl, not_scansAlike rfl (List.cons_ne_nil _ _) noneRunning,
    not_gathersAll rfl (List.cons_ne_nil _ _)⟩

end OneTable

end Executor

end ChenDB
