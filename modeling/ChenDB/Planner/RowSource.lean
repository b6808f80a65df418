import ChenDB.Indexing.OneSession
import ChenDB.Optimizer.ConstantFolding
import ChenDB.Planner.IndexBounds
import ChenDB.Serialization.Record

/-
  The rows an UPDATE or a DELETE is about to change: the ways
  its WHERE can be planned, and what each of them finds.
-/

--
-- Tables
--

namespace ChenDB

namespace Planner

open Executor (Binary64 Expression FloatArithmetic Row
  evaluate holds holds_and holds_iff holds_term matchesRow
  matchesRow_ok rebuildConjunction splitConjunction tablesOf)
open Indexing (DataType Entry Key KeyTexts Storable Tree
  encodeKey)
open Library (KeyRange)
open Library.StateExcept (ok_of_bind)
open Mvcc (Version)
open Optimizer (foldConstantsIn)
open Serialization (PythonText RecordError)
open Storage (HeapFile Payload RecordId)
open Transaction (Snapshot TupleHeader visible)
open scoped Library.ByteOrder

/- A row as it comes back from the heap: every value is NULL
   or one that its column can hold. -/
structure StoredRow (schema : Serialization.Schema) where
  values : Row Binary64 schema.columns.length
  storable : ∀ index, values index = .null ∨
    Storable (schema.columns.get index).dataType
      (values index)

variable {schema : Serialization.Schema}

/- The bytes of an encoded row. -/
instance storedRowPayload [PythonText] :
    Payload (StoredRow schema) where
  size row :=
    match Serialization.encodeRecord schema
        (List.ofFn row.values) with
    | .ok raw => raw.length
    | .error _ => 0

/- An index over one column, by the entries of its leaves in
   order. -/
structure TableIndex (schema : Serialization.Schema) where
  name : String
  position : Fin schema.columns.length
  unique : Bool
  entries : List Entry

namespace TableIndex

def dataType (index : TableIndex schema) : DataType :=
  (schema.columns.get index.position).dataType

/- The tree behind the index, over rows as they are given. -/
def tree (index : TableIndex schema) :
    Tree (Row Binary64 schema.columns.length) Binary64 where
  unique := index.unique
  dataType := index.dataType
  column row := row index.position
  entries := index.entries

end TableIndex

/- A table with its indexes, which are kept by name. -/
structure UserTable (schema : Serialization.Schema) where
  name : String
  heap : HeapFile (Version (StoredRow schema))
  indexes : List (TableIndex schema)

abbrev Found (schema : Serialization.Schema) :=
  RecordId × StoredRow schema

/- What planning and running a statement raise. -/
inductive Raised where
  | binding (message : String)
  | engine (error : EngineError)
  | record (error : RecordError)
  | execution (message : String)
deriving DecidableEq, Repr

/- The version's row, if its header is one to keep. -/
def keptRow
    (keep : TupleHeader → Bool)
    (record : RecordId × Version (StoredRow schema)) :
    Option (Found schema) :=
  if keep record.2.header then some (record.1, record.2.row)
  else none

/- The rows of the versions to keep, in physical order. -/
def keptRows
    (keep : TupleHeader → Bool)
    (heap : HeapFile (Version (StoredRow schema))) :
    List (Found schema) :=
  heap.records.filterMap (keptRow keep)

/- `_visible_row`. -/
def visibleRow
    (snapshot : Snapshot)
    (record : RecordId × Version (StoredRow schema)) :
    Option (Found schema) :=
  keptRow (visible · snapshot) record

/- The rows a snapshot sees. -/
def UserTable.visibleRows
    (table : UserTable schema)
    (snapshot : Snapshot) : List (Found schema) :=
  keptRows (visible · snapshot) table.heap

--
-- Access Paths
--

inductive AccessPath (schema : Serialization.Schema) where
  | seqScan
  | indexScan
      (index : TableIndex schema)
      (range : KeyRange Key)

/- A leaf of the plan, and which conjuncts it stands for. -/
structure Candidate (schema : Serialization.Schema) where
  path : AccessPath schema
  absorbed : List Nat

abbrev Conjuncts := List (Nat × Expression Binary64)

/- `_tables_of` is the one table there is. -/
def readsTable (term : Expression Binary64) : Bool :=
  !(tablesOf term).isEmpty && (tablesOf term).all (· = 0)

/- The column a term compares with a literal. -/
def comparedColumn
    (term : Expression Binary64) : Option Nat :=
  (asColumnComparison term).map fun matched =>
    matched.1.columnIndex

def comparedColumns (mine : Conjuncts) : List Nat :=
  (mine.filterMap fun conjunct =>
    comparedColumn conjunct.2).eraseDups

def comparisonsOn
    (mine : Conjuncts)
    (column : Nat) : Conjuncts :=
  mine.filter fun conjunct =>
    comparedColumn conjunct.2 = some column

/- The unique ones come first. -/
def UserTable.indexesOn
    (table : UserTable schema)
    (column : Nat) : List (TableIndex schema) :=
  let found := table.indexes.filter fun index =>
    index.position.val = column
  found.filter (·.unique) ++ found.filter (!·.unique)

section Planning

variable [FloatArithmetic] [KeyTexts]

/- One index that may bound some of the conjuncts. -/
def consider
    (mine : Conjuncts)
    (column : Nat)
    (index : TableIndex schema) :
    Except EngineError (Option (Candidate schema)) := do
  let bounds ← boundsFor (comparisonsOn mine column)
    index.dataType
  pure (bounds.map fun bounds =>
    { path := .indexScan index bounds.range
      absorbed := bounds.absorbed })

def considerAll
    (mine : Conjuncts) :
    List (Nat × TableIndex schema) →
      Except EngineError (List (Candidate schema))
  | [] => .ok []
  | (column, index) :: rest => do
      let first ← consider mine column index
      let others ← considerAll mine rest
      pure (first.toList ++ others)

/- `_enumerate`: every way to read the table, the sequential
   scan first. -/
def enumerate
    (table : UserTable schema)
    (mine : Conjuncts) :
    Except EngineError (List (Candidate schema)) := do
  let indexed ← considerAll mine
    ((comparedColumns mine).flatMap fun column =>
      (table.indexesOn column).map fun index =>
        (column, index))
  pure ({ path := .seqScan, absorbed := [] } :: indexed)

/- The WHERE once the rules have gone over it: constants are
   folded, and `WHERE TRUE` is dropped. -/
def rewriteWhere :
    Option (Expression Binary64) →
      Except EngineError (Option (Expression Binary64))
  | none => .ok none
  | some predicate => do
      let folded ← foldConstantsIn predicate
      match folded with
      | .literal (.bool true) => pure none
      | folded => pure (some folded)

/- The conjuncts of what is left, with their places. -/
def numbered :
    Option (Expression Binary64) → Conjuncts
  | none => []
  | some folded =>
    (splitConjunction folded).zipIdx.map Prod.swap

def conjunctsOf
    (predicate : Option (Expression Binary64)) :
    Except EngineError Conjuncts :=
  (rewriteWhere predicate).map numbered

end Planning

/- A scan and the filters above it, the innermost first. -/
structure RowSource (schema : Serialization.Schema) where
  path : AccessPath schema
  filters : List (Expression Binary64)

def filterOf
    (conjuncts : Conjuncts) : List (Expression Binary64) :=
  (rebuildConjunction (conjuncts.map Prod.snd)).toList

/- What the scan did not absorb is filtered right above it,
   and what reads no table above that. -/
def assemble
    (conjuncts : Conjuncts)
    (candidate : Candidate schema) : RowSource schema where
  path := candidate.path
  filters :=
    filterOf (conjuncts.filter fun conjunct =>
        readsTable conjunct.2 ∧
          conjunct.1 ∉ candidate.absorbed) ++
      filterOf (conjuncts.filter fun conjunct =>
        ¬ readsTable conjunct.2)

/- `plan_row_source`. Which candidate is the cheapest is for
   statistics to say; here it is any number. -/
def planRowSource [FloatArithmetic] [KeyTexts]
    (table : UserTable schema)
    (predicate : Option (Expression Binary64))
    (cheapest : Nat) :
    Except EngineError (RowSource schema) := do
  let conjuncts ← conjunctsOf predicate
  let candidates ← enumerate table
    (conjuncts.filter fun conjunct => readsTable conjunct.2)
  pure (assemble conjuncts
    (candidates.getD cheapest
      { path := .seqScan, absorbed := [] }))

--
-- Locating Rows
--

/- Is the key one that `range_scan` yields? -/
def withinRange (range : KeyRange Key) (key : Key) : Bool :=
  (match range.low with
    | none => true
    | some low =>
      if range.includeLow then low ≤ key else low < key) &&
  match range.high with
  | none => true
  | some high =>
    if range.includeHigh then key ≤ high else key < high

/- What the scan emits: by way of an index, an entry whose row
   is gone or cannot be seen is passed over. -/
def scanRows
    (table : UserTable schema)
    (snapshot : Snapshot) :
    AccessPath schema → List (Found schema)
  | .seqScan => table.visibleRows snapshot
  | .indexScan index range =>
    (index.entries.filter fun entry =>
      withinRange range entry.1).filterMap fun entry =>
        (table.heap.get entry.2).bind fun version =>
          visibleRow snapshot (entry.2, version)

section Locating

variable [FloatArithmetic]

/- Every filter in turn, up to one that drops the row. -/
def passes
    (row : Row Binary64 schema.columns.length) :
    List (Expression Binary64) → Except EngineError Bool
  | [] => .ok true
  | predicate :: rest => do
      if ← matchesRow predicate "WHERE" row then
        passes row rest
      else pure false

/- The loop of `_locate_rows`, with how many rows it has. -/
def drain
    (filters : List (Expression Binary64))
    (limit : Nat)
    (count : Nat) :
    List (Found schema) → Except Raised (List (Found schema))
  | [] => .ok []
  | record :: rest => do
      let passed ← (passes record.2.values filters).mapError
        Raised.engine
      if passed then
        if count + 1 ≥ limit then
          throw (.execution
            (s!"more than {limit} rows match; ChenDB will " ++
              "not change part of a statement's rows and " ++
              "call it done"))
        else
          let later ← drain filters limit (count + 1) rest
          pure (record :: later)
      else drain filters limit count rest

/- The plan is run to its end before anything is changed. -/
def locateRows
    (table : UserTable schema)
    (snapshot : Snapshot)
    (source : RowSource schema)
    (limit : Nat) : Except Raised (List (Found schema)) :=
  drain source.filters limit 0
    (scanRows table snapshot source.path)

end Locating

--
-- Conjunctions
--

section Conjunctions

variable [FloatArithmetic]
variable {width : Nat} {row : Row Binary64 width}

theorem holds_and_iff
    {left right : Expression Binary64} :
    holds (.binaryOp .and left right) row = true ↔
      holds left row = true ∧ holds right row = true := by
  constructor
  · exact holds_and
  · rintro ⟨hLeft, hRight⟩
    rw [holds_iff] at hLeft hRight ⊢
    simp only [evaluate, hLeft, hRight]
    rfl

/- A conjunction is TRUE where all its terms are. -/
theorem holds_split_iff
    (predicate : Expression Binary64) :
    holds predicate row = true ↔
      ∀ term ∈ splitConjunction predicate,
        holds term row = true := by
  refine ⟨holds_term predicate, ?_⟩
  induction predicate using
    ChenDB.Executor.splitConjunction.induct with
  | case1 left right ihLeft ihRight =>
    intro hTerms
    rw [splitConjunction] at hTerms
    exact holds_and_iff.mpr
      ⟨ihLeft fun term hTerm =>
          hTerms term (List.mem_append_left _ hTerm),
        ihRight fun term hTerm =>
          hTerms term (List.mem_append_right _ hTerm)⟩
  | case2 expression hNot =>
    intro hTerms
    apply hTerms
    rw [splitConjunction]
    · exact List.mem_singleton_self _
    · exact hNot

theorem holds_foldl
    (first : Expression Binary64)
    (rest : List (Expression Binary64)) :
    holds (rest.foldl (.binaryOp .and) first) row = true ↔
      ∀ term ∈ first :: rest, holds term row = true := by
  induction rest generalizing first with
  | nil => simp
  | cons next rest ih =>
    rw [List.foldl_cons, ih]
    simp only [List.forall_mem_cons, holds_and_iff, and_assoc]

theorem holds_filterOf (conjuncts : Conjuncts) :
    (∀ term ∈ filterOf conjuncts, holds term row = true) ↔
      ∀ conjunct ∈ conjuncts,
        holds conjunct.2 row = true := by
  unfold filterOf
  cases conjuncts with
  | nil => simp [rebuildConjunction]
  | cons first rest =>
    rw [List.map_cons, rebuildConjunction,
      Option.toList_some, List.forall_mem_singleton,
      holds_foldl, ← List.map_cons, List.forall_mem_map]

/- What the filters of a plan leave out is what its scan
   absorbed. -/
theorem holds_assemble
    (conjuncts : Conjuncts)
    (candidate : Candidate schema) :
    (∀ term ∈ (assemble conjuncts candidate).filters,
        holds term row = true) ↔
      ∀ conjunct ∈ conjuncts,
        (readsTable conjunct.2 = true ∧
            conjunct.1 ∈ candidate.absorbed) ∨
          holds conjunct.2 row = true := by
  unfold assemble
  rw [List.forall_mem_append, holds_filterOf, holds_filterOf]
  simp only [List.mem_filter, decide_eq_true_eq]
  constructor
  · rintro ⟨hMine, hOthers⟩ conjunct hMem
    by_cases hReads : readsTable conjunct.2 = true
    · by_cases hAbsorbed : conjunct.1 ∈ candidate.absorbed
      · exact .inl ⟨hReads, hAbsorbed⟩
      · exact .inr (hMine conjunct
          ⟨hMem, hReads, hAbsorbed⟩)
    · exact .inr (hOthers conjunct ⟨hMem, hReads⟩)
  · intro hEach
    constructor
    · rintro conjunct ⟨hMem, hReads, hNot⟩
      exact (hEach conjunct hMem).resolve_left fun hBoth =>
        hNot hBoth.2
    · rintro conjunct ⟨hMem, hNot⟩
      exact (hEach conjunct hMem).resolve_left fun hBoth =>
        hNot hBoth.1

/- Is the WHERE, if there is one, TRUE of the row? -/
def matchesWhere
    (predicate : Option (Expression Binary64))
    (row : Row Binary64 width) : Bool :=
  predicate.all fun predicate => holds predicate row

variable {ε α : Type} {result : Except ε α}

omit [FloatArithmetic] in
theorem ok_of_map
    {β : Type}
    {f : α → β}
    {value : β}
    (hOk : result.map f = .ok value) :
    ∃ found, result = .ok found ∧ f found = value := by
  cases result with
  | error raised => cases hOk
  | ok found => exact ⟨found, rfl, Except.ok.inj hOk⟩

theorem numbered_iff (folded : Expression Binary64) :
    (∀ conjunct ∈ numbered (some folded),
      holds conjunct.2 row = true) ↔
      holds folded row = true := by
  unfold numbered
  rw [holds_split_iff, List.forall_mem_map]
  conv_rhs =>
    rw [← List.zipIdx_map_fst 0 (splitConjunction folded),
      List.forall_mem_map]
  rfl

/- What the rules make of the WHERE is TRUE of the same
   rows. -/
theorem matchesWhere_iff
    {predicate : Option (Expression Binary64)}
    {conjuncts : Conjuncts}
    (hConjuncts : conjunctsOf predicate = .ok conjuncts) :
    matchesWhere predicate row = true ↔
      ∀ conjunct ∈ conjuncts,
        holds conjunct.2 row = true := by
  rcases ok_of_map hConjuncts with ⟨kept, hRewrite, rfl⟩
  cases predicate with
  | none =>
    cases hRewrite
    simp [matchesWhere, numbered]
  | some predicate =>
    rcases ok_of_bind hRewrite with ⟨folded, hFold, hDrop⟩
    have hSame := (Optimizer.evaluate_foldConstantsIn row _
      hFold).1
    have hFolded : matchesWhere (some predicate) row =
        true ↔ holds folded row = true := by
      rw [holds_iff, hSame, ← holds_iff]
      rfl
    rw [hFolded]
    split at hDrop
    · cases hDrop
      exact iff_of_true rfl nofun
    · cases hDrop
      exact (numbered_iff _).symm

omit [FloatArithmetic] in
theorem ok_of_mapError
    {ε' : Type}
    {f : ε → ε'}
    {value : α}
    (hOk : result.mapError f = .ok value) :
    result = .ok value := by
  cases result with
  | error raised => cases hOk
  | ok found =>
    cases hOk
    rfl

variable {filters : List (Expression Binary64)}

theorem passes_ok
    {row : Row Binary64 schema.columns.length}
    {passed : Bool}
    (hOk : passes row filters = .ok passed) :
    passed = true ↔
      ∀ predicate ∈ filters, holds predicate row = true := by
  induction filters with
  | nil =>
    cases hOk
    simp
  | cons predicate rest ih =>
    rcases ok_of_bind hOk with ⟨matched, hMatch, hRest⟩
    rw [List.forall_mem_cons, ← matchesRow_ok hMatch]
    cases matched with
    | false =>
      cases hRest
      simp
    | true =>
      rw [ih hRest]
      simp

/- What is located is what passes every filter. -/
theorem drain_ok
    {limit count : Nat}
    {rows located : List (Found schema)}
    (hOk : drain filters limit count rows = .ok located) :
    located = rows.filter fun record =>
      filters.all fun predicate =>
        holds predicate record.2.values := by
  induction rows generalizing count located with
  | nil =>
    cases hOk
    rfl
  | cons record rest ih =>
    rcases ok_of_bind hOk with ⟨passed, hPassed, hRest⟩
    have hPasses := passes_ok (ok_of_mapError hPassed)
    rw [← List.all_eq_true] at hPasses
    rw [List.filter_cons]
    cases passed with
    | false =>
      rw [if_neg fun hAll => by cases hPasses.mpr hAll]
      exact ih hRest
    | true =>
      rw [if_pos (hPasses.mp rfl)]
      rw [if_pos rfl] at hRest
      split at hRest
      · cases hRest
      · rcases ok_of_bind hRest with
          ⟨later, hLater, hDone⟩
        cases hDone
        rw [ih hLater]

end Conjunctions

--
-- What a Plan Finds
--

/- The index has one entry for each of the rows, under the key
   of the row's value, and no other. -/
structure TableIndex.Agrees
    (index : TableIndex schema)
    (rows : List (Found schema))
    [KeyTexts] : Prop where
  once : index.entries.Nodup
  exact : ∀ key recordId,
    (key, recordId) ∈ index.entries ↔
      ∃ row, (recordId, row) ∈ rows ∧
        encodeKey (row.values index.position)
          index.dataType = .ok key

section Kept

variable {keep : TupleHeader → Bool}
variable {heap : HeapFile (Version (StoredRow schema))}

theorem keptRow_some
    {record : RecordId × Version (StoredRow schema)}
    {found : Found schema} :
    keptRow keep record = some found ↔
      keep record.2.header = true ∧
        (record.1, record.2.row) = found := by
  unfold keptRow
  split
  · rename_i hKept
    simp [hKept]
  · rename_i hDropped
    simp [hDropped]

theorem mem_keptRows
    {recordId : RecordId}
    {row : StoredRow schema} :
    (recordId, row) ∈ keptRows keep heap ↔
      ∃ version, heap.get recordId = some version ∧
        keep version.header = true ∧ version.row = row := by
  unfold keptRows
  rw [List.mem_filterMap]
  constructor
  · rintro ⟨⟨place, version⟩, hMem, hFound⟩
    rcases keptRow_some.mp hFound with ⟨hKept, hSame⟩
    cases hSame
    exact ⟨version, HeapFile.mem_records.mp hMem, hKept, rfl⟩
  · rintro ⟨version, hGet, hKept, rfl⟩
    exact ⟨(recordId, version), HeapFile.mem_records.mpr hGet,
      keptRow_some.mpr ⟨hKept, rfl⟩⟩

/- Picking from a list by place keeps the places in order. -/
theorem sublist_filterMap
    {α β γ : Type}
    {pick : α → Option β}
    {f : α → γ}
    {g : β → γ}
    (hSame : ∀ item found, pick item = some found →
      g found = f item)
    (items : List α) :
    ((items.filterMap pick).map g).Sublist (items.map f) := by
  induction items with
  | nil => exact .slnil
  | cons item rest ih =>
    rw [List.filterMap_cons, List.map_cons]
    cases hPick : pick item with
    | none => exact ih.cons _
    | some found =>
      rw [List.map_cons, hSame item found hPick]
      exact ih.cons_cons _

theorem keptRows_nodup :
    ((keptRows keep heap).map Prod.fst).Nodup :=
  heap.records_nodup.sublist
    (sublist_filterMap
      (fun record found hFound => by
        rw [← (keptRow_some.mp hFound).2])
      heap.records)

/- Rows that have one row for each address. -/
def OneEach (rows : List (Found schema)) : Prop :=
  ∀ recordId first second,
    (recordId, first) ∈ rows →
      (recordId, second) ∈ rows → first = second

theorem keptRows_oneEach :
    OneEach (keptRows keep heap) := by
  intro recordId first second hFirst hSecond
  rcases mem_keptRows.mp hFirst with ⟨_, hGet, _, rfl⟩
  rcases mem_keptRows.mp hSecond with ⟨_, hGet', _, rfl⟩
  cases hGet.symm.trans hGet'
  rfl

end Kept

section Scans

variable {table : UserTable schema} {snapshot : Snapshot}
variable [KeyTexts]

/- An index that agrees with the rows leads to those whose keys
   are in the range, and to each of them once. -/
theorem scanRows_index
    {index : TableIndex schema}
    (hAgrees : index.Agrees (table.visibleRows snapshot))
    (range : KeyRange Key) :
    ((scanRows table snapshot
        (.indexScan index range)).map Prod.fst).Nodup ∧
    ∀ recordId row,
      (recordId, row) ∈ scanRows table snapshot
          (.indexScan index range) ↔
        (recordId, row) ∈ table.visibleRows snapshot ∧
          ∃ key,
            encodeKey (row.values index.position)
              index.dataType = .ok key ∧
            withinRange range key = true := by
  have hFetch : ∀ (entry : Entry) (found : Found schema),
      ((table.heap.get entry.2).bind fun version =>
        visibleRow snapshot (entry.2, version)) = some found ↔
        found.1 = entry.2 ∧
          found ∈ table.visibleRows snapshot := by
    rintro ⟨key, place⟩ ⟨recordId, row⟩
    simp only [visibleRow, Option.bind_eq_some_iff,
      keptRow_some, Prod.mk.injEq]
    constructor
    · rintro ⟨version, hGet, hVisible, rfl, rfl⟩
      exact ⟨rfl, mem_keptRows.mpr
        ⟨version, hGet, hVisible, rfl⟩⟩
    · rintro ⟨rfl, hMem⟩
      rcases mem_keptRows.mp hMem with
        ⟨version, hGet, hVisible, rfl⟩
      exact ⟨version, hGet, hVisible, rfl, rfl⟩
  have hApart : (index.entries.map Prod.snd).Nodup := by
    refine hAgrees.once.map_on ?_
    rintro ⟨key, place⟩ hFirst ⟨key', place'⟩ hSecond hSame
    cases hSame
    rcases (hAgrees.exact _ _).mp hFirst with ⟨row, hRow, hKey⟩
    rcases (hAgrees.exact _ _).mp hSecond with
      ⟨row', hRow', hKey'⟩
    rw [keptRows_oneEach _ _ _ hRow hRow'] at hKey
    cases hKey.symm.trans hKey'
    rfl
  constructor
  · refine (hApart.sublist
      (List.filter_sublist.map Prod.snd)).sublist
        (sublist_filterMap (fun entry found hFound => ?_) _)
    exact ((hFetch entry found).mp hFound).1
  · intro recordId row
    unfold scanRows
    simp only [List.mem_filterMap, List.mem_filter, hFetch]
    constructor
    · rintro ⟨⟨key, place⟩, ⟨hEntry, hRange⟩, rfl, hMem⟩
      rcases (hAgrees.exact _ _).mp hEntry with
        ⟨row', hRow', hKey⟩
      rw [keptRows_oneEach _ _ _ hRow' hMem] at hKey
      exact ⟨hMem, key, hKey, hRange⟩
    · rintro ⟨hMem, key, hKey, hRange⟩
      exact ⟨(key, recordId),
        ⟨(hAgrees.exact _ _).mpr ⟨row, hMem, hKey⟩, hRange⟩,
        rfl, hMem⟩

end Scans

theorem withinRange_iff
    (range : KeyRange Key)
    (key : Key) :
    withinRange range key = true ↔ range.Contains key := by
  unfold withinRange KeyRange.Contains KeyRange.FromLow
    KeyRange.ToHigh
  rw [Bool.and_eq_true]
  refine and_congr ?_ ?_
  · cases range.low with
    | none => simp
    | some low =>
      simp only [Option.some.injEq, forall_eq']
      split <;> simp
  · cases range.high with
    | none => simp
    | some high =>
      simp only [Option.some.injEq, forall_eq']
      split <;> simp

section Plans

variable [FloatArithmetic] [KeyTexts]

variable {bounds : IndexBounds}

theorem boundsFor_absorbed
    {candidates : Conjuncts}
    {dataType : DataType}
    (hBounds : boundsFor candidates dataType =
      .ok (some bounds)) :
    ∀ position ∈ bounds.absorbed,
      ∃ entry ∈ candidates, entry.1 = position := by
  rcases ok_of_bind hBounds with ⟨folded, hFold, hRest⟩
  split at hRest
  · cases hRest
  cases hRest
  intro position hPosition
  rcases ((absorbAll_contains hFold).2.1 position).mp
    hPosition with hNone | ⟨entry, hMem, rfl, _⟩
  · cases hNone
  · exact ⟨entry, hMem, rfl⟩

/- What a candidate can be. -/
inductive Considered
    (table : UserTable schema)
    (mine : Conjuncts) : Candidate schema → Prop where
  | sequential : Considered table mine ⟨.seqScan, []⟩
  | indexed {index bounds}
      (hIndex : index ∈ table.indexes)
      (hBounds :
        boundsFor (comparisonsOn mine index.position)
          index.dataType = .ok (some bounds)) :
      Considered table mine
        ⟨.indexScan index bounds.range, bounds.absorbed⟩

variable {mine : Conjuncts}
variable {candidates : List (Candidate schema)}
variable {candidate : Candidate schema}

theorem mem_considerAll
    {pairs : List (Nat × TableIndex schema)}
    (hOk : considerAll mine pairs = .ok candidates)
    (hMem : candidate ∈ candidates) :
    ∃ pair ∈ pairs,
      consider mine pair.1 pair.2 = .ok (some candidate) := by
  induction pairs generalizing candidates with
  | nil =>
    cases hOk
    cases hMem
  | cons pair rest ih =>
    rcases ok_of_bind hOk with ⟨first, hFirst, hRest⟩
    rcases ok_of_bind hRest with ⟨others, hOthers, hDone⟩
    cases hDone
    rcases List.mem_append.mp hMem with hHere | hThere
    · rw [Option.mem_toList] at hHere
      cases hHere
      exact ⟨pair, .head _, hFirst⟩
    · rcases ih hOthers hThere with ⟨found, hFound, hWas⟩
      exact ⟨found, .tail _ hFound, hWas⟩

variable {table : UserTable schema}

theorem enumerate_considered
    (hOk : enumerate table mine = .ok candidates)
    (hMem : candidate ∈ candidates) :
    Considered table mine candidate := by
  rcases ok_of_bind hOk with ⟨indexed, hIndexed, hDone⟩
  cases hDone
  rcases List.mem_cons.mp hMem with rfl | hMem
  · exact .sequential
  rcases mem_considerAll hIndexed hMem with
    ⟨⟨column, index⟩, hPair, hConsider⟩
  rcases List.mem_flatMap.mp hPair with ⟨_, _, hPair⟩
  rcases List.mem_map.mp hPair with ⟨_, hOn, hSame⟩
  cases hSame
  have hIndex : index ∈ table.indexes ∧
      index.position.val = column := by
    unfold UserTable.indexesOn at hOn
    rcases List.mem_append.mp hOn with hUnique | hOther
    · simpa using (List.mem_filter.mp hUnique).1
    · simpa using (List.mem_filter.mp hOther).1
  rcases hIndex with ⟨hIndex, rfl⟩
  rcases ok_of_bind hConsider with ⟨bounds, hBounds, hDone⟩
  cases bounds with
  | none => cases hDone
  | some bounds =>
    cases hDone
    exact .indexed hIndex hBounds

variable {predicate : Option (Expression Binary64)}
variable {cheapest : Nat} {source : RowSource schema}

theorem planRowSource_considered
    (hOk : planRowSource table predicate cheapest =
      .ok source) :
    ∃ conjuncts candidate,
      conjunctsOf predicate = .ok conjuncts ∧
      Considered table
        (conjuncts.filter fun conjunct =>
          readsTable conjunct.2) candidate ∧
      source = assemble conjuncts candidate := by
  rcases ok_of_bind hOk with ⟨conjuncts, hConjuncts, hRest⟩
  rcases ok_of_bind hRest with ⟨candidates, hAll, hDone⟩
  cases hDone
  refine ⟨conjuncts, _, hConjuncts, ?_, rfl⟩
  rw [List.getD_eq_getElem?_getD]
  cases hPick : candidates[cheapest]? with
  | none => exact .sequential
  | some candidate =>
    exact enumerate_considered hAll
      (List.mem_of_getElem? hPick)

variable {conjuncts : Conjuncts}

omit [KeyTexts] in
theorem conjunctsOf_nodup
    (hConjuncts : conjunctsOf predicate = .ok conjuncts) :
    (conjuncts.map Prod.fst).Nodup := by
  rcases ok_of_map hConjuncts with ⟨kept, _, rfl⟩
  unfold numbered
  split
  · exact List.nodup_nil
  · rw [List.map_map]
    have hPlaces : (Prod.fst ∘ Prod.swap :
        Expression Binary64 × Nat → Nat) = Prod.snd := rfl
    rw [hPlaces, List.zipIdx_map_snd]
    exact List.nodup_range'

/- The key is in the range where all that the scan absorbed is
   TRUE. -/
theorem withinRange_absorbed
    {index : TableIndex schema}
    (hPlaces : (conjuncts.map Prod.fst).Nodup)
    (hBounds :
      boundsFor
        (comparisonsOn (conjuncts.filter fun conjunct =>
          readsTable conjunct.2) index.position)
        index.dataType = .ok (some bounds))
    (row : StoredRow schema) :
    ∃ key,
      encodeKey (row.values index.position)
        index.dataType = .ok key ∧
      (withinRange bounds.range key = true ↔
        ∀ conjunct ∈ conjuncts,
          readsTable conjunct.2 = true →
          conjunct.1 ∈ bounds.absorbed →
            holds conjunct.2 row.values = true) := by
  generalize hMine : conjuncts.filter (fun conjunct =>
    readsTable conjunct.2) = mine at hBounds
  have hSub : (comparisonsOn mine index.position).Sublist
      conjuncts := by
    rw [← hMine]
    exact List.filter_sublist.trans List.filter_sublist
  have hColumn : ∀ entry ∈ comparisonsOn mine index.position,
      ∀ column op value,
        asColumnComparison entry.2 =
            some (column, op, value) →
          column.columnIndex = index.position := by
    intro entry hEntry column op value hMatch
    have hOn := (List.mem_filter.mp hEntry).2
    unfold comparedColumn at hOn
    rw [hMatch] at hOn
    simpa using hOn
  rcases boundsFor_contains _ _ bounds row.values
    index.position (hPlaces.sublist (hSub.map _)) hColumn
    hBounds (row.storable index.position) with
    ⟨key, hKey, hContains⟩
  refine ⟨key, hKey, ?_⟩
  rw [withinRange_iff, hContains]
  constructor
  · intro hAll conjunct hMem _ hAbsorbed
    rcases boundsFor_absorbed hBounds _ hAbsorbed with
      ⟨entry, hEntry, hSame⟩
    have hIs := List.inj_on_of_nodup_map hPlaces
      (hSub.subset hEntry) hMem hSame
    subst hIs
    exact holds_iff.mpr (hAll entry hEntry hAbsorbed)
  · intro hAll entry hEntry hAbsorbed
    have hReads : readsTable entry.2 = true := by
      have hMem := (List.mem_filter.mp hEntry).1
      rw [← hMine] at hMem
      exact (List.mem_filter.mp hMem).2
    exact holds_iff.mp (hAll entry (hSub.subset hEntry)
      hReads hAbsorbed)

/-
  However the rows are looked for, what is found are the
  visible rows that the WHERE is TRUE of, each once, as long as
  every index agrees with the visible rows.
-/
theorem located_iff
    {snapshot : Snapshot}
    {limit : Nat}
    {located : List (Found schema)}
    (hAgree : ∀ index ∈ table.indexes,
      index.Agrees (table.visibleRows snapshot))
    (hPlan : planRowSource table predicate cheapest =
      .ok source)
    (hLocate : locateRows table snapshot source limit =
      .ok located) :
    (located.map Prod.fst).Nodup ∧
    ∀ record, record ∈ located ↔
      record ∈ table.visibleRows snapshot ∧
        matchesWhere predicate record.2.values = true := by
  rcases planRowSource_considered hPlan with
    ⟨conjuncts, candidate, hConjuncts, hCandidate, rfl⟩
  have hPlaces := conjunctsOf_nodup hConjuncts
  rw [drain_ok hLocate]
  simp only [List.mem_filter, List.all_eq_true,
    holds_assemble, matchesWhere_iff hConjuncts]
  cases hCandidate with
  | sequential =>
    refine ⟨keptRows_nodup.sublist
      (List.filter_sublist.map _), fun record => ?_⟩
    refine and_congr Iff.rfl (forall_congr' fun conjunct =>
      forall_congr' fun _ => ?_)
    simp
  | indexed hIndex hBounds =>
    rcases scanRows_index (hAgree _ hIndex) _ with
      ⟨hOnce, hScan⟩
    refine ⟨hOnce.sublist (List.filter_sublist.map _), ?_⟩
    rintro ⟨recordId, row⟩
    rcases withinRange_absorbed hPlaces hBounds row with
      ⟨key, hKey, hRange⟩
    unfold assemble
    rw [hScan, and_assoc]
    refine and_congr_right fun _ => ?_
    constructor
    · rintro ⟨⟨key', hKey', hWithin⟩, hRest⟩
      cases hKey.symm.trans hKey'
      intro conjunct hMem
      rcases hRest conjunct hMem with
        ⟨hReads, hAbsorbed⟩ | hHolds
      · exact hRange.mp hWithin conjunct hMem hReads
          hAbsorbed
      · exact hHolds
    · intro hAll
      exact ⟨⟨key, hKey, hRange.mpr fun conjunct hMem _ _ =>
          hAll conjunct hMem⟩,
        fun conjunct hMem => .inr (hAll conjunct hMem)⟩

end Plans

end Planner

end ChenDB
