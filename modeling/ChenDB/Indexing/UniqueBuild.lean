import ChenDB.Indexing.Dangling
import ChenDB.Indexing.NarrowKeys
import Mathlib.Data.List.Pairwise

/-
  A unique index built over a table that has rows: every
  version of the heap goes in through the check that a new
  row passes, so dead versions are judged too.
-/

--
-- The Build
--

namespace ChenDB

namespace Indexing

open Executor (Value)
open Mvcc (Version)
open Storage (HeapFile RecordId)
open Transaction (Snapshot visible)

variable {ρ φ : Type} [SortableDouble φ]

/- The key of a version, in the column of the index. -/
def keyOf
    (known : Column ρ φ)
    (version : Version ρ) : Except EngineError Key :=
  encodeKey (known.value version.row) known.dataType

/- The loop of `create_index`; each insert comes with the
   pages the pager would hand out during it. -/
def buildTree
    (options : TreeOptions)
    (known : Column ρ φ)
    (supply : RecordId → List PageId) :
    BPlusTree SortKey → List (RecordId × Version ρ) →
      Except EngineError (BPlusTree SortKey)
  | tree, [] => .ok tree
  | tree, (recordId, version) :: rest => do
      let key ← keyOf known version
      let grown ← BPlusTree.insert options
        { tree with supply := supply recordId } key recordId
      buildTree options known supply grown rest

/- `create_index(..., unique=True)` up to the row of the
   index in the catalog. -/
def createUniqueIndex
    (casefold : String → String)
    (tables : Tables ρ φ)
    (name table column : String)
    (pageSize : Nat)
    (describe : DataType → Key → String)
    (root : PageId)
    (supply : RecordId → List PageId) :
    Except EngineError (BPlusTree SortKey) := do
  let (_, found, known) ←
    indexedColumn casefold tables name table column
  buildTree
    { name := name
      unique := true
      pageSize := pageSize
      describe := describe known.dataType }
    known supply (BPlusTree.create root)
    found.table.heap.records

--
-- Trees and Their Entries
--

/- What the leaves of a tree hold after inserts of narrow
   keys only, in a tree that was empty. -/
structure Carries
    (pageSize : Nat)
    (tree : BPlusTree SortKey)
    (contents : List SortKey)
    (held : List Entry) : Prop where
  well : WellFormed (keyLayout pageSize) tree contents
  holds : Holds contents held
  count : contents.length = held.length
  grown : BPlusTree.Bushy (keyLayout pageSize) tree ∨
    tree.nodes = (BPlusTree.create tree.root).nodes

theorem carries_create
    (pageSize : Nat)
    (root : PageId) :
    Carries pageSize (BPlusTree.create root) [] [] where
  well := create_wellFormed _ root
  holds := by
    intro entry
    simp
  count := rfl
  grown := .inr rfl

section Carried

variable {pageSize : Nat} {tree : BPlusTree SortKey}
variable {contents : List SortKey} {held other : List Entry}

theorem Carries.perm
    (hCarries : Carries pageSize tree contents held)
    (hPerm : other.Perm held) :
    Carries pageSize tree contents other where
  well := hCarries.well
  holds := by
    intro entry
    rw [hCarries.holds]
    simp only [hPerm.mem_iff]
  count := hCarries.count.trans hPerm.length_eq.symm
  grown := hCarries.grown

theorem Carries.supplied
    (hCarries : Carries pageSize tree contents held)
    (supply : List PageId) :
    Carries pageSize { tree with supply := supply } contents
      held where
  well := by
    rcases hCarries.well with ⟨heights, items, hRooted, hLeaves⟩
    exact ⟨heights, items, hRooted.supplied _, hLeaves⟩
  holds := hCarries.holds
  count := hCarries.count
  grown := hCarries.grown

theorem root_leaf
    (hFresh : tree.nodes = (BPlusTree.create tree.root).nodes) :
    tree.nodes tree.root = some (.leaf [] none) := by
  rw [hFresh]
  simp [BPlusTree.create]

theorem Carries.levels
    (hCarries : Carries pageSize tree contents held)
    (hFew : held.length < 2 ^ 33) :
    ∃ top, Levels tree.nodes tree.root top ∧
      top ≤ maxDepth := by
  rcases hCarries.grown with hBushy | hFresh
  · rcases hCarries.well with
      ⟨heights, items, hRooted, hLeaves⟩
    rcases descendFrom_spec hRooted hLeaves with
      ⟨top, hLevels, _⟩
    exact ⟨top, hLevels, BPlusTree.shallow_of_bushy hRooted
      hLeaves hBushy (hCarries.count ▸ hFew) hLevels⟩
  · exact ⟨0, .leaf (root_leaf hFresh), Nat.zero_le _⟩

/- The first entry of a tree goes into its root. -/
theorem insertAt_fresh
    {entry : SortKey}
    (hFresh : tree.nodes = (BPlusTree.create tree.root).nodes)
    (hEntry : BPlusTree.Narrow (keyLayout pageSize) entry) :
    tree.insertAt (keyLayout pageSize) entry =
      .ok (tree.write tree.root (.leaf [entry] none)) := by
  have hFits := hEntry.leaf
  have hRoot := root_leaf hFresh
  have hLanding : tree.descendFrom entry =
      .ok ⟨tree.root, [], none, []⟩ := by
    unfold BPlusTree.descendFrom BPlusTree.descend
    rw [hRoot]
  unfold BPlusTree.insertAt
  rw [hLanding]
  simp only [bind, Except.bind]
  rw [BPlusTree.insertEntry_room (by
    simp only [List.map_nil, List.sum_nil]
    omega)]
  rfl

/- A narrow entry goes in. -/
theorem Carries.insertAt
    {entry : SortKey}
    (hCarries : Carries pageSize tree contents held)
    (hLeast : BPlusTree.Narrow (keyLayout pageSize)
      (keyLayout pageSize).least)
    (hFew : held.length < 2 ^ 33)
    (hAbove : (keyLayout pageSize).least ≤ entry)
    (hEntry : BPlusTree.Narrow (keyLayout pageSize) entry)
    (hSupplied : BPlusTree.Supplied tree (maxDepth + 2)) :
    ∃ after,
      tree.insertAt (keyLayout pageSize) entry = .ok after ∧
      BPlusTree.Bushy (keyLayout pageSize) after := by
  rcases hCarries.grown with hBushy | hFresh
  · exact BPlusTree.insertAt_returns hCarries.well hLeast
      hBushy (hCarries.count ▸ hFew) hAbove hEntry hSupplied
  · refine ⟨_, insertAt_fresh hFresh hEntry, ?_⟩
    intro pageId node hNode
    unfold BPlusTree.write at hNode
    simp only [hFresh, BPlusTree.create] at hNode
    by_cases hRoot : pageId = tree.root
    · rw [hRoot, Function.update_self] at hNode
      cases hNode
      have hFits := hEntry.leaf
      refine ⟨fun other hOther => ?_, ?_, le_refl 1⟩
      · rcases List.mem_singleton.mp hOther with rfl
        exact hEntry
      · simp only [List.map_cons, List.map_nil, List.sum_cons,
          List.sum_nil]
        omega
    · rw [Function.update_of_ne hRoot, if_neg hRoot] at hNode
      cases hNode

end Carried

--
-- Two Models of One Index
--

section Agreement

variable {options : TreeOptions} {tree : BPlusTree SortKey}
variable {contents : List SortKey} {index : Tree ρ φ}
variable {key : Key} {recordId : RecordId}

/- What the key of a record must be to go in: neither it nor
   its record id is too long. -/
structure Enters
    (pageSize : Nat)
    (key : Key)
    (recordId : RecordId) : Prop where
  narrow : BPlusTree.Narrow (keyLayout pageSize)
    ⟨key, some recordId⟩
  page : recordId.pageId < 256 ^ 4
  slot : recordId.slotId < 256 ^ 2

theorem Enters.least
    (hKey : Encoded φ key)
    (hEnters : Enters options.pageSize key recordId) :
    BPlusTree.Narrow (keyLayout options.pageSize)
      (keyLayout options.pageSize).least := by
  rcases hKey with ⟨value, dataType, hKey⟩
  rcases encodeKey_above hKey with ⟨tag, rest, rfl, _⟩
  have hNarrow := hEnters.narrow
  unfold BPlusTree.Narrow BPlusTree.separatorWidth
    keyLayout at hNarrow ⊢
  simp only [minusInfinity, List.length_cons,
    List.length_nil] at hNarrow ⊢
  omega

/- The search before an insert finds what the entries have. -/
theorem rivals_found
    (hCarries : Carries options.pageSize tree contents
      index.entries)
    (hUnique : options.unique = index.unique)
    (hFew : index.entries.length < 2 ^ 33)
    (hKey : Encoded φ key) :
    ∃ found, BPlusTree.rivals options tree key = .ok found ∧
      (found ≠ [] ↔ index.unique ∧ ¬ isNullKey key ∧
        index.search key ≠ []) := by
  unfold BPlusTree.rivals
  rw [hUnique]
  by_cases hAsks : index.unique ∧ ¬ isNullKey key
  · rcases hCarries.levels hFew with ⟨top, hTop, hShallow⟩
    have hRepresents : Represents φ tree index.entries :=
      represents_of_levels hCarries.well hCarries.holds hTop
        hShallow
    rcases hRepresents.search key hKey with
      ⟨found, hSearch, _, hFound⟩
    refine ⟨found, by rw [if_pos hAsks, hSearch], ?_⟩
    have hSame : ∀ recordId,
        recordId ∈ found ↔ recordId ∈ index.search key := by
      intro recordId
      rw [hFound]
      unfold Tree.search
      simp
    constructor
    · intro hSome
      rcases List.exists_mem_of_ne_nil found hSome with
        ⟨other, hOther⟩
      exact ⟨hAsks.1, hAsks.2,
        List.ne_nil_of_mem ((hSame other).mp hOther)⟩
    · rintro ⟨_, _, hSome⟩
      rcases List.exists_mem_of_ne_nil _ hSome with
        ⟨other, hOther⟩
      exact List.ne_nil_of_mem ((hSame other).mpr hOther)
  · refine ⟨[], if_neg hAsks, ?_⟩
    simp only [ne_eq, not_true_eq_false, false_iff]
    exact fun hBoth => hAsks ⟨hBoth.1, hBoth.2.1⟩

/- An insert is refused as a duplicate, or the entries are
   what they were and one more. -/
theorem Tree.insert_cases
    (index : Tree ρ φ)
    (name : String)
    (key : Key)
    (recordId : RecordId) :
    ((index.unique ∧ ¬ isNullKey key ∧
        index.search key ≠ []) ∧
      ∃ message, index.insert name key recordId =
        .error (.uniqueViolation message)) ∨
    (¬ (index.unique ∧ ¬ isNullKey key ∧
        index.search key ≠ []) ∧
      ∃ held, index.insert name key recordId =
          .ok { index with entries := held } ∧
        held.Perm ((key, recordId) :: index.entries)) := by
  by_cases hRefused : index.unique ∧ ¬ isNullKey key ∧
      index.search key ≠ []
  · exact .inl ⟨hRefused, _, if_pos hRefused⟩
  · refine .inr ⟨hRefused, _, if_neg hRefused, ?_⟩
    refine List.perm_middle.trans ?_
    rw [List.takeWhile_append_dropWhile]

/- An index by its sorted entries, and one on pages: an insert
   is refused by both as a duplicate, or goes into both. -/
theorem insert_agrees
    (hCarries : Carries options.pageSize tree contents
      index.entries)
    (hUnique : options.unique = index.unique)
    (hFew : index.entries.length < 2 ^ 33)
    (hKey : Encoded φ key)
    (hEnters : Enters options.pageSize key recordId)
    (hAbsent : (key, recordId) ∉ index.entries)
    (hSupplied : BPlusTree.Supplied tree (maxDepth + 2)) :
    (∃ message other,
      index.insert options.name key recordId =
        .error (.uniqueViolation message) ∧
      BPlusTree.insert options tree key recordId =
        .error (.uniqueViolation other)) ∨
    ∃ held after contents',
      index.insert options.name key recordId =
        .ok { index with entries := held } ∧
      held.Perm ((key, recordId) :: index.entries) ∧
      BPlusTree.insert options tree key recordId = .ok after ∧
      Carries options.pageSize after contents' held ∧
      BPlusTree.Extends [] tree after := by
  rcases rivals_found hCarries hUnique hFew hKey with
    ⟨found, hRivals, hFound⟩
  rcases index.insert_cases options.name key recordId with
    ⟨hRefused, message, hError⟩ |
      ⟨hTaken, held, hDone, hPerm⟩
  · refine .inl ⟨message,
      s!"index '{options.name}' is unique and already " ++
        s!"contains {options.describe key}", hError, ?_⟩
    unfold BPlusTree.insert
    rw [hRivals]
    simp only [bind, Except.bind, if_pos (hFound.mpr hRefused)]
    rfl
  · have hNone : found = [] := by
      by_contra hSome
      exact hTaken (hFound.mp hSome)
    have hEntry : sortKeyOf key recordId =
        .ok ⟨key, some recordId⟩ :=
      if_pos ⟨hEnters.page, hEnters.slot⟩
    have hAbove :=
      least_le options.pageSize hKey (some recordId)
    rcases hCarries.insertAt (hEnters.least hKey) hFew hAbove
      hEnters.narrow hSupplied with ⟨after, hOk, hBushy⟩
    have hInsert : BPlusTree.insert options tree key
        recordId = .ok after := by
      unfold BPlusTree.insert
      rw [hRivals, hNone, hEntry]
      exact hOk
    have hNew : (⟨key, some recordId⟩ : SortKey) ∉
        contents := by
      rw [hCarries.holds.mem]
      exact hAbsent
    rcases insertAt_spec hCarries.well hAbove hNew hOk with
      ⟨below, above, hContents, hWell⟩
    have hCount : (below ++ ⟨key, some recordId⟩ ::
        above).length = index.entries.length + 1 := by
      rw [← hCarries.count, hContents]
      simp only [List.length_append, List.length_cons]
      omega
    have hHolds : Holds
        (below ++ ⟨key, some recordId⟩ :: above)
        ((key, recordId) :: index.entries) := by
      intro entry
      have hOld := hCarries.holds entry
      rw [hContents, List.mem_append] at hOld
      rw [List.mem_append, List.mem_cons, or_left_comm, hOld]
      simp only [List.mem_cons, exists_eq_or_imp]
    have hCarriesNow : Carries options.pageSize after
        (below ++ ⟨key, some recordId⟩ :: above)
        ((key, recordId) :: index.entries) :=
      ⟨hWell, hHolds, hCount, .inl hBushy⟩
    have hSame := BPlusTree.insertAt_withPages []
      (fun _ _ => List.not_mem_nil) hOk
    exact .inr ⟨held, after, _, hDone, hPerm, hInsert,
      hCarriesNow.perm hPerm, hSame.2⟩

end Agreement

--
-- Builds
--

section Builds

variable {options : TreeOptions} {known : Column ρ φ}
variable {supply : RecordId → List PageId}
variable {records : List (RecordId × Version ρ)}
variable {record : RecordId × Version ρ}
variable {index : Tree ρ φ} {name : String}

/- Each insert finds pages enough, and no page is handed out
   twice. -/
structure Supplies
    (taken : List PageId)
    (supply : RecordId → List PageId)
    (records : List (RecordId × Version ρ)) : Prop where
  enough : ∀ record ∈ records,
    maxDepth + 2 ≤ (supply record.1).length
  once : ∀ record ∈ records, (supply record.1).Nodup
  fresh : ∀ record ∈ records, ∀ pageId ∈ supply record.1,
    pageId ∉ taken
  apart : records.Pairwise fun first second =>
    ∀ pageId ∈ supply first.1, pageId ∉ supply second.1

theorem Supplies.later
    {taken now : List PageId}
    (hSupplies : Supplies taken supply (record :: records))
    (hNow : ∀ pageId ∈ now,
      pageId ∈ taken ∨ pageId ∈ supply record.1) :
    Supplies now supply records where
  enough other hOther :=
    hSupplies.enough other (.tail _ hOther)
  once other hOther :=
    hSupplies.once other (.tail _ hOther)
  fresh other hOther pageId hMem hTaken := by
    rcases hNow pageId hTaken with hOld | hNew
    · exact hSupplies.fresh other
        (.tail _ hOther) pageId hMem hOld
    · exact List.rel_of_pairwise_cons hSupplies.apart hOther
        pageId hNew hMem
  apart := hSupplies.apart.of_cons

/- The key of every version goes in, and there are not too
   many of them. -/
structure KeysFit
    (pageSize : Nat)
    (known : Column ρ φ)
    (records : List (RecordId × Version ρ)) : Prop where
  enters : ∀ record ∈ records, ∃ key,
    keyOf known record.2 = .ok key ∧
      Enters pageSize key record.1
  few : records.length ≤ 2 ^ 33

/- The index is over this column. -/
def Over (known : Column ρ φ) (index : Tree ρ φ) : Prop :=
  index.column = known.value ∧ index.dataType = known.dataType

theorem Over.insertRow
    (hOver : Over known index)
    {version : Version ρ}
    {key : Key}
    (hKey : keyOf known version = .ok key)
    (recordId : RecordId) :
    index.insertRow name version.row recordId =
      index.insert name key recordId := by
  unfold Tree.insertRow Tree.encode
  rw [hOver.1, hOver.2]
  unfold keyOf at hKey
  rw [hKey]
  rfl

/- Both builds are refused for a duplicate, or both return
   with the same entries. -/
theorem buildTree_populates
    {tree : BPlusTree SortKey}
    {contents : List SortKey}
    (hCarries : Carries options.pageSize tree contents
      index.entries)
    (hUnique : options.unique = index.unique)
    (hOver : Over known index)
    (hEnters : ∀ record ∈ records, ∃ key,
      keyOf known record.2 = .ok key ∧
        Enters options.pageSize key record.1)
    (hFew : index.entries.length + records.length ≤ 2 ^ 33)
    (hNew : ∀ record ∈ records, ∀ entry ∈ index.entries,
      entry.2 ≠ record.1)
    (hDistinct : (records.map Prod.fst).Nodup)
    (hSupplies : Supplies tree.pages supply records) :
    (∃ message other,
      index.populate options.name records =
        .error (.uniqueViolation message) ∧
      buildTree options known supply tree records =
        .error (.uniqueViolation other)) ∨
    ∃ held after contents',
      index.populate options.name records =
        .ok { index with entries := held } ∧
      buildTree options known supply tree records = .ok after ∧
      Carries options.pageSize after contents' held := by
  induction records generalizing tree contents index with
  | nil => exact .inr ⟨_, tree, _, rfl, rfl, hCarries⟩
  | cons record rest ih =>
    rcases record with ⟨recordId, version⟩
    rcases hEnters _ (.head _) with ⟨key, hKey, hGoes⟩
    rw [List.length_cons] at hFew
    rw [List.map_cons, List.nodup_cons] at hDistinct
    have hAbsent : (key, recordId) ∉ index.entries :=
      fun hMem => hNew _ (.head _) _ hMem rfl
    have hSupplied : BPlusTree.Supplied
        { tree with supply := supply recordId }
        (maxDepth + 2) :=
      ⟨hSupplies.enough _ (.head _),
        hSupplies.once _ (.head _),
        hSupplies.fresh _ (.head _)⟩
    unfold Tree.populate buildTree
    simp only [hKey]
    rw [hOver.insertRow hKey]
    rcases insert_agrees (hCarries.supplied _) hUnique
        (by omega) ⟨_, _, hKey⟩ hGoes hAbsent hSupplied with
      ⟨message, other, hRefused, hError⟩ |
        ⟨held, after, contents', hDone, hPerm, hInsert,
          hCarries', hExtends⟩
    · left
      refine ⟨message, other, ?_, ?_⟩
      · rw [hRefused]
        rfl
      · change BPlusTree.insert options _ key recordId >>= _ = _
        rw [hError]
        rfl
    · have hRest := @ih { index with entries := held } after
        contents' hCarries' hUnique hOver
        (fun other hOther =>
          hEnters other (.tail _ hOther))
        (by
          rw [hPerm.length_eq, List.length_cons]
          omega)
        (by
          intro other hOther entry hEntry hSame
          rcases List.mem_cons.mp
            (hPerm.mem_iff.mp hEntry) with rfl | hOld
          · exact hDistinct.1
              (List.mem_map.mpr ⟨other, hOther, hSame.symm⟩)
          · exact hNew other (.tail _ hOther)
              entry hOld hSame)
        hDistinct.2 (hSupplies.later hExtends.taken)
      rw [hDone]
      change (∃ message other,
        Tree.populate options.name _ rest = _ ∧
          BPlusTree.insert options _ key recordId >>= _ =
            _) ∨ ∃ held after contents',
        Tree.populate options.name _ rest = _ ∧
          BPlusTree.insert options _ key recordId >>= _ = _ ∧ _
      rw [hInsert]
      exact hRest

end Builds

--
-- Values That Repeat
--

section Repeats

variable {dataType : DataType} {known : Column ρ φ}
variable {key : Key}

/- Two versions hold the same value, and it is not NULL. -/
def Same
    (known : Column ρ φ)
    (first second : Version ρ) : Prop :=
  known.value first.row ≠ .null ∧
    SameKey known.dataType (known.value first.row)
      (known.value second.row)

/- Two rows that the snapshot sees hold the same value. -/
def TwoRows
    (known : Column ρ φ)
    (snapshot : Snapshot)
    (records : List (RecordId × Version ρ)) : Prop :=
  ∃ first ∈ records, ∃ second ∈ records,
    first.1 ≠ second.1 ∧
      visible first.2.header snapshot = true ∧
      visible second.2.header snapshot = true ∧
      Same known first.2 second.2


/- Two stored versions, visible or not, hold it. -/
def SharesValue
    (known : Column ρ φ)
    (records : List (RecordId × Version ρ)) : Prop :=
  ∃ first ∈ records, ∃ second ∈ records,
    first.1 ≠ second.1 ∧ Same known first.2 second.2

theorem Same.symm
    {first second : Version ρ}
    (hSame : Same known first second) :
    Same known second first := by
  rcases hSame with
    ⟨hValue, hEqual | ⟨hType, one, two, bits, hOne, hTwo,
      hBits⟩⟩
  · exact ⟨hEqual ▸ hValue, .inl hEqual.symm⟩
  · refine ⟨?_, .inr ⟨hType, two, one, bits, hTwo, hOne,
      hBits.2, hBits.1⟩⟩
    intro hNull
    rw [hNull] at hTwo
    cases hTwo

theorem sharesValue_iff
    {records : List (RecordId × Version ρ)}
    (hDistinct : (records.map Prod.fst).Nodup) :
    SharesValue known records ↔ ¬ records.Pairwise
      fun first second => ¬ Same known first.2 second.2 := by
  constructor
  · rintro ⟨first, hFirst, second, hSecond, hApart, hSame⟩ hNo
    have : Std.Symm fun first second : RecordId × Version ρ =>
        ¬ Same known first.2 second.2 :=
      ⟨fun _ _ hNot hBoth => hNot hBoth.symm⟩
    exact hNo.forall hFirst hSecond
      (fun hIs => hApart (hIs ▸ rfl)) hSame
  · intro hSome
    by_contra hNone
    apply hSome
    refine (List.pairwise_map.mp hDistinct).imp_of_mem ?_
    intro first second hFirst hSecond hApart hSame
    exact hNone ⟨first, hFirst, second, hSecond, hApart, hSame⟩

theorem isNullKey_iff
    {value : Value φ}
    (hKey : encodeKey value dataType = .ok key) :
    isNullKey key = true ↔ value = .null := by
  have hEncodes := encodeKey_encodes hKey
  constructor
  · intro hNull
    have hSame : key = nullKey := by
      simpa [isNullKey] using hNull
    subst hSame
    generalize hKeyIs : nullKey = key at hEncodes
    cases hEncodes with
    | null => rfl
    | _ => exact absurd hKeyIs.symm Encodes.ne_null
  · rintro rfl
    cases hKey
    rfl

/- Values that are the same have the same key. -/
theorem encodeKey_of_sameKey
    {first second : Value φ}
    {other : Key}
    (hSame : SameKey dataType first second)
    (hFirst : encodeKey first dataType = .ok key)
    (hSecond : encodeKey second dataType = .ok other) :
    key = other := by
  rcases hSame with
    rfl | ⟨rfl, one, two, bits, hOne, hTwo, hBits, hBits'⟩
  · rw [hFirst] at hSecond
    exact Except.ok.inj hSecond
  · have hDouble : ∀ {value : Value φ} {number : φ ⊕ Int}
        {key : Key},
        asNumber value = some number →
        SortableDouble.sortable number = some bits →
        encodeKey value .float = .ok key →
          key = valuePrefix ++ bigEndian bits := by
      intro value number key hNumber hSortable hKey
      cases encodeKey_encodes hKey with
      | null => cases hNumber
      | double hHeld hSorted =>
        rw [hNumber, Option.some.injEq] at hHeld
        rw [← hHeld, hSortable, Option.some.injEq] at hSorted
        rw [hSorted]
    rw [hDouble hOne hBits hFirst, hDouble hTwo hBits' hSecond]

/- The pairs that a tree gets from these versions. -/
def Paired
    (known : Column ρ φ)
    (records : List (RecordId × Version ρ))
    (held : List (Key × RecordId)) : Prop :=
  ∀ key recordId, (key, recordId) ∈ held ↔
    ∃ version, (recordId, version) ∈ records ∧
      keyOf known version = .ok key

variable {earlier : List (RecordId × Version ρ)}
variable {held : List (Key × RecordId)}

/- The key of a version is in the tree when an earlier one
   holds the same value. -/
theorem paired_same
    (hPaired : Paired known earlier held)
    (hKeys : ∀ record ∈ earlier,
      ∃ key, keyOf known record.2 = .ok key)
    {version : Version ρ}
    (hKey : keyOf known version = .ok key) :
    (isNullKey key = false ∧ ∃ other, (key, other) ∈ held) ↔
      ∃ record ∈ earlier, Same known record.2 version := by
  constructor
  · rintro ⟨hNull, other, hOther⟩
    rcases (hPaired key other).mp hOther with
      ⟨first, hFirst, hFirstKey⟩
    refine ⟨_, hFirst, ?_, encodeKey_sameKey hFirstKey hKey⟩
    intro hValue
    have hIs := (isNullKey_iff hFirstKey).mpr hValue
    rw [hNull] at hIs
    cases hIs
  · rintro ⟨record, hRecord, hValue, hSame⟩
    rcases hKeys record hRecord with ⟨other, hOther⟩
    have hKeySame := encodeKey_of_sameKey hSame hOther hKey
    subst hKeySame
    refine ⟨?_, record.1, (hPaired other record.1).mpr
      ⟨record.2, hRecord, hOther⟩⟩
    rw [← Bool.not_eq_true]
    exact fun hNull => hValue
      ((isNullKey_iff hOther).mp hNull)


/- A build is refused when a value comes a second time. -/
theorem populate_raises_iff
    {records : List (RecordId × Version ρ)}
    {index : Tree ρ φ}
    {name : String}
    (hUnique : index.unique = true)
    (hOver : Over known index)
    (hPaired : Paired known earlier index.entries)
    (hKeys : ∀ record ∈ earlier ++ records,
      ∃ key, keyOf known record.2 = .ok key)
    (hEarlier : earlier.Pairwise fun first second =>
      ¬ Same known first.2 second.2) :
    (∃ message, index.populate name records =
        .error (.uniqueViolation message)) ↔
      ¬ (earlier ++ records).Pairwise fun first second =>
        ¬ Same known first.2 second.2 := by
  induction records generalizing index earlier with
  | nil =>
    rw [List.append_nil]
    refine ⟨?_, fun hNot => absurd hEarlier hNot⟩
    rintro ⟨message, hError⟩
    cases hError
  | cons record rest ih =>
    rcases record with ⟨recordId, version⟩
    rcases hKeys (recordId, version) (by simp) with ⟨key, hKey⟩
    have hMet := paired_same hPaired
      (fun record hRecord => hKeys record
        (List.mem_append_left _ hRecord)) hKey
    have hSearch : index.search key ≠ [] ↔
        ∃ other, (key, other) ∈ index.entries := by
      unfold Tree.search
      simp only [ne_eq, List.map_eq_nil_iff,
        List.filter_eq_nil_iff]
      simp
    unfold Tree.populate
    simp only
    rw [hOver.insertRow hKey]
    rcases index.insert_cases name key recordId with
      ⟨⟨_, hNull, hFound⟩, message, hError⟩ |
        ⟨hTaken, held, hDone, hPerm⟩
    · rw [hError]
      refine ⟨fun _ hNo => ?_, fun _ => ⟨message, rfl⟩⟩
      rcases hMet.mp ⟨by simpa using hNull,
        hSearch.mp hFound⟩ with ⟨first, hFirst, hSame⟩
      exact (List.pairwise_append.mp hNo).2.2 first hFirst
        (recordId, version) (.head _) hSame
    · have hNever : ∀ first ∈ earlier,
          ¬ Same known first.2 version := by
        intro first hFirst hSame
        rcases hMet.mpr ⟨first, hFirst, hSame⟩ with
          ⟨hNull, hOther⟩
        exact hTaken ⟨hUnique, by simp [hNull],
          hSearch.mpr hOther⟩
      have hRest := @ih (earlier ++ [(recordId, version)])
        { index with entries := held } hUnique hOver
        (by
          intro some other
          rw [hPerm.mem_iff, List.mem_cons, hPaired]
          constructor
          · rintro (hNew | ⟨held, hHeld, hOf⟩)
            · cases hNew
              exact ⟨version, by simp, hKey⟩
            · exact ⟨held, by simp [hHeld], hOf⟩
          · rintro ⟨held, hHeld, hOf⟩
            rcases List.mem_append.mp hHeld with hOld | hNew
            · exact .inr ⟨held, hOld, hOf⟩
            · cases List.mem_singleton.mp hNew
              cases hKey.symm.trans hOf
              exact .inl rfl)
        (by simpa using hKeys)
        (List.pairwise_append.mpr ⟨hEarlier,
          List.pairwise_singleton _ _, by simpa using hNever⟩)
      rw [hDone, List.append_cons]
      exact hRest

end Repeats

--
-- Rows and Versions
--

section Judging

variable {casefold : String → String} {tables : Tables ρ φ}
variable {name table column owner : String}
variable {found : IndexedTable ρ φ} {known : Column ρ φ}
variable {pageSize : Nat} {describe : DataType → Key → String}
variable {root : PageId} {supply : RecordId → List PageId}

/- The index before its first entry. -/
def emptyUnique (known : Column ρ φ) : Tree ρ φ where
  unique := true
  dataType := known.dataType
  column := known.value
  entries := []

section Linked

variable (hResolves :
  indexedColumn casefold tables name table column =
    .ok (owner, found, known))
variable (hSupplies :
  Supplies [root] supply found.table.heap.records)
variable (hFits :
  KeysFit pageSize known found.table.heap.records)
include hResolves hSupplies hFits

theorem createUniqueIndex_populates :
    (∃ message other,
      (emptyUnique known).populate name
          found.table.heap.records =
        .error (.uniqueViolation message) ∧
      createUniqueIndex casefold tables name table column
          pageSize describe root supply =
        .error (.uniqueViolation other)) ∨
    ∃ held after contents,
      (emptyUnique known).populate name
          found.table.heap.records =
        .ok { emptyUnique known with entries := held } ∧
      createUniqueIndex casefold tables name table column
          pageSize describe root supply = .ok after ∧
      Carries pageSize after contents held := by
  unfold createUniqueIndex
  rw [hResolves]
  exact @buildTree_populates ρ φ _
    { name := name
      unique := true
      pageSize := pageSize
      describe := describe known.dataType } known supply
    found.table.heap.records (emptyUnique known)
    (BPlusTree.create root) [] (carries_create pageSize root)
    rfl ⟨rfl, rfl⟩ hFits.enters
    (by simpa [emptyUnique] using hFits.few)
    (by simp [emptyUnique])
    (HeapFile.records_nodup found.table.heap) hSupplies

/- `create_index` over sorted entries and over pages: both are
   refused for a duplicate, or both return and the leaves hold
   the entries. -/
theorem createUniqueIndex_createIndex :
    (∃ message other,
      createIndex casefold tables name table column true =
        .error (.uniqueViolation message) ∧
      createUniqueIndex casefold tables name table column
          pageSize describe root supply =
        .error (.uniqueViolation other)) ∨
    ∃ held after contents,
      createIndex casefold tables name table column true =
        .ok (setTable tables owner (addIndex casefold
          (indexOver name
            { emptyUnique known with entries := held })
          found)) ∧
      createUniqueIndex casefold tables name table column
          pageSize describe root supply = .ok after ∧
      Carries pageSize after contents held := by
  have hCreate : createIndex casefold tables name table column
      true = ((emptyUnique known).populate name
        found.table.heap.records >>= fun tree =>
          return setTable tables owner
            (addIndex casefold (indexOver name tree)
              found)) := by
    unfold createIndex
    rw [hResolves]
    rfl
  rw [hCreate]
  rcases @createUniqueIndex_populates _ _ _ casefold tables
      name table column owner found known pageSize describe
      root supply hResolves hSupplies hFits with
    ⟨message, other, hError, hRefused⟩ |
      ⟨held, after, contents, hDone, hBuilt, hCarries⟩
  · rw [hError]
    exact .inl ⟨message, other, rfl, hRefused⟩
  · rw [hDone]
    exact .inr ⟨held, after, contents, rfl, hBuilt, hCarries⟩

end Linked

/-
  Where the keys fit, a unique index is refused for two rows
  with one value if and only if the versions it is built from
  say so, dead ones too: two of them hold one value exactly
  when two rows do.
-/
theorem judgesRows_iff
    (hResolves :
      indexedColumn casefold tables name table column =
        .ok (owner, found, known))
    (hSupplies : Supplies [root] supply
      found.table.heap.records)
    (hFits : KeysFit pageSize known found.table.heap.records)
    (snapshot : Snapshot) :
    ((∃ message, createUniqueIndex casefold tables name table
          column pageSize describe root supply =
        .error (.uniqueViolation message)) ↔
      TwoRows known snapshot found.table.heap.records) ↔
    (SharesValue known found.table.heap.records ↔
      TwoRows known snapshot found.table.heap.records) := by
  have hPopulate := @populate_raises_iff ρ φ _ known []
    found.table.heap.records (emptyUnique known) name rfl
    ⟨rfl, rfl⟩ (by intro key recordId; simp [emptyUnique])
    (by
      intro record hRecord
      rcases hFits.enters record hRecord with ⟨key, hKey, _⟩
      exact ⟨key, hKey⟩)
    List.Pairwise.nil
  rw [List.nil_append, ← sharesValue_iff
    (HeapFile.records_nodup found.table.heap)] at hPopulate
  have hBuild : (∃ message, createUniqueIndex casefold tables
        name table column pageSize describe root supply =
          .error (.uniqueViolation message)) ↔
      SharesValue known found.table.heap.records := by
    rw [← hPopulate]
    rcases @createUniqueIndex_populates _ _ _ casefold tables
        name table column owner found known pageSize describe
        root supply hResolves hSupplies hFits with
      ⟨message, other, hError, hRefused⟩ |
        ⟨held, after, contents, hDone, hBuilt, _⟩
    · exact ⟨fun _ => ⟨message, hError⟩,
        fun _ => ⟨other, hRefused⟩⟩
    · rw [hDone, hBuilt]
      constructor
      · rintro ⟨_, hError⟩
        cases hError
      · rintro ⟨_, hError⟩
        cases hError
  rw [hBuild]

end Judging

/- Insert a row, and update it to what it is. -/
def updateToItself : List (Call Library.Struct.Bytes) :=
  [ .issue "t" [.insert [7]], .advance 2, .advance 2,
    .advance 2,
    .issue "t" [.update ⟨1, 0⟩ [7]], .advance 2, .advance 2,
    .advance 2, .advance 2, .advance 2, .advance 2 ]

def updatedState : OneSession Library.Struct.Bytes Empty :=
  newSession.run id updateToItself

def updatedTable :
    IndexedTable Library.Struct.Bytes Empty :=
  match updatedState.tables with
  | [] => byteTable
  | entry :: _ => entry.2

def idColumn : Column Library.Struct.Bytes Empty where
  name := "id"
  dataType := .integer
  value row := .int (Int.ofNat (row.headD 0).toNat)

theorem updated_resolves :
    indexedColumn id updatedState.tables "u" "t" "id" =
      .ok ("t", updatedTable, idColumn) := by
  unfold indexedColumn
  rw [if_neg (by decide +kernel), if_neg (by decide +kernel),
    if_neg (by decide +kernel), if_neg (by decide +kernel)]
  rfl

/- The snapshot that a statement would take now. -/
def updatedSnapshot : Snapshot :=
  (updatedState.manager.snapshotIn defaultSession).2

/- Only the version that the update left is a row. -/
theorem updated_oneRow :
    ¬ TwoRows idColumn updatedSnapshot
      updatedTable.table.heap.records := by
  have hOne : ∀ record ∈ updatedTable.table.heap.records,
      visible record.2.header updatedSnapshot = true →
        record.1 = ⟨1, 1⟩ := by
    decide +kernel
  rintro ⟨first, hFirst, second, hSecond, hApart, hSeen,
    hSeen', _⟩
  exact hApart ((hOne first hFirst hSeen).trans
    (hOne second hSecond hSeen').symm)

/- Free pages after the root, for either version. -/
def updatedSupply (recordId : RecordId) : List PageId :=
  List.range' (6 + 34 * recordId.slotId) 34

theorem updated_raises :
    ∃ message, createUniqueIndex id updatedState.tables "u"
        "t" "id" 4096 (fun _ _ => "7") 5 updatedSupply =
      .error (.uniqueViolation message) := by
  have hRaised : (match createUniqueIndex id
      updatedState.tables "u" "t" "id" 4096
      (fun _ _ => "7") 5 updatedSupply with
      | .error raised => some raised
      | .ok _ => none) = some (.uniqueViolation
        "index 'u' is unique and already contains 7") := by
    decide +kernel
  cases hBuilt : createUniqueIndex id updatedState.tables "u"
      "t" "id" 4096 (fun _ _ => "7") 5 updatedSupply with
  | ok tree =>
    rw [hBuilt] at hRaised
    cases hRaised
  | error raised =>
    rw [hBuilt] at hRaised
    exact ⟨_, by rw [Option.some.inj hRaised]⟩

/- A table of one row is refused its unique index. -/
theorem dead_version_refused :
    (∃ message, createUniqueIndex id updatedState.tables "u"
          "t" "id" 4096 (fun _ _ => "7") 5 updatedSupply =
        .error (.uniqueViolation message)) ∧
      ¬ TwoRows idColumn updatedSnapshot
        updatedTable.table.heap.records :=
  ⟨updated_raises, updated_oneRow⟩

theorem updated_supplies :
    Supplies [5] updatedSupply
      updatedTable.table.heap.records where
  enough := by decide +kernel
  once := by decide +kernel
  fresh := by decide +kernel
  apart := by decide +kernel

theorem updated_fits :
    KeysFit 4096 idColumn
      updatedTable.table.heap.records where
  enters := by
    have hShort : ∀ record ∈ updatedTable.table.heap.records,
        (match keyOf idColumn record.2 with
          | .ok key => decide (key.length ≤ 100)
          | .error _ => false) = true ∧
        record.1.pageId < 256 ^ 4 ∧
        record.1.slotId < 256 ^ 2 := by
      decide +kernel
    intro record hRecord
    rcases hShort record hRecord with ⟨hKey, hPage, hSlot⟩
    cases hKeyOf : keyOf idColumn record.2 with
    | error raised =>
      rw [hKeyOf] at hKey
      cases hKey
    | ok key =>
      rw [hKeyOf] at hKey
      have hLength : key.length ≤ 100 := of_decide_eq_true hKey
      refine ⟨key, rfl, ?_, hPage, hSlot⟩
      change 8 * (key.length + 6 + childSize +
        Storage.slotSize) ≤ (keyLayout 4096).usableBytes
      have hPageSize : (keyLayout 4096).usableBytes = 4072 :=
        rfl
      rw [hPageSize]
      unfold childSize Storage.slotSize
      omega
  few := by decide +kernel

theorem judgesRows_iff_updated :
    ¬ (SharesValue idColumn
        updatedTable.table.heap.records ↔
      TwoRows idColumn updatedSnapshot
        updatedTable.table.heap.records) := fun hJudges =>
  updated_oneRow (((judgesRows_iff updated_resolves
    updated_supplies updated_fits updatedSnapshot).mpr
      hJudges).mp updated_raises)

end Indexing

end ChenDB
