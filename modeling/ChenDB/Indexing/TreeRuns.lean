import Mathlib.Data.List.Lex
import Mathlib.Data.Prod.Lex
import Mathlib.Order.WithBot
import ChenDB.Indexing.Key
import ChenDB.Indexing.TreeOps
import ChenDB.Storage.Heap

/-
  The B+ tree of an index, from the calls made on it. It holds
  what was put in and not taken out, and it answers from it
  for as long as it is not taller than a descent may be long.
-/

--
-- Sort Keys
--

namespace ChenDB

namespace Indexing

open Executor (Value)
open Library.StateExcept (ok_of_bind)
open Storage (RecordId)

/- `Entry.sort_key`: the key, and then the record id. A search
   for all rows with a key has none, which sorts first. -/
structure SortKey where
  key : Key
  recordId : Option RecordId
deriving DecidableEq, Repr

/- Bytes compare as numbers do, one after another. -/
def keyRank (key : Key) : List Nat :=
  key.map UInt8.toNat

def ridRank (recordId : RecordId) : Nat ×ₗ Nat :=
  toLex (recordId.pageId, recordId.slotId)

/- Both fields of a record id are big-endian, so their bytes
   are in the order of their values. -/
def suffixRank : Option RecordId → WithBot (Nat ×ₗ Nat)
  | none => ⊥
  | some recordId => (ridRank recordId : Nat ×ₗ Nat)

namespace SortKey

def rank
    (sortKey : SortKey) :
    List Nat ×ₗ WithBot (Nat ×ₗ Nat) :=
  toLex (keyRank sortKey.key, suffixRank sortKey.recordId)

theorem keyRank_injective : Function.Injective keyRank :=
  fun _ _ hSame =>
    List.map_injective_iff.mpr
      (fun _ _ hByte => UInt8.toNat_inj.mp hByte) hSame

theorem ridRank_injective : Function.Injective ridRank := by
  intro first second hSame
  have hPair := toLex.injective hSame
  rw [Prod.mk.injEq] at hPair
  cases first
  cases second
  simp only at hPair
  rw [hPair.1, hPair.2]

theorem rank_injective : Function.Injective rank := by
  intro first second hSame
  have hPair := toLex.injective hSame
  rw [Prod.mk.injEq] at hPair
  have hKey := keyRank_injective hPair.1
  have hSuffix := hPair.2
  rcases first with ⟨firstKey, firstId⟩
  rcases second with ⟨secondKey, secondId⟩
  simp only at hKey hSuffix
  subst hKey
  cases firstId with
  | none =>
    cases secondId with
    | none => rfl
    | some other => cases hSuffix
  | some one =>
    cases secondId with
    | none => cases hSuffix
    | some other =>
      have hRank := WithBot.coe_injective hSuffix
      rw [ridRank_injective hRank]

instance : LinearOrder SortKey :=
  LinearOrder.lift' rank rank_injective

theorem lt_iff (first second : SortKey) :
    first < second ↔
      keyRank first.key < keyRank second.key ∨
        keyRank first.key = keyRank second.key ∧
          suffixRank first.recordId <
            suffixRank second.recordId :=
  Prod.Lex.toLex_lt_toLex

theorem key_le
    {first second : SortKey}
    (hLess : first < second) :
    keyRank first.key ≤ keyRank second.key := by
  rcases (lt_iff first second).mp hLess with hKey | hBoth
  · exact le_of_lt hKey
  · exact le_of_eq hBoth.1

/- Below a bare key is what has a lesser one. -/
theorem lt_bound
    (entry : SortKey)
    (key : Key) :
    entry < ⟨key, none⟩ ↔
      keyRank entry.key < keyRank key := by
  rw [lt_iff]
  constructor
  · intro hLess
    rcases hLess with hKey | hBoth
    · exact hKey
    · exact absurd hBoth.2 not_lt_bot
  · exact .inl

end SortKey

/- Nodes on pages of a size; a payload is the key and six
   bytes of record id. -/
def keyLayout (pageSize : Nat) : Layout SortKey where
  least := ⟨minusInfinity, some ⟨0, 0⟩⟩
  payload := fun sortKey => sortKey.key.length + 6
  pageSize := pageSize

--
-- Calls
--

/- What an index is made with. -/
structure TreeOptions where
  name : String
  unique : Bool
  pageSize : Nat
  /- `describe_key`, for messages. -/
  describe : Key → String

/- `encode_rid` packs into four and two bytes. -/
def sortKeyOf
    (key : Key)
    (recordId : RecordId) : Except EngineError SortKey :=
  if recordId.pageId < 256 ^ 4 ∧ recordId.slotId < 256 ^ 2
  then .ok ⟨key, some recordId⟩
  else .error (.valueError "argument out of range")

namespace BPlusTree

/- Every record id under a key, in tree order. -/
def search
    (tree : BPlusTree SortKey)
    (key : Key) : Except EngineError (List RecordId) := do
  let found ← tree.scanFrom (some ⟨key, none⟩) fun entry =>
    entry.key ≠ key
  return found.filterMap SortKey.recordId

def skips
    (low : Option Key)
    (includeLow : Bool)
    (entry : SortKey) : Bool :=
  low = some entry.key && !includeLow

def beyond
    (high : Option Key)
    (includeHigh : Bool)
    (entry : SortKey) : Bool :=
  match high with
  | none => false
  | some bound =>
    keyRank bound < keyRank entry.key ||
      !includeHigh && entry.key = bound

/- Where a scan ends: an excluded lower bound is passed over
   before the upper one is looked at. -/
def ends
    (low high : Option Key)
    (includeLow includeHigh : Bool)
    (entry : SortKey) : Bool :=
  !skips low includeLow entry && beyond high includeHigh entry

/- Keys and record ids between the bounds; none is unbounded
   on that side. -/
def rangeScan
    (tree : BPlusTree SortKey)
    (low high : Option Key)
    (includeLow includeHigh : Bool) :
    Except EngineError (List (Key × RecordId)) := do
  let found ← tree.scanFrom
    (low.map fun key => ⟨key, none⟩)
    (ends low high includeLow includeHigh)
  return (found.filter fun entry =>
    !skips low includeLow entry).filterMap fun entry =>
      entry.recordId.map fun recordId =>
        (entry.key, recordId)

/- What a unique tree may not hold already. -/
def rivals
    (options : TreeOptions)
    (tree : BPlusTree SortKey)
    (key : Key) : Except EngineError (List RecordId) :=
  if options.unique ∧ ¬ isNullKey key then tree.search key
  else .ok []

def insert
    (options : TreeOptions)
    (tree : BPlusTree SortKey)
    (key : Key)
    (recordId : RecordId) :
    Except EngineError (BPlusTree SortKey) := do
  let held ← rivals options tree key
  if held ≠ [] then
    throw (.uniqueViolation
      (s!"index '{options.name}' is unique and already " ++
        s!"contains {options.describe key}"))
  else
    let entry ← sortKeyOf key recordId
    tree.insertAt (keyLayout options.pageSize) entry

def delete
    (tree : BPlusTree SortKey)
    (key : Key)
    (recordId : RecordId) :
    Except EngineError (BPlusTree SortKey × Bool) := do
  let entry ← sortKeyOf key recordId
  tree.deleteAt entry

end BPlusTree

/- An insert comes with the pages the pager would hand out
   during it. -/
inductive TreeCall where
  | insert
      (key : Key)
      (recordId : RecordId)
      (supply : List PageId)
  | delete (key : Key) (recordId : RecordId)
deriving DecidableEq, Repr

namespace TreeCall

def perform
    (options : TreeOptions)
    (tree : BPlusTree SortKey) :
    TreeCall → Except EngineError (BPlusTree SortKey)
  | .insert key recordId supply =>
    BPlusTree.insert options { tree with supply := supply }
      key recordId
  | .delete key recordId => do
      let (after, _) ← tree.delete key recordId
      return after

def run
    (options : TreeOptions)
    (tree : BPlusTree SortKey) :
    List TreeCall → Except EngineError (BPlusTree SortKey)
  | [] => .ok tree
  | call :: rest => do
      let after ← call.perform options tree
      run options after rest

/- The pairs inserted and not deleted. -/
def remaining
    (held : List (Key × RecordId)) :
    List TreeCall → List (Key × RecordId)
  | [] => held
  | .insert key recordId _ :: rest =>
    remaining ((key, recordId) :: held) rest
  | .delete key recordId :: rest =>
    remaining (held.filter (· ≠ (key, recordId))) rest

end TreeCall

/- A key is that of some value. -/
def Encoded
    (φ : Type)
    [SortableDouble φ]
    (key : Key) : Prop :=
  ∃ (value : Value φ) (dataType : DataType),
    encodeKey value dataType = .ok key

/- Keys are those of values, and every pair is inserted only
   while it is absent. -/
def Admissible
    (φ : Type)
    [SortableDouble φ]
    (held : List (Key × RecordId)) :
    List TreeCall → Prop
  | [] => True
  | .insert key recordId _ :: rest =>
    Encoded φ key ∧ (key, recordId) ∉ held ∧
      Admissible φ ((key, recordId) :: held) rest
  | .delete key recordId :: rest =>
    Encoded φ key ∧
      Admissible φ (held.filter (· ≠ (key, recordId))) rest

/- A key lies between the bounds. -/
def InRange
    (low high : Option Key)
    (includeLow includeHigh : Bool)
    (key : Key) : Prop :=
  (∀ bound, low = some bound →
    keyRank bound ≤ keyRank key ∧
      (includeLow = false → key ≠ bound)) ∧
  (∀ bound, high = some bound →
    keyRank key ≤ keyRank bound ∧
      (includeHigh = false → key ≠ bound))

/- The tree answers from these pairs, in order. -/
structure Represents
    (φ : Type)
    [SortableDouble φ]
    (tree : BPlusTree SortKey)
    (held : List (Key × RecordId)) : Prop where
  search : ∀ key, Encoded φ key →
    ∃ found, tree.search key = .ok found ∧
      found.Pairwise (fun first second =>
        ridRank first < ridRank second) ∧
      ∀ recordId, recordId ∈ found ↔ (key, recordId) ∈ held
  scan : ∀ low high includeLow includeHigh,
    (∀ key, low = some key → Encoded φ key) →
    ∃ found,
      tree.rangeScan low high includeLow includeHigh =
        .ok found ∧
      found.Pairwise (fun first second =>
        (⟨first.1, some first.2⟩ : SortKey) <
          ⟨second.1, some second.2⟩) ∧
      ∀ pair, pair ∈ found ↔ pair ∈ held ∧
        InRange low high includeLow includeHigh pair.1
  delete : ∀ key recordId, Encoded φ key →
    recordId.pageId < 256 ^ 4 → recordId.slotId < 256 ^ 2 →
    ∃ after, tree.delete key recordId =
      .ok (after, decide ((key, recordId) ∈ held))

--
-- What a Scan Keeps
--

variable {stops keep : SortKey → Bool}
variable {contents : List SortKey}

theorem takeWhile_filter
    {entries : List SortKey}
    (hHere : ∀ entry ∈ entries, stops entry = true →
      keep entry = false)
    (hLater : entries.Pairwise fun entry other =>
      stops entry = true → keep other = false) :
    (entries.takeWhile fun entry => ¬ stops entry).filter
        keep =
      entries.filter keep := by
  induction entries with
  | nil => rfl
  | cons entry rest ih =>
    rw [List.pairwise_cons] at hLater
    by_cases hStops : stops entry = true
    · have hNone : (entry :: rest).filter keep = [] := by
        apply List.filter_eq_nil_iff.mpr
        intro other hMem
        rcases List.mem_cons.mp hMem with hIs | hIn
        · rw [hIs, hHere entry (.head _) hStops]
          simp
        · rw [hLater.1 other hIn hStops]
          simp
      rw [hNone, List.takeWhile_cons,
        if_neg (by simp [hStops])]
      rfl
    · rw [List.takeWhile_cons, if_pos (by simp [hStops]),
        List.filter_cons, List.filter_cons,
        ih (fun other hMem =>
          hHere other (.tail _ hMem))
          hLater.2]

variable {key : Key}

/- A scan that stops only behind what is wanted leaves out
   nothing of it. -/
theorem scanned_filter
    (hSorted : contents.Pairwise (· < ·))
    {low : Option SortKey}
    (hLow : ∀ target, low = some target →
      ∀ entry, entry < target → keep entry = false)
    (hStops : ∀ entry,
      (∀ target, low = some target → target ≤ entry) →
      stops entry = true →
      keep entry = false ∧
        ∀ other, entry < other → keep other = false) :
    (scanned contents low stops).filter keep =
        contents.filter keep ∧
      (scanned contents low stops).Pairwise (· < ·) ∧
      ∀ entry ∈ scanned contents low stops,
        stops entry = false ∧
        ∀ target, low = some target → target ≤ entry := by
  have hCut : ∃ below above, contents = below ++ above ∧
      (∀ entry ∈ below, keep entry = false) ∧
      (∀ entry ∈ above, ∀ target, low = some target →
        target ≤ entry) ∧
      scanned contents low stops =
        above.takeWhile fun entry => ¬ stops entry := by
    cases low with
    | none =>
      exact ⟨[], contents, rfl, by simp, by simp, rfl⟩
    | some target =>
      rcases sorted_cut hSorted target with
        ⟨below, above, hContents, hBelow, hAbove⟩
      refine ⟨below, above, hContents,
        fun entry hMem => hLow target rfl entry
          (hBelow entry hMem), ?_, ?_⟩
      · intro entry hMem other hSame
        cases hSame
        exact hAbove entry hMem
      · unfold scanned
        simp only
        rw [hContents, dropWhile_cut hBelow hAbove]
  rcases hCut with
    ⟨below, above, hContents, hBelow, hAbove, hScanned⟩
  rw [hContents] at hSorted
  have hParts := List.pairwise_append.mp hSorted
  refine ⟨?_, ?_, ?_⟩
  · have hNone : below.filter keep = [] := by
      apply List.filter_eq_nil_iff.mpr
      intro entry hMem
      rw [hBelow entry hMem]
      simp
    rw [hScanned, hContents, List.filter_append, hNone,
      List.nil_append]
    apply takeWhile_filter
    · exact fun entry hMem hStop =>
        (hStops entry (hAbove entry hMem) hStop).1
    · apply hParts.2.1.imp_of_mem
      intro entry other hEntry _ hLess hStop
      exact (hStops entry (hAbove entry hEntry) hStop).2 other
        hLess
  · rw [hScanned]
    exact hParts.2.1.sublist (List.takeWhile_sublist _)
  · intro entry hMem
    rw [hScanned] at hMem
    have hGoes := List.mem_takeWhile_imp hMem
    exact ⟨by simpa using hGoes,
      hAbove entry (List.takeWhile_subset _ hMem)⟩

/- The contents are these pairs. -/
def Holds
    (contents : List SortKey)
    (held : List (Key × RecordId)) : Prop :=
  ∀ entry, entry ∈ contents ↔
    ∃ pair ∈ held, entry = ⟨pair.1, some pair.2⟩

theorem Holds.mem
    {held : List (Key × RecordId)}
    (hHolds : Holds contents held)
    (key : Key)
    (recordId : RecordId) :
    (⟨key, some recordId⟩ : SortKey) ∈ contents ↔
      (key, recordId) ∈ held := by
  rw [hHolds]
  constructor
  · intro hPair
    rcases hPair with ⟨pair, hMem, hSame⟩
    cases hSame
    exact hMem
  · exact fun hMem => ⟨(key, recordId), hMem, rfl⟩

variable {φ : Type} {held : List (Key × RecordId)}

theorem least_le
    {φ : Type}
    [SortableDouble φ]
    (pageSize : Nat)
    (hKey : Encoded φ key)
    (recordId : Option RecordId) :
    (keyLayout pageSize).least ≤ ⟨key, recordId⟩ := by
  rcases hKey with ⟨value, dataType, hKey⟩
  rcases encodeKey_above hKey with ⟨tag, rest, rfl, hTag⟩
  apply le_of_lt
  rw [SortKey.lt_iff]
  left
  exact List.Lex.rel (UInt8.lt_iff_toNat_lt.mp hTag)

--
-- Answers
--

section Answers

variable [SortableDouble φ] {pageSize : Nat}
variable {tree : BPlusTree SortKey}

omit [SortableDouble φ] in
theorem search_scanned
    (hSorted : contents.Pairwise (· < ·))
    (hHolds : Holds contents held)
    (key : Key)
    {stops : SortKey → Bool}
    (hStops : ∀ entry, stops entry = true ↔ entry.key ≠ key) :
    ((scanned contents (some ⟨key, none⟩)
        stops).filterMap SortKey.recordId).Pairwise
          (fun first second =>
            ridRank first < ridRank second) ∧
      ∀ recordId, recordId ∈ (scanned contents
        (some ⟨key, none⟩) stops).filterMap
          SortKey.recordId ↔ (key, recordId) ∈ held := by
  have hFilter : (scanned contents (some ⟨key, none⟩)
      stops).filter (fun entry => entry.key = key) =
        contents.filter (fun entry => entry.key = key) ∧
      (scanned contents (some ⟨key, none⟩) stops).Pairwise
        (· < ·) ∧
      ∀ entry ∈ scanned contents (some ⟨key, none⟩) stops,
        stops entry = false ∧
        ∀ target, some (⟨key, none⟩ : SortKey) =
          some target → target ≤ entry := by
    apply scanned_filter hSorted
    · intro target hTarget entry hLess
      cases hTarget
      rw [SortKey.lt_bound] at hLess
      apply decide_eq_false
      intro hSame
      rw [hSame] at hLess
      exact lt_irrefl _ hLess
    · intro entry hFrom hStop
      rw [hStops] at hStop
      refine ⟨decide_eq_false hStop, ?_⟩
      intro other hLess
      apply decide_eq_false
      intro hSame
      have hNot := not_lt.mpr (hFrom _ rfl)
      rw [SortKey.lt_bound, not_lt] at hNot
      have hLe := SortKey.key_le hLess
      rw [hSame] at hLe
      exact hStop (SortKey.keyRank_injective
        (le_antisymm hLe hNot))
  rcases hFilter with ⟨hSame, hOrder, hAll⟩
  have hKeys : ∀ entry ∈ scanned contents
      (some ⟨key, none⟩) stops, entry.key = key := by
    intro entry hMem
    by_contra hOther
    have hGoes := (hAll entry hMem).1
    rw [(hStops entry).mpr hOther] at hGoes
    cases hGoes
  have hFound : scanned contents (some ⟨key, none⟩) stops =
      contents.filter (fun entry => entry.key = key) := by
    rw [← hSame]
    symm
    apply List.filter_eq_self.mpr
    exact fun entry hMem =>
      decide_eq_true (hKeys entry hMem)
  constructor
  · rw [List.pairwise_filterMap]
    apply hOrder.imp_of_mem
    intro entry other hEntry hOther hLess one hOne two hTwo
    rw [SortKey.lt_iff, hKeys entry hEntry,
      hKeys other hOther, hOne, hTwo] at hLess
    rcases hLess with hKey | hBoth
    · exact absurd hKey (lt_irrefl _)
    · exact WithBot.coe_lt_coe.mp hBoth.2
  · intro recordId
    rw [hFound, ← hHolds.mem, List.mem_filterMap]
    constructor
    · intro hFound
      rcases hFound with ⟨entry, hMem, hId⟩
      rw [List.mem_filter, decide_eq_true_eq] at hMem
      rcases entry with ⟨other, otherId⟩
      simp only at hMem hId
      rw [hMem.2, hId] at hMem
      exact hMem.1
    · intro hMem
      exact ⟨⟨key, some recordId⟩, by simp [hMem], rfl⟩

instance
    (low high : Option Key)
    (includeLow includeHigh : Bool)
    (key : Key) :
    Decidable (InRange low high includeLow includeHigh key) :=
  inferInstanceAs (Decidable (_ ∧ _))

omit [SortableDouble φ] in
theorem beyond_iff
    (high : Option Key)
    (includeHigh : Bool)
    (entry : SortKey) :
    BPlusTree.beyond high includeHigh entry = true ↔
      ∃ bound, high = some bound ∧
        (keyRank bound < keyRank entry.key ∨
          includeHigh = false ∧ entry.key = bound) := by
  unfold BPlusTree.beyond
  cases high with
  | none => simp
  | some bound => simp

omit [SortableDouble φ] in
theorem skips_iff
    (low : Option Key)
    (includeLow : Bool)
    (entry : SortKey) :
    BPlusTree.skips low includeLow entry = true ↔
      low = some entry.key ∧ includeLow = false := by
  simp [BPlusTree.skips]

omit [SortableDouble φ] in
/- Beyond the upper bound there is nothing in the range. -/
theorem not_inRange_of_beyond
    {low high : Option Key}
    {includeLow includeHigh : Bool}
    {entry : SortKey}
    (hBeyond : BPlusTree.beyond high includeHigh entry = true)
    {key : Key}
    (hKey : keyRank entry.key ≤ keyRank key) :
    ¬ InRange low high includeLow includeHigh key := by
  rcases (beyond_iff high includeHigh entry).mp hBeyond with
    ⟨bound, hHigh, hOver⟩
  intro hRange
  rcases hRange.2 bound hHigh with ⟨hLe, hNot⟩
  rcases hOver with hMore | ⟨hExclude, hSame⟩
  · exact absurd (lt_of_lt_of_le hMore hKey)
      (not_lt.mpr hLe)
  · rw [hSame] at hKey
    exact hNot hExclude (SortKey.keyRank_injective
      (le_antisymm hLe hKey))

omit [SortableDouble φ] in
theorem rangeScan_scanned
    (hSorted : contents.Pairwise (· < ·))
    (low high : Option Key)
    (includeLow includeHigh : Bool) :
    ((scanned contents (low.map fun key => ⟨key, none⟩)
        (BPlusTree.ends low high includeLow
          includeHigh)).filter
        fun entry =>
          !BPlusTree.skips low includeLow entry) =
      contents.filter fun entry =>
        InRange low high includeLow includeHigh entry.key := by
  generalize hFound : scanned contents
    (low.map fun key => (⟨key, none⟩ : SortKey))
    (BPlusTree.ends low high includeLow includeHigh) = found
  have hScan : found.filter
        (fun entry => InRange low high includeLow includeHigh
          entry.key) =
        contents.filter (fun entry =>
          InRange low high includeLow includeHigh
            entry.key) ∧
        found.Pairwise (· < ·) ∧
        ∀ entry ∈ found,
          BPlusTree.ends low high includeLow includeHigh
              entry = false ∧
          ∀ target,
            low.map (fun key => (⟨key, none⟩ : SortKey)) =
              some target → target ≤ entry := by
    rw [← hFound]
    apply scanned_filter hSorted
    · intro target hTarget entry hLess
      rcases Option.map_eq_some_iff.mp hTarget with
        ⟨bound, hLow, rfl⟩
      rw [SortKey.lt_bound] at hLess
      apply decide_eq_false
      intro hRange
      exact absurd hLess
        (not_lt.mpr (hRange.1 bound hLow).1)
    · intro entry _ hStop
      unfold BPlusTree.ends at hStop
      rw [Bool.and_eq_true] at hStop
      constructor
      · exact decide_eq_false
          (not_inRange_of_beyond hStop.2 (le_refl _))
      · exact fun other hLess => decide_eq_false
          (not_inRange_of_beyond hStop.2
            (SortKey.key_le hLess))
  rw [← hScan.1]
  apply List.filter_congr
  intro entry hMem
  rcases hScan.2.2 entry hMem with ⟨hGoes, hFrom⟩
  unfold BPlusTree.ends at hGoes
  have hEquiv : BPlusTree.skips low includeLow entry = false ↔
      InRange low high includeLow includeHigh entry.key := by
    constructor
    · intro hKept
      rw [hKept] at hGoes
      constructor
      · intro bound hLow
        have hLe := hFrom ⟨bound, none⟩ (by rw [hLow]; rfl)
        have hNot := not_lt.mpr hLe
        rw [SortKey.lt_bound, not_lt] at hNot
        refine ⟨hNot, ?_⟩
        intro hExclude hSame
        have hSkips := (skips_iff low includeLow entry).mpr
          ⟨by rw [hLow, hSame], hExclude⟩
        rw [hKept] at hSkips
        cases hSkips
      · intro bound hHigh
        have hInside : ¬ BPlusTree.beyond high includeHigh
            entry = true := by
          intro hBeyond
          rw [hBeyond] at hGoes
          cases hGoes
        rw [beyond_iff] at hInside
        push Not at hInside
        have hBoth := hInside bound hHigh
        exact ⟨hBoth.1, hBoth.2⟩
    · intro hRange
      rw [← Bool.not_eq_true]
      intro hSkips
      rcases (skips_iff low includeLow entry).mp hSkips with
        ⟨hLow, hExclude⟩
      exact (hRange.1 _ hLow).2 hExclude rfl
  by_cases hRange :
      InRange low high includeLow includeHigh entry.key
  · rw [hEquiv.mpr hRange, decide_eq_true hRange]
    rfl
  · have hSkips : BPlusTree.skips low includeLow entry =
        true := by
      rw [← Bool.not_eq_false]
      exact fun hKept => hRange (hEquiv.mp hKept)
    rw [hSkips, decide_eq_false hRange]
    rfl

/- A tree that is not too deep answers from its contents. -/
theorem represents_of_levels
    (hWell : WellFormed (keyLayout pageSize) tree contents)
    (hHolds : Holds contents held)
    {top : Nat}
    (hLevels : Levels tree.nodes tree.root top)
    (hShallow : top ≤ maxDepth) :
    Represents φ tree held := by
  have hSorted : contents.Pairwise (· < ·) := by
    rcases hWell with ⟨_, _, _, hLeaves⟩
    exact hLeaves.sorted
  have hScan : ∀ low stops,
      (∀ target, low = some target →
        (keyLayout pageSize).least ≤ target) →
      tree.scanFrom low stops =
        .ok (scanned contents low stops) := by
    rcases scanFrom_spec hWell with ⟨other, hOther, _, hSpec⟩
    rw [hOther.unique hLevels] at hSpec
    exact hSpec hShallow
  constructor
  · intro key hKey
    have hStops : ∀ entry : SortKey,
        (fun entry : SortKey =>
          decide (entry.key ≠ key)) entry = true ↔
            entry.key ≠ key := by simp
    rcases search_scanned hSorted hHolds key hStops with
      ⟨hOrder, hMem⟩
    refine ⟨_, ?_, hOrder, hMem⟩
    unfold BPlusTree.search
    rw [hScan _ _ fun target hTarget => by
      cases hTarget
      exact least_le pageSize hKey none]
    rfl
  · intro low high includeLow includeHigh hLow
    have hFilter := rangeScan_scanned hSorted low high
      includeLow includeHigh
    refine ⟨(contents.filter fun entry => InRange low high
      includeLow includeHigh entry.key).filterMap
        fun entry => entry.recordId.map fun recordId =>
          (entry.key, recordId), ?_, ?_, ?_⟩
    · unfold BPlusTree.rangeScan
      rw [hScan _ _ fun target hTarget => by
        rcases Option.map_eq_some_iff.mp hTarget with
          ⟨key, hKey, rfl⟩
        exact least_le pageSize (hLow key hKey) none]
      simp only [bind, Except.bind, hFilter]
      rfl
    · rw [List.pairwise_filterMap]
      apply (hSorted.filter _).imp
      intro entry other hLess one hOne two hTwo
      rcases Option.map_eq_some_iff.mp hOne with
        ⟨oneId, hOneId, rfl⟩
      rcases Option.map_eq_some_iff.mp hTwo with
        ⟨twoId, hTwoId, rfl⟩
      rw [← hOneId, ← hTwoId]
      exact hLess
    · intro pair
      rw [List.mem_filterMap]
      constructor
      · intro hFound
        rcases hFound with ⟨entry, hMem, hPair⟩
        rcases Option.map_eq_some_iff.mp hPair with
          ⟨recordId, hId, rfl⟩
        rw [List.mem_filter, decide_eq_true_eq] at hMem
        refine ⟨?_, hMem.2⟩
        rw [← hHolds.mem, ← hId]
        exact hMem.1
      · intro hPair
        refine ⟨⟨pair.1, some pair.2⟩, ?_, rfl⟩
        rw [List.mem_filter, decide_eq_true_eq]
        exact ⟨(hHolds.mem _ _).mpr hPair.1, hPair.2⟩
  · intro key recordId hKey hPage hSlot
    have hTarget := least_le pageSize hKey (some recordId)
    have hDelete : ∃ after removed, tree.deleteAt
        ⟨key, some recordId⟩ = .ok (after, removed) := by
      rcases hWell with ⟨_, _, hRooted, hLeaves⟩
      rcases descendFrom_spec hRooted hLeaves with
        ⟨other, hOther, hDescend, _⟩
      rw [hOther.unique hLevels] at hDescend
      rcases (hDescend _ hTarget).2 hShallow with
        ⟨landing, _, _, _, hFound, _⟩
      unfold BPlusTree.deleteAt
      simp only [hFound, bind, Except.bind]
      split
      · exact ⟨_, _, rfl⟩
      · exact ⟨_, _, rfl⟩
    rcases hDelete with ⟨after, removed, hDone⟩
    refine ⟨after, ?_⟩
    unfold BPlusTree.delete sortKeyOf
    rw [if_pos ⟨hPage, hSlot⟩]
    simp only [bind, Except.bind, hDone]
    rcases deleteAt_spec hWell hTarget hDone with
      ⟨rfl, below, above, hContents, _⟩ |
        ⟨rfl, hAbsent, _⟩
    · have hThere : (key, recordId) ∈ held := by
        rw [← hHolds.mem, hContents]
        simp
      rw [decide_eq_true hThere]
    · rw [hHolds.mem] at hAbsent
      rw [decide_eq_false hAbsent]

/- A tree that is too deep answers nothing. -/
theorem levels_of_represents
    (hWell : WellFormed (keyLayout pageSize) tree contents)
    (hAnswers : Represents φ tree held) :
    ∃ top, Levels tree.nodes tree.root top ∧
      top ≤ maxDepth := by
  rcases scanFrom_spec hWell with ⟨top, hLevels, hDeep, _⟩
  refine ⟨top, hLevels, ?_⟩
  by_contra hOver
  have hNull : Encoded φ nullKey := ⟨.null, .integer, rfl⟩
  rcases hAnswers.search nullKey hNull with ⟨found, hFound, _⟩
  unfold BPlusTree.search at hFound
  rw [hDeep (by omega) _ _
    (least_le pageSize hNull none)] at hFound
  cases hFound

end Answers

--
-- Runs
--

theorem Rooted.supplied
    {tree : BPlusTree SortKey}
    {heights : PageId → Nat}
    {least : SortKey}
    {height : Nat}
    {items : Items SortKey}
    (hRooted : Rooted tree heights least height items)
    (supply : List PageId) :
    Rooted { tree with supply := supply } heights least height
      items := by
  have hSame : ∀ {height items},
      Level tree heights least height items →
        Level { tree with supply := supply } heights least
          height items :=
    fun hLevel => hLevel.mono (fun _ hHeld => hHeld)
      fun _ _ => rfl
  induction hRooted with
  | root hLevel =>
    exact .root (hSame hLevel)
  | down _ hChildren hLevel ih =>
    exact .down ih hChildren (hSame hLevel)

theorem create_wellFormed
    (layout : Layout SortKey)
    (root : PageId) :
    WellFormed layout (BPlusTree.create root) [] := by
  refine ⟨fun _ => 0, [(layout.least, root)], ?_, ?_⟩
  · apply Rooted.root
    exact
      { distinct := by simp
        ordered := by simp
        above := by simp
        placed := by simp [BPlusTree.create] }
  · have hLeaf : Leaves
        (BPlusTree.create root : BPlusTree SortKey).nodes
        [(layout.least, root)] ([] ++ []) := by
      apply Leaves.cons
      · simp [BPlusTree.create]
      · exact List.Pairwise.nil
      · simp
      · simp
      · exact .nil
    exact hLeaf

theorem sortKeyOf_ok
    {recordId : RecordId}
    {entry : SortKey}
    (hEntry : sortKeyOf key recordId = .ok entry) :
    entry = ⟨key, some recordId⟩ := by
  unfold sortKeyOf at hEntry
  split at hEntry
  · cases hEntry
    rfl
  · cases hEntry

section Runs

variable [SortableDouble φ] {options : TreeOptions}
variable {tree tree' : BPlusTree SortKey}

variable {recordId : RecordId}

theorem insert_holds
    (hWell : WellFormed (keyLayout options.pageSize) tree
      contents)
    (hHolds : Holds contents held)
    (hKey : Encoded φ key)
    (hAbsent : (key, recordId) ∉ held)
    (hInsert : BPlusTree.insert options tree key recordId =
      .ok tree') :
    ∃ contents',
      WellFormed (keyLayout options.pageSize) tree'
        contents' ∧
      Holds contents' ((key, recordId) :: held) := by
  unfold BPlusTree.insert at hInsert
  rcases ok_of_bind hInsert with ⟨found, _, hRest⟩
  split at hRest
  · cases hRest
  rcases ok_of_bind hRest with ⟨entry, hEntry, hDone⟩
  have hSame := sortKeyOf_ok hEntry
  subst hSame
  rw [← hHolds.mem] at hAbsent
  rcases insertAt_spec hWell
    (least_le options.pageSize hKey (some recordId)) hAbsent
    hDone with ⟨below, above, hContents, hWell'⟩
  refine ⟨_, hWell', ?_⟩
  intro entry
  have hOld := hHolds entry
  rw [hContents, List.mem_append] at hOld
  simp only [List.mem_append, List.mem_cons]
  constructor
  · intro hMem
    rcases hMem with hIn | hIs | hIn
    · rcases hOld.mp (.inl hIn) with ⟨pair, hPair, hIt⟩
      exact ⟨pair, .inr hPair, hIt⟩
    · exact ⟨(key, recordId), .inl rfl, hIs⟩
    · rcases hOld.mp (.inr hIn) with ⟨pair, hPair, hIt⟩
      exact ⟨pair, .inr hPair, hIt⟩
  · intro hPair
    rcases hPair with ⟨pair, hNew | hPair, hIt⟩
    · rw [hIt, hNew]
      exact .inr (.inl rfl)
    · rcases hOld.mpr ⟨pair, hPair, hIt⟩ with hIn | hIn
      · exact .inl hIn
      · exact .inr (.inr hIn)

theorem delete_holds
    (hWell : WellFormed (keyLayout options.pageSize) tree
      contents)
    (hHolds : Holds contents held)
    (hKey : Encoded φ key)
    {removed : Bool}
    (hDelete : tree.delete key recordId =
      .ok (tree', removed)) :
    ∃ contents',
      WellFormed (keyLayout options.pageSize) tree'
        contents' ∧
      Holds contents'
        (held.filter (· ≠ (key, recordId))) := by
  have hSorted : contents.Pairwise (· < ·) := by
    rcases hWell with ⟨_, _, _, hLeaves⟩
    exact hLeaves.sorted
  unfold BPlusTree.delete at hDelete
  rcases ok_of_bind hDelete with ⟨entry, hEntry, hDone⟩
  have hSame := sortKeyOf_ok hEntry
  subst hSame
  have hFilter : ∀ {contents' : List SortKey},
      (∀ entry, entry ∈ contents' ↔ entry ∈ contents ∧
        entry ≠ ⟨key, some recordId⟩) →
      Holds contents'
        (held.filter (· ≠ (key, recordId))) := by
    intro contents' hLeft entry
    rw [hLeft, hHolds]
    constructor
    · intro hBoth
      rcases hBoth with ⟨⟨pair, hPair, hIt⟩, hOther⟩
      refine ⟨pair, ?_, hIt⟩
      rw [List.mem_filter, decide_eq_true_eq]
      refine ⟨hPair, ?_⟩
      intro hGone
      apply hOther
      rw [hIt, hGone]
    · intro hBoth
      rcases hBoth with ⟨pair, hPair, hIt⟩
      rw [List.mem_filter, decide_eq_true_eq] at hPair
      refine ⟨⟨pair, hPair.1, hIt⟩, ?_⟩
      intro hGone
      apply hPair.2
      rw [hIt, SortKey.mk.injEq, Option.some.injEq] at hGone
      exact Prod.ext hGone.1 hGone.2
  rcases deleteAt_spec hWell
    (least_le options.pageSize hKey (some recordId))
    hDone with
    ⟨_, below, above, hContents, hWell'⟩ | ⟨_, hAbsent, hSame⟩
  · refine ⟨_, hWell', hFilter ?_⟩
    rw [hContents] at hSorted ⊢
    have hParts := List.pairwise_append.mp hSorted
    intro entry
    simp only [List.mem_append, List.mem_cons]
    constructor
    · intro hMem
      rcases hMem with hIn | hIn
      · exact ⟨.inl hIn, ne_of_lt
          (hParts.2.2 entry hIn _ (.head _))⟩
      · exact ⟨.inr (.inr hIn), ne_of_gt
          ((List.pairwise_cons.mp hParts.2.1).1 entry hIn)⟩
    · intro hBoth
      rcases hBoth with ⟨hIn | hIs | hIn, hOther⟩
      · exact .inl hIn
      · exact absurd hIs hOther
      · exact .inr hIn
  · refine ⟨contents, by rw [hSame]; exact hWell,
      hFilter ?_⟩
    intro entry
    constructor
    · intro hMem
      refine ⟨hMem, ?_⟩
      intro hIs
      exact hAbsent (hIs ▸ hMem)
    · exact fun hBoth => hBoth.1

theorem run_holds
    {calls : List TreeCall}
    (hWell : WellFormed (keyLayout options.pageSize) tree
      contents)
    (hHolds : Holds contents held)
    (hAdmissible : Admissible φ held calls)
    (hRun : TreeCall.run options tree calls = .ok tree') :
    ∃ contents',
      WellFormed (keyLayout options.pageSize) tree'
        contents' ∧
      Holds contents' (TreeCall.remaining held calls) := by
  induction calls generalizing tree contents held with
  | nil =>
    cases hRun
    exact ⟨contents, hWell, hHolds⟩
  | cons call rest ih =>
    unfold TreeCall.run at hRun
    rcases ok_of_bind hRun with ⟨after, hCall, hRest⟩
    cases call with
    | insert key recordId supply =>
      rcases hAdmissible with ⟨hKey, hAbsent, hLater⟩
      have hSupplied : WellFormed
          (keyLayout options.pageSize)
          { tree with supply := supply } contents := by
        rcases hWell with ⟨heights, items, hRooted, hLeaves⟩
        exact ⟨heights, items, hRooted.supplied supply, hLeaves⟩
      rcases insert_holds hSupplied hHolds hKey hAbsent
        hCall with ⟨_, hWell', hHolds'⟩
      exact ih hWell' hHolds' hLater hRest
    | delete key recordId =>
      rcases hAdmissible with ⟨hKey, hLater⟩
      unfold TreeCall.perform at hCall
      rcases ok_of_bind hCall with
        ⟨⟨changed, removed⟩, hDelete, hDone⟩
      cases hDone
      rcases delete_holds hWell hHolds hKey hDelete with
        ⟨_, hWell', hHolds'⟩
      exact ih hWell' hHolds' hLater hRest

/- The tree is well formed and holds what was inserted and
   not deleted, after every run that does not raise; it
   answers so if and only if it is not too deep. -/
theorem tree_represents
    {root : PageId}
    {calls : List TreeCall}
    (hAdmissible : Admissible φ [] calls)
    (hRun : TreeCall.run options (BPlusTree.create root)
      calls = .ok tree) :
    (∃ contents,
      WellFormed (keyLayout options.pageSize) tree
        contents ∧
      Holds contents (TreeCall.remaining [] calls)) ∧
    (Represents φ tree (TreeCall.remaining [] calls) ↔
      ∃ top, Levels tree.nodes tree.root top ∧
        top ≤ maxDepth) := by
  have hEmpty : Holds [] [] := by
    intro entry
    simp
  rcases run_holds (create_wellFormed _ root) hEmpty
    hAdmissible hRun with ⟨contents, hWell, hHolds⟩
  refine ⟨⟨contents, hWell, hHolds⟩, ?_, ?_⟩
  · exact levels_of_represents hWell
  · intro hLevels
    rcases hLevels with ⟨top, hTop, hShallow⟩
    exact represents_of_levels hWell hHolds hTop hShallow

end Runs

--
-- Forgetting the Pages
--

namespace BPlusTree

variable {σ : Type} [LinearOrder σ] {layout : Layout σ}

/- The tree, given these pages before its own. -/
def withPages
    (earlier : List PageId)
    (tree : BPlusTree σ) : BPlusTree σ :=
  { tree with pages := tree.pages ++ earlier }

/- What an insert leaves of the pages it was given, in a tree
   that had some pages before: the insert goes the same way
   when none of those is handed out again. -/
structure Extends
    (earlier : List PageId)
    (tree after : BPlusTree σ) : Prop where
  fresh : ∀ pageId ∈ after.supply, pageId ∉ earlier
  taken : ∀ pageId ∈ after.pages,
    pageId ∈ tree.pages ∨ pageId ∈ tree.supply
  left : ∀ pageId ∈ after.supply, pageId ∈ tree.supply

variable {earlier : List PageId} {tree after : BPlusTree σ}

omit [LinearOrder σ] in
theorem Extends.start
    (hFresh : ∀ pageId ∈ tree.supply, pageId ∉ earlier) :
    Extends earlier tree tree :=
  ⟨hFresh, fun _ hMem => .inl hMem, fun _ hMem => hMem⟩

omit [LinearOrder σ] in
theorem Extends.trans
    {between : BPlusTree σ}
    (hFirst : Extends earlier tree between)
    (hSecond : Extends earlier between after) :
    Extends earlier tree after where
  fresh := hSecond.fresh
  taken := by
    intro pageId hMem
    rcases hSecond.taken pageId hMem with hMem | hMem
    · exact hFirst.taken pageId hMem
    · exact .inr (hFirst.left pageId hMem)
  left := fun pageId hMem =>
    hFirst.left pageId (hSecond.left pageId hMem)

omit [LinearOrder σ] in
theorem allocate_withPages
    {pageId : PageId}
    (hFresh : ∀ pageId ∈ tree.supply, pageId ∉ earlier)
    (hOk : tree.allocate = .ok (pageId, after)) :
    (tree.withPages earlier).allocate =
        .ok (pageId, after.withPages earlier) ∧
      Extends earlier tree after := by
  unfold allocate at hOk ⊢
  cases hSupply : tree.supply with
  | nil =>
    rw [hSupply] at hOk
    cases hOk
  | cons first rest =>
    rw [hSupply] at hOk hFresh
    simp only [withPages, hSupply]
    simp only at hOk
    split at hOk
    · cases hOk
    · rename_i hNew
      cases hOk
      have hHere := hFresh _ (.head _)
      rw [if_neg (by
        rw [List.mem_append]
        exact not_or.mpr ⟨hNew, hHere⟩)]
      refine ⟨rfl, fun other hMem =>
        hFresh other (.tail _ hMem), ?_, ?_⟩
      · intro other hMem
        rw [hSupply]
        rcases List.mem_cons.mp hMem with hHead | hMem
        · rw [hHead]
          exact .inr (.head _)
        · exact .inl hMem
      · intro other hMem
        rw [hSupply]
        exact .tail _ hMem

theorem insertIntoParent_withPages
    {path : Path}
    {leftId : PageId}
    {separator : σ × PageId}
    (hFresh : ∀ pageId ∈ tree.supply, pageId ∉ earlier)
    (hOk : insertIntoParent layout path tree leftId separator =
      .ok after) :
    insertIntoParent layout path (tree.withPages earlier)
        leftId separator = .ok (after.withPages earlier) ∧
      Extends earlier tree after := by
  induction path generalizing tree leftId separator with
  | nil =>
    simp only [insertIntoParent, growRoot] at hOk ⊢
    rcases ok_of_bind hOk with
      ⟨⟨pageId, between⟩, hAllocate, hRest⟩
    rcases ok_of_bind hRest with ⟨_, hFits, hLast⟩
    rcases allocate_withPages hFresh hAllocate with
      ⟨hSame, hExtends⟩
    cases hLast
    rw [hSame]
    simp only [bind, Except.bind] at hFits ⊢
    rw [hFits]
    exact ⟨rfl, hExtends.fresh, hExtends.taken, hExtends.left⟩
  | cons step rest ih =>
    simp only [insertIntoParent] at hOk ⊢
    simp only [withPages] at hOk ⊢
    cases hNode : tree.nodes step.1 with
    | none =>
      rw [hNode] at hOk
      cases hOk
    | some node =>
      rw [hNode] at hOk
      cases node with
      | leaf entries next => cases hOk
      | internal entries =>
        simp only at hOk ⊢
        rcases ok_of_bind hOk with ⟨grown, hGrown, hRest⟩
        simp only [hGrown, bind, Except.bind]
        cases grown with
        | some grown =>
          cases hRest
          have hStart := Extends.start hFresh
          exact ⟨rfl, hStart.fresh, hStart.taken, hStart.left⟩
        | none =>
          simp only at hRest ⊢
          rcases ok_of_bind hRest with ⟨cut, hCut, hRest⟩
          simp only [hCut]
          cases hAt : (insertSorted Prod.fst entries
            separator)[cut]? with
          | none =>
            rw [hAt] at hRest
            cases hRest
          | some promoted =>
            rw [hAt] at hRest
            simp only at hRest ⊢
            rcases ok_of_bind hRest with
              ⟨⟨siblingId, between⟩, hAllocate, hRest⟩
            rcases ok_of_bind hRest with ⟨_, hRight, hRest⟩
            rcases ok_of_bind hRest with ⟨_, hLeft, hLast⟩
            rcases allocate_withPages hFresh
              hAllocate with ⟨hSame, hExtends⟩
            simp only [withPages] at hSame
            simp only [hSame, hRight, hLeft]
            rcases ih (by exact hExtends.fresh)
              hLast with
              ⟨hDone, hAfter⟩
            exact ⟨hDone, hExtends.trans
              ⟨hAfter.fresh, hAfter.taken, hAfter.left⟩⟩

theorem descendFrom_withPages
    (earlier : List PageId)
    (tree : BPlusTree σ)
    (entry : σ) :
    (tree.withPages earlier).descendFrom entry =
      tree.descendFrom entry := by
  have hDescend : ∀ fuel pageId path,
      (tree.withPages earlier).descend entry fuel pageId
        path = tree.descend entry fuel pageId path := by
    have hNodes : (tree.withPages earlier).nodes =
        tree.nodes := rfl
    intro fuel
    induction fuel with
    | zero =>
      intro pageId path
      rw [descend.eq_def, descend.eq_def]
      simp only [hNodes]
      cases tree.nodes pageId with
      | none => rfl
      | some node => cases node <;> rfl
    | succ fuel ih =>
      intro pageId path
      rw [descend.eq_def, descend.eq_def]
      simp only [hNodes]
      cases tree.nodes pageId with
      | none => rfl
      | some node =>
        cases node with
        | leaf entries next => rfl
        | internal entries => simp only [ih]
  exact hDescend _ _ _

theorem insertAt_withPages
    (earlier : List PageId)
    {entry : σ}
    (hFresh : ∀ pageId ∈ tree.supply, pageId ∉ earlier)
    (hOk : insertAt layout tree entry = .ok after) :
    insertAt layout (tree.withPages earlier) entry =
        .ok (after.withPages earlier) ∧
      Extends earlier tree after := by
  unfold insertAt at hOk ⊢
  rcases ok_of_bind hOk with ⟨leaf, hLeaf, hRest⟩
  rw [descendFrom_withPages, hLeaf]
  simp only [bind, Except.bind]
  rcases ok_of_bind hRest with ⟨grown, hGrown, hRest⟩
  simp only [hGrown]
  cases grown with
  | some grown =>
    cases hRest
    have hStart := Extends.start hFresh
    exact ⟨rfl, hStart.fresh, hStart.taken, hStart.left⟩
  | none =>
    simp only [splitLeaf] at hRest ⊢
    rcases ok_of_bind hRest with ⟨cut, hCut, hRest⟩
    simp only [hCut, bind, Except.bind]
    cases hAt : (insertSorted id leaf.entries entry)[cut]? with
    | none =>
      rw [hAt] at hRest
      cases hRest
    | some first =>
      rw [hAt] at hRest
      simp only at hRest ⊢
      rcases ok_of_bind hRest with
        ⟨⟨siblingId, between⟩, hAllocate, hRest⟩
      rcases ok_of_bind hRest with ⟨_, hRight, hRest⟩
      rcases ok_of_bind hRest with ⟨_, hLeft, hLast⟩
      rcases allocate_withPages hFresh hAllocate with
        ⟨hSame, hExtends⟩
      simp only [hSame, hRight, hLeft]
      rcases insertIntoParent_withPages
        (by exact hExtends.fresh) hLast with
        ⟨hDone, hAfter⟩
      exact ⟨hDone, hExtends.trans
        ⟨hAfter.fresh, hAfter.taken, hAfter.left⟩⟩

end BPlusTree

namespace TreeCall

/- The pages that an insert may take. -/
def given : TreeCall → List PageId
  | .insert _ _ supply => supply
  | .delete _ _ => []

/- The run of a tree that forgets which pages it has. -/
def runForgetful
    (options : TreeOptions)
    (tree : BPlusTree SortKey) :
    List TreeCall → Except EngineError (BPlusTree SortKey)
  | [] => .ok tree
  | call :: rest => do
      let after ← call.perform options { tree with pages := [] }
      runForgetful options after rest

/- Where no page is handed out twice, there is nothing to
   remember. -/
theorem run_of_forgetful
    {options : TreeOptions}
    (earlier : List PageId)
    {calls : List TreeCall}
    {tree after : BPlusTree SortKey}
    (hUnique : options.unique = false)
    (hInserts : calls.all (· matches .insert _ _ _) = true)
    (hOrder : (calls.flatMap given).Pairwise (· < ·))
    (hLater : ∀ pageId ∈ (tree.withPages earlier).pages,
      ∀ other ∈ calls.flatMap given, pageId < other)
    (hOk : runForgetful options tree calls = .ok after) :
    ∃ pages, run options (tree.withPages earlier) calls =
      .ok (after.withPages pages) := by
  induction calls generalizing tree earlier with
  | nil =>
    cases hOk
    exact ⟨earlier, rfl⟩
  | cons call rest ih =>
    rcases ok_of_bind hOk with ⟨between, hCall, hRest⟩
    rw [List.all_cons, Bool.and_eq_true] at hInserts
    rw [List.flatMap_cons] at hOrder hLater
    rcases List.pairwise_append.mp hOrder with
      ⟨_, hRestOrder, hBefore⟩
    cases call with
    | delete key recordId => cases hInserts.1
    | insert key recordId supply =>
      simp only [given] at hBefore hLater
      have hFresh : ∀ pageId ∈ supply,
          pageId ∉ (tree.withPages earlier).pages := by
        intro pageId hSupply hMem
        exact lt_irrefl _ (hLater pageId hMem pageId
          (List.mem_append_left _ hSupply))
      simp only [perform, BPlusTree.insert,
        BPlusTree.rivals, hUnique, Bool.false_eq_true,
        false_and, if_false, bind, Except.bind, ne_eq,
        not_true_eq_false] at hCall
      cases hKey : sortKeyOf key recordId with
      | error raised =>
        rw [hKey] at hCall
        cases hCall
      | ok entry =>
        rw [hKey] at hCall
        rcases BPlusTree.insertAt_withPages
          (tree.withPages earlier).pages hFresh hCall
          with ⟨hSame, hExtends⟩
        have hTaken : ∀ pageId ∈ between.pages,
            pageId ∈ supply := by
          intro pageId hMem
          rcases hExtends.taken pageId hMem with
            hNone | hSupply
          · cases hNone
          · exact hSupply
        rcases ih (tree.withPages earlier).pages
          hInserts.2 hRestOrder (by
            intro pageId hMem other hOther
            rcases List.mem_append.mp hMem with
              hMem | hMem
            · exact hBefore pageId (hTaken pageId hMem)
                other hOther
            · exact hLater pageId hMem other
                (List.mem_append_right _ hOther))
          hRest with ⟨pages, hDone⟩
        refine ⟨pages, ?_⟩
        simp only [run, perform, BPlusTree.insert,
          BPlusTree.rivals, hUnique, Bool.false_eq_true,
          false_and, if_false, bind, Except.bind, ne_eq,
          not_true_eq_false, hKey]
        have hStep : BPlusTree.insertAt
            (keyLayout options.pageSize)
            { tree.withPages earlier with
              supply := supply } entry =
            .ok (between.withPages
              (tree.withPages earlier).pages) := hSame
        rw [hStep]
        exact hDone

end TreeCall

--
-- A Tree Too Deep
--

/- Texts of which a page of 256 bytes holds one, each below
   the one before. -/
def longText (index : Nat) : Value Empty :=
  .text (String.ofList
    (List.replicate 107 (Char.ofNat (120 - index))))

def longKey (index : Nat) : Key :=
  2 :: List.replicate 107 (UInt8.ofNat (120 - index))

def smallPages : TreeOptions where
  name := "i"
  unique := false
  pageSize := 256
  describe := fun _ => ""

/- So many of them, with pages enough to add a level for
   each. -/
def longInserts (count : Nat) : List TreeCall :=
  (List.range count).map fun index =>
    .insert (longKey index) ⟨1, index⟩
      ((List.range (index + 2)).map (100 * (index + 1) + ·))

theorem longKey_encodes :
    ∀ index < 34, encodeKey (longText index) .text =
      .ok (longKey index) := by
  decide +kernel

/- Each page is handed out once. -/
theorem longInserts_apart :
    ((longInserts 34).flatMap TreeCall.given).IsChain
      (· < ·) := by
  decide +kernel

theorem longInserts_forgetful :
    (TreeCall.runForgetful smallPages (BPlusTree.create 1)
        (longInserts 34)).map
          (fun tree => tree.descendFrom ⟨longKey 0, none⟩) =
      .ok (.error BPlusTree.tooDeep) := by
  decide +kernel

/- Thirty-four inserts make a tree that no descent gets
   through, and what it holds is not found. -/
theorem longInserts_lost :
    (TreeCall.run smallPages (BPlusTree.create 1)
        (longInserts 34)).map
          (fun tree => tree.search (longKey 0)) =
      .ok (.error BPlusTree.tooDeep) ∧
    (longKey 0, ⟨1, 0⟩) ∈
      TreeCall.remaining [] (longInserts 34) := by
  constructor
  · have hForgetful := longInserts_forgetful
    cases hRun : TreeCall.runForgetful smallPages
        (BPlusTree.create 1) (longInserts 34) with
    | error raised =>
      rw [hRun] at hForgetful
      cases hForgetful
    | ok after =>
      rw [hRun] at hForgetful
      have hDescend : after.descendFrom ⟨longKey 0, none⟩ =
          .error BPlusTree.tooDeep :=
        Except.ok.inj hForgetful
      rcases TreeCall.run_of_forgetful [] rfl
        (by decide +kernel)
        (List.isChain_iff_pairwise.mp longInserts_apart)
        (by decide +kernel) hRun with ⟨pages, hDone⟩
      have hStart : (BPlusTree.create 1 :
          BPlusTree SortKey).withPages [] =
          BPlusTree.create 1 := rfl
      rw [hStart] at hDone
      rw [hDone]
      refine congrArg Except.ok ?_
      simp only [BPlusTree.search, BPlusTree.scanFrom]
      rw [BPlusTree.descendFrom_withPages, hDescend]
      rfl
  · decide +kernel

theorem longInserts_admissible :
    Admissible Empty [] (longInserts 2) := by
  refine ⟨⟨longText 0, .text, longKey_encodes 0 (by omega)⟩,
    by simp, ⟨longText 1, .text,
      longKey_encodes 1 (by omega)⟩, ?_, trivial⟩
  decide +kernel

theorem tree_represents_two :
    ∃ tree,
      TreeCall.run smallPages (BPlusTree.create 1)
        (longInserts 2) = .ok tree ∧
      (Represents Empty tree
          (TreeCall.remaining [] (longInserts 2)) ↔
        ∃ top, Levels tree.nodes tree.root top ∧
          top ≤ maxDepth) := by
  have hRuns : (TreeCall.run smallPages (BPlusTree.create 1)
      (longInserts 2)).isOk = true := by
    decide +kernel
  cases hRun : TreeCall.run smallPages (BPlusTree.create 1)
      (longInserts 2) with
  | error raised =>
    rw [hRun] at hRuns
    cases hRuns
  | ok tree =>
    exact ⟨tree, rfl,
      (tree_represents longInserts_admissible hRun).2⟩

end Indexing

end ChenDB
