import ChenDB.Storage.Heap
import ChenDB.Transaction.Horizon

/-
  Row versions, and the vacuum that reclaims them. Vacuum
  goes by the snapshots that open transactions hold; a writer
  may hold none.
-/

--
-- Versions
--

namespace ChenDB

namespace Mvcc

open Storage (HeapFile Page Payload RecordId)
open Transaction (Operation Snapshot Timeline
  TransactionManager TupleHeader visible)
open Wal (noTransaction)

variable {ι ρ : Type}

def tupleHeaderSize : Nat := 8

/- An encoded row behind its tuple header. -/
structure Version (ρ : Type) where
  header : TupleHeader
  row : ρ
deriving DecidableEq, Repr

instance [Payload ρ] : Payload (Version ρ) where
  size version := tupleHeaderSize + Payload.size version.row

def deleted (header : TupleHeader) : Bool :=
  header.xmax ≠ noTransaction

/- No open snapshot could still want this version. -/
def isDead (header : TupleHeader) (horizon : Nat) : Bool :=
  deleted header && header.xmax < horizon

--
-- Vacuum
--

/- Tombstone every record of a list that is still live, and
   count them. -/
def deleteAll
    (heap : HeapFile (Version ρ)) :
    List RecordId → HeapFile (Version ρ) × Nat
  | [] => (heap, 0)
  | recordId :: rest =>
    let (rewritten, gone) := heap.delete recordId
    let (final, reclaimed) := deleteAll rewritten rest
    (final, if gone then reclaimed + 1 else reclaimed)

/- The versions of one heap that are dead, found first. -/
def deadRecords
    (horizon : Nat)
    (heap : HeapFile (Version ρ)) : List RecordId :=
  (heap.records.filter fun record =>
    isDead record.2.header horizon).map Prod.fst

def vacuumHeap
    (horizon : Nat)
    (heap : HeapFile (Version ρ)) :
    HeapFile (Version ρ) × Nat :=
  deleteAll heap (deadRecords horizon heap)

/- The tables a call names; no name means all of them, and
   names are compared after `str.casefold`. -/
def chosen
    (casefold : String → String)
    (table : Option String)
    (name : String) : Bool :=
  match table with
  | none => true
  | some wanted =>
    wanted = "" || casefold wanted = casefold name

/- `Database.require_table`, for the names of the tables. -/
def requireTable
    (casefold : String → String)
    (names : List String)
    (table : Option String) : Except EngineError Unit :=
  match table with
  | none => .ok ()
  | some wanted =>
    if names.any (chosen casefold table) then .ok ()
    else
      let known :=
        if names.isEmpty then "none"
        else ", ".intercalate names
      .error (.catalogError
        (s!"no table named '{wanted}'; this database " ++
          s!"has {known}"))

/- Reclaim versions no snapshot can want again. -/
def vacuum
    (casefold : String → String)
    (manager : TransactionManager ι)
    (tables : List (String × HeapFile (Version ρ)))
    (table : Option String) :
    Except EngineError
      (List (String × HeapFile (Version ρ)) × Nat) := do
  let horizon := manager.oldestSnapshotXmin
  requireTable casefold (tables.map Prod.fst) table
  let results := tables.map fun entry =>
    if chosen casefold table entry.1 then
      let (heap, reclaimed) := vacuumHeap horizon entry.2
      ((entry.1, heap), reclaimed)
    else (entry, 0)
  return (results.map Prod.fst, (results.map Prod.snd).sum)

--
-- What Vacuum Removes
--

theorem get_deleteAll
    (heap : HeapFile (Version ρ))
    (dead : List RecordId)
    (recordId : RecordId) :
    (deleteAll heap dead).1.get recordId =
      if recordId ∈ dead then none
      else heap.get recordId := by
  induction dead generalizing heap with
  | nil => simp [deleteAll]
  | cons first rest ih =>
    unfold deleteAll
    simp only
    rw [ih]
    rcases hDelete : heap.delete first with ⟨rewritten, gone⟩
    by_cases hLater : recordId ∈ rest
    · simp [hLater]
    · simp only [hLater, if_false, List.mem_cons,
        or_false]
      cases gone with
      | true =>
        rw [HeapFile.get_delete hDelete, Function.update_apply]
      | false =>
        have hSame := HeapFile.delete_false hDelete
        subst hSame
        by_cases hFirst : recordId = first
        · rw [if_pos hFirst, hFirst]
          cases hGet : rewritten.get first with
          | none => rfl
          | some version =>
            have hGone := HeapFile.delete_of_get hGet
            rw [hDelete] at hGone
            cases hGone
        · rw [if_neg hFirst]

variable {horizon : Nat} {heap : HeapFile (Version ρ)}
variable {recordId : RecordId} {version : Version ρ}

theorem mem_deadRecords
    (hGet : heap.get recordId = some version) :
    recordId ∈ deadRecords horizon heap ↔
      isDead version.header horizon = true := by
  unfold deadRecords
  simp only [List.mem_map, List.mem_filter, Prod.exists,
    HeapFile.mem_records]
  constructor
  · intro hMem
    rcases hMem with ⟨_, held, ⟨hHeld, hDead⟩, rfl⟩
    rw [hGet, Option.some.injEq] at hHeld
    rw [hHeld]
    exact hDead
  · intro hDead
    exact ⟨recordId, version, ⟨hGet, hDead⟩, rfl⟩

/- A version goes if and only if it is dead. -/
theorem get_vacuumHeap
    (hGet : heap.get recordId = some version) :
    (vacuumHeap horizon heap).1.get recordId =
      if isDead version.header horizon then none
      else some version := by
  unfold vacuumHeap
  rw [get_deleteAll, hGet]
  simp only [mem_deadRecords hGet]

variable {manager : TransactionManager ι}

theorem vacuum_ok
    {casefold : String → String}
    {tables tables' : List (String × HeapFile (Version ρ))}
    {table : Option String}
    {reclaimed : Nat}
    (hVacuum : vacuum casefold manager tables table =
      .ok (tables', reclaimed)) :
    tables' = tables.map fun entry =>
      if chosen casefold table entry.1 then
        (entry.1, (vacuumHeap manager.oldestSnapshotXmin
          entry.2).1)
      else entry := by
  unfold vacuum at hVacuum
  rcases Library.StateExcept.ok_of_bind hVacuum with
    ⟨_, _, hRest⟩
  cases hRest
  rw [List.map_map]
  apply List.map_congr_left
  intro entry _
  simp only [Function.comp_apply]
  split <;> rfl

--
-- Who Could Want a Version
--

/- Nobody can see the version, and nobody will: its deleter
   is not running, no open transaction's snapshot shows it,
   and none taken from here on does. -/
structure Invisible
    (manager : TransactionManager ι)
    (header : TupleHeader) : Prop where
  settled : header.xmax ∉ manager.runningIds
  held : ∀ transaction ∈ manager.running,
    ∀ snapshot, transaction.snapshot = some snapshot →
      visible header snapshot = false
  later : ∀ operations owner,
    visible header
      ((({ manager := manager, log := [] } :
        Timeline ι).run operations).manager.takeSnapshot
          owner) = false

/- Whatever is gone from the heap was invisible. -/
def Harmless
    (manager : TransactionManager ι)
    (before after : HeapFile (Version ρ)) : Prop :=
  ∀ recordId version,
    before.get recordId = some version →
      after.get recordId = none →
        Invisible manager version.header

theorem oldestSnapshotXmin_le
    (hSound : manager.Sound) :
    manager.oldestSnapshotXmin ≤ manager.nextId ∧
      ∀ transaction ∈ manager.running,
        ∀ snapshot, transaction.snapshot = some snapshot →
          manager.oldestSnapshotXmin ≤ snapshot.xmin := by
  unfold TransactionManager.oldestSnapshotXmin
  simp only
  cases hMin : (manager.running.filterMap fun transaction =>
      transaction.snapshot.map Snapshot.xmin).min? with
  | none =>
    rw [List.min?_eq_none_iff,
      List.filterMap_eq_nil_iff] at hMin
    refine ⟨Nat.le_refl _, ?_⟩
    intro transaction hMem snapshot hSnapshot
    have hNone := hMin transaction hMem
    simp [hSnapshot] at hNone
  | some least =>
    rw [List.min?_eq_some_iff] at hMin
    rcases hMin with ⟨hLeast, hBelow⟩
    constructor
    · rcases List.mem_filterMap.mp hLeast with
        ⟨transaction, hMem, hXmin⟩
      rcases Option.map_eq_some_iff.mp hXmin with
        ⟨snapshot, hSnapshot, hSame⟩
      have hFits :=
        (hSound.held transaction hMem snapshot hSnapshot).1
      rw [Option.getD_some, ← hSame]
      exact hFits.bounded
    · intro transaction hMem snapshot hSnapshot
      apply hBelow
      apply List.mem_filterMap.mpr
      exact ⟨transaction, hMem, by simp [hSnapshot]⟩

variable {header : TupleHeader}

theorem not_visible_of_sees
    {snapshot : Snapshot}
    (hSees : snapshot.sees header.xmax = true) :
    visible header snapshot = false := by
  simp [visible, hSees]

/- A deleter that has finished is seen by every snapshot
   taken from then on. -/
theorem sees_settled
    {xid : Nat}
    (hPositive : xid ≠ noTransaction)
    (hIdle : xid ∉ manager.runningIds)
    (hPast : xid < manager.nextId)
    (owner : Nat) :
    (manager.takeSnapshot owner).sees xid = true := by
  unfold Snapshot.sees TransactionManager.takeSnapshot
    Snapshot.take
  simp only [hPositive, if_false, hIdle, not_false_eq_true,
    decide_true]
  grind

theorem invisible_of_dead
    (hSound : manager.Sound)
    (hDead : isDead header manager.oldestSnapshotXmin = true)
    (hSettled : header.xmax ∉ manager.runningIds) :
    Invisible manager header := by
  rcases oldestSnapshotXmin_le hSound with ⟨hNext, hHeld⟩
  simp only [isDead, deleted, Bool.and_eq_true,
    decide_eq_true_eq] at hDead
  rcases hDead with ⟨hDeleted, hBelow⟩
  constructor
  · exact hSettled
  · intro transaction hMem snapshot hSnapshot
    have hXmin := hHeld transaction hMem snapshot hSnapshot
    have hFits :=
      (hSound.held transaction hMem snapshot hSnapshot).1
    apply not_visible_of_sees
    apply hFits.past
    · exact Nat.pos_of_ne_zero hDeleted
    · omega
  · intro operations owner
    have hPast : header.xmax < manager.nextId := by omega
    have hRun : ∀ timeline : Timeline ι,
        timeline.manager = manager →
          header.xmax ∉ (timeline.run
              operations).manager.runningIds ∧
            header.xmax <
              (timeline.run operations).manager.nextId := by
      intro timeline hSame
      rw [← hSame] at hSettled hPast
      exact Timeline.run_settled hSettled hPast operations
    rcases hRun ⟨manager, []⟩ rfl with ⟨hIdle, hLater⟩
    apply not_visible_of_sees
    exact sees_settled hDeleted hIdle hLater owner

/-
  Vacuum removes nothing that anybody can see or will, if and
  only if every running transaction that deleted a version is
  at or above the horizon.
-/
theorem vacuum_harmless_iff
    (casefold : String → String)
    (frozenXid : Nat)
    (operations : List Operation)
    {tables tables' : List (String × HeapFile (Version ρ))}
    {table : Option String}
    {reclaimed : Nat}
    (hVacuum : vacuum casefold
        ((Timeline.start frozenXid : Timeline ι).run
          operations).manager tables table =
      .ok (tables', reclaimed)) :
    List.Forall₂ (fun before after =>
        after.1 = before.1 ∧
          Harmless ((Timeline.start frozenXid :
            Timeline ι).run operations).manager
              before.2 after.2)
        tables tables' ↔
      ∀ entry ∈ tables, chosen casefold table entry.1 →
        ∀ recordId version,
          entry.2.get recordId = some version →
          version.header.xmax ∈ ((Timeline.start frozenXid :
            Timeline ι).run operations).manager.runningIds →
          ((Timeline.start frozenXid : Timeline ι).run
              operations).manager.oldestSnapshotXmin ≤
            version.header.xmax := by
  have hSound : ((Timeline.start frozenXid :
      Timeline ι).run operations).manager.Sound :=
    Timeline.run_sound
      (Transaction.create_sound frozenXid) operations
  generalize ((Timeline.start frozenXid :
    Timeline ι).run operations).manager = manager at *
  rw [vacuum_ok hVacuum, List.forall₂_map_right_iff,
    List.forall₂_same]
  apply forall_congr'
  intro entry
  apply imp_congr_right
  intro _
  cases hChosen : chosen casefold table entry.1 with
  | false =>
    simp only [Bool.false_eq_true, if_false, true_and,
      false_implies, iff_true]
    intro recordId version hGet hGone
    rw [hGet] at hGone
    cases hGone
  | true =>
    simp only [if_true, true_and, forall_const]
    constructor
    · intro hHarmless recordId version hGet hRunning
      by_contra hBelow
      have hBounds := Transaction.runningIds_bounds hRunning
      have hDead : isDead version.header
          manager.oldestSnapshotXmin = true := by
        simp only [isDead, deleted, Bool.and_eq_true,
          decide_eq_true_eq]
        exact ⟨Nat.pos_iff_ne_zero.mp hBounds.1, by omega⟩
      have hGone : (vacuumHeap
          manager.oldestSnapshotXmin entry.2).1.get
            recordId = none := by
        rw [get_vacuumHeap hGet, if_pos hDead]
      exact (hHarmless recordId version hGet
        hGone).settled hRunning
    · intro hAbove recordId version hGet hGone
      rw [get_vacuumHeap hGet] at hGone
      have hDead : isDead version.header
          manager.oldestSnapshotXmin = true := by
        by_contra hLive
        rw [if_neg hLive] at hGone
        cases hGone
      apply invisible_of_dead hSound hDead
      intro hRunning
      have hLe := hAbove recordId version hGet hRunning
      simp only [isDead, Bool.and_eq_true,
        decide_eq_true_eq] at hDead
      omega

/- One row of one table, inserted by transaction 1. -/
def deletedRow (deleter : Nat) :
    HeapFile (Version Library.Struct.Bytes) where
  pages :=
    [(1,
      { (Page.blank .heap 4096 :
          Page (Version Library.Struct.Bytes)) with
        slots := [some ⟨⟨1, deleter⟩, [7]⟩] })]
  nonempty := by simp
  distinct := by simp

/- Two transactions that are over, and one that reads. -/
def readerOpen : Timeline Nat :=
  (Timeline.start 1).run
    [ .begin false "a" .readCommitted, .commit "a",
      .begin false "b" .readCommitted, .commit "b",
      .begin false "r" .repeatableRead, .snapshot "r" ]

/- The row that transaction 2 deleted goes, and the snapshot
   that is held does not miss it. -/
theorem vacuum_harmless_reader :
    ∃ after : HeapFile (Version Library.Struct.Bytes),
      vacuum id readerOpen.manager [("t", deletedRow 2)] none =
        .ok ([("t", after)], 1) ∧
      after.get ⟨1, 0⟩ = none ∧
      Harmless readerOpen.manager (deletedRow 2) after := by
  have hVacuum :
      vacuum id readerOpen.manager [("t", deletedRow 2)] none =
        .ok ([("t", (vacuumHeap
          readerOpen.manager.oldestSnapshotXmin
          (deletedRow 2)).1)], 1) := rfl
  refine ⟨_, hVacuum, rfl, ?_⟩
  have hAll := (vacuum_harmless_iff id 1 _ hVacuum).mpr ?_
  · cases hAll with
    | cons hFirst _ => exact hFirst.2
  · intro entry hEntry _ recordId version hGet hRunning
    rw [List.mem_singleton.mp hEntry] at hGet
    have hMem := HeapFile.mem_records.mpr hGet
    have hRecords : (deletedRow 2).records =
        [(⟨1, 0⟩, ⟨⟨1, 2⟩, [7]⟩)] := rfl
    rw [hRecords, List.mem_singleton] at hMem
    cases hMem
    exact absurd hRunning (by decide)

/- Transaction 2 has deleted the row and is still open, but
   holds no snapshot: vacuum removes the row under it. -/
theorem vacuum_removes_running_delete :
    ¬ Harmless
      ((Timeline.start 1 : Timeline Nat).run
        [ .begin false "a" .readCommitted, .commit "a",
          .begin false "b" .readCommitted ]).manager
      (deletedRow 2)
      (vacuumHeap ((Timeline.start 1 : Timeline Nat).run
        [ .begin false "a" .readCommitted, .commit "a",
          .begin false "b" .readCommitted
          ]).manager.oldestSnapshotXmin (deletedRow 2)).1 := by
  intro hHarmless
  have hInvisible := hHarmless ⟨1, 0⟩ ⟨⟨1, 2⟩, [7]⟩
    (by decide) (by decide)
  exact hInvisible.settled (by decide)

end Mvcc

end ChenDB
