import ChenDB.Mvcc.Runs

/-
  Repeatable read: what a transaction reads through one
  snapshot moves only by its own changes, whatever the other
  sessions and vacuum do in between.
-/

--
-- Views
--

namespace ChenDB

namespace Mvcc

open Storage (HeapFile Payload RecordId)
open Transaction (IsolationLevel OpenTransaction Snapshot
  TransactionManager visible)
open Wal (noTransaction)

variable {ι ρ τ : Type}

/- The rows a snapshot shows, by their addresses. -/
def viewOf
    (snapshot : Snapshot)
    (rows : RecordId → Option (Version ρ))
    (recordId : RecordId) : Option ρ :=
  (rows recordId).bind fun version =>
    if visible version.header snapshot then some version.row
    else none

/- A list of located rows is just what a view shows. -/
structure Lists
    (found : List (RecordId × ρ))
    (view : RecordId → Option ρ) : Prop where
  distinct : (found.map Prod.fst).Nodup
  shows : ∀ recordId row,
    (recordId, row) ∈ found ↔ view recordId = some row

/- Rows found before, adjusted by changes made since. -/
def adjust
    (found : List (RecordId × ρ)) :
    List (Effect ρ) → List (RecordId × ρ)
  | [] => found
  | .added recordId row :: rest =>
    adjust ((recordId, row) :: found) rest
  | .removed recordId :: rest =>
    adjust (found.filter fun entry => entry.1 ≠ recordId)
      rest

/- The changes one transaction made to one table. -/
def ownEffects
    (xid : Nat)
    (table : String)
    (traces : List (Trace ρ)) : List (Effect ρ) :=
  (traces.filter fun trace =>
    trace.xid = xid ∧ trace.table = table).map Trace.effect

theorem adjust_append
    (found : List (RecordId × ρ))
    (earlier later : List (Effect ρ)) :
    adjust found (earlier ++ later) =
      adjust (adjust found earlier) later := by
  induction earlier generalizing found with
  | nil => rfl
  | cons effect rest ih =>
    cases effect with
    | added recordId row => exact ih _
    | removed recordId => exact ih _

theorem ownEffects_append
    (xid : Nat)
    (table : String)
    (earlier later : List (Trace ρ)) :
    ownEffects xid table (earlier ++ later) =
      ownEffects xid table earlier ++
        ownEffects xid table later := by
  simp [ownEffects]

/- The traces of one statement's step. -/
theorem ownEffects_step
    (owner xid : Nat)
    (table : String)
    (effects : List (Effect ρ)) :
    ownEffects owner table
        (effects.map fun effect => ⟨table, xid, effect⟩) =
      if xid = owner then effects else [] := by
  unfold ownEffects
  rw [List.filter_map, List.map_map]
  split
  · rename_i hOwn
    simp [hOwn, Function.comp_def]
  · rename_i hOther
    simp [hOther, Function.comp_def]

variable {view : RecordId → Option ρ}
variable {found : List (RecordId × ρ)}

theorem Lists.perm
    {first second : List (RecordId × ρ)}
    (hFirst : Lists first view)
    (hSecond : Lists second view) :
    first.Perm second := by
  have hNodup : ∀ {found : List (RecordId × ρ)},
      (found.map Prod.fst).Nodup → found.Nodup :=
    fun hDistinct => hDistinct.of_map _
  rw [List.perm_ext_iff_of_nodup (hNodup hFirst.distinct)
    (hNodup hSecond.distinct)]
  intro entry
  exact (hFirst.shows entry.1 entry.2).trans
    (hSecond.shows entry.1 entry.2).symm

variable {snapshot : Snapshot} {session : String}

theorem Lists.add
    (hLists : Lists found view)
    {recordId : RecordId}
    (hNone : view recordId = none)
    (row : ρ) :
    Lists ((recordId, row) :: found)
      (Function.update view recordId (some row)) where
  distinct := by
    rw [List.map_cons, List.nodup_cons]
    refine ⟨fun hMem => ?_, hLists.distinct⟩
    rcases List.mem_map.mp hMem with ⟨entry, hEntry, hSame⟩
    have hShown := (hLists.shows entry.1 entry.2).mp hEntry
    rw [hSame, hNone] at hShown
    cases hShown
  shows := by
    intro other held
    rw [Function.update_apply, List.mem_cons,
      Prod.mk.injEq, hLists.shows]
    by_cases hSame : other = recordId
    · simp [hSame, hNone, eq_comm]
    · simp [hSame]

theorem Lists.remove
    (hLists : Lists found view)
    (recordId : RecordId) :
    Lists (found.filter fun entry => entry.1 ≠ recordId)
      (Function.update view recordId none) where
  distinct :=
    hLists.distinct.sublist (List.filter_sublist.map _)
  shows := by
    intro other held
    rw [Function.update_apply, List.mem_filter, hLists.shows]
    by_cases hSame : other = recordId
    · simp [hSame]
    · simp [hSame]

theorem viewOf_update
    (snapshot : Snapshot)
    (rows : RecordId → Option (Version ρ))
    (recordId : RecordId)
    (version : Version ρ) :
    viewOf snapshot
        (Function.update rows recordId (some version)) =
      Function.update (viewOf snapshot rows) recordId
        (if visible version.header snapshot then
          some version.row else none) := by
  funext other
  unfold viewOf
  by_cases hSame : other = recordId
  · simp [hSame]
  · simp [hSame]

--
-- Own and Foreign Changes
--

section Changes

variable {xid : Nat}
variable {claimed : RecordId → Version ρ → Prop}
variable {rows rows' : RecordId → Option (Version ρ)}
variable {effects : List (Effect ρ)}

theorem sees_noTransaction (snapshot : Snapshot) :
    snapshot.sees noTransaction = false := by
  simp [Snapshot.sees]

theorem visible_new
    (hSees : snapshot.sees xid = true) :
    visible ⟨xid, noTransaction⟩ snapshot = true := by
  simp [visible, hSees, sees_noTransaction]

theorem visible_setXmax
    (version : Version ρ)
    (hSees : snapshot.sees xid = true) :
    visible (setXmax version xid).header snapshot =
      false := by
  simp [visible, setXmax, hSees]

/- A reader's own changes show, each as its effect says. -/
theorem Touches.own
    (hTouches : Touches xid claimed rows rows' effects)
    (hSees : snapshot.sees xid = true)
    {found : List (RecordId × ρ)}
    (hLists : Lists found (viewOf snapshot rows)) :
    Lists (adjust found effects) (viewOf snapshot rows') := by
  have hHidden : ∀ {rows : RecordId → Option (Version ρ)}
      {recordId : RecordId}, rows recordId = Option.none →
        viewOf snapshot rows recordId = Option.none := by
    intro rows recordId hNone
    simp [viewOf, hNone]
  cases hTouches with
  | none => exact hLists
  | added hNone =>
    rw [viewOf_update, visible_new hSees, if_pos rfl]
    exact hLists.add (hHidden hNone) _
  | removed hClaimed =>
    rw [viewOf_update, visible_setXmax _ hSees]
    exact hLists.remove _
  | replaced hClaimed hNone =>
    have hFree := hHidden hNone
    rw [viewOf_update, visible_new hSees, if_pos rfl]
    rw [viewOf_update, visible_setXmax _ hSees] at hFree ⊢
    exact (hLists.remove _).add hFree _

/- The changes of a transaction the reader cannot see do
   not show. -/
theorem Touches.foreign
    (hTouches : Touches xid claimed rows rows' effects)
    (hSees : snapshot.sees xid = false)
    (hClaims : ∀ recordId version,
      claimed recordId version →
        rows recordId = some version ∧
          version.header.xmax = noTransaction) :
    viewOf snapshot rows' = viewOf snapshot rows := by
  have hAdded : ∀ {rows : RecordId → Option (Version ρ)}
      {recordId : RecordId} (values : ρ),
      rows recordId = Option.none →
        viewOf snapshot (Function.update rows recordId
          (some ⟨⟨xid, noTransaction⟩, values⟩)) =
            viewOf snapshot rows := by
    intro rows recordId values hNone
    rw [viewOf_update]
    apply Function.update_eq_iff.mpr
    refine ⟨?_, fun _ _ => rfl⟩
    simp [visible, hSees, viewOf, hNone]
  have hStamped : ∀ {recordId : RecordId}
      {version : Version ρ}, claimed recordId version →
        viewOf snapshot (Function.update rows recordId
          (some (setXmax version xid))) =
            viewOf snapshot rows := by
    intro recordId version hClaimed
    rcases hClaims recordId version hClaimed with
      ⟨hLive, hUndeleted⟩
    rw [viewOf_update]
    apply Function.update_eq_iff.mpr
    refine ⟨?_, fun _ _ => rfl⟩
    simp [visible, setXmax, hSees, viewOf, hLive,
      hUndeleted, sees_noTransaction]
  cases hTouches with
  | none => rfl
  | added hNone => exact hAdded _ hNone
  | removed hClaimed => exact hStamped hClaimed
  | replaced hClaimed hNone =>
    rw [hAdded _ hNone, hStamped hClaimed]

end Changes

--
-- A Reader over a Run
--

/- A session is reading through one snapshot, as the owner
   of it. -/
structure Reading
    (manager : TransactionManager ι)
    (session : String)
    (snapshot : Snapshot) : Prop where
  isOpen : ∃ transaction,
    manager.activeIn session = some transaction ∧
      transaction.isolation = .repeatableRead ∧
      transaction.snapshot = some snapshot ∧
      transaction.transactionId = snapshot.owner

section Readers

variable {manager manager' : TransactionManager ι}

theorem Reading.snapshotIn
    (hReading : Reading manager session snapshot) :
    (manager.snapshotIn session).2 = snapshot := by
  rcases hReading.isOpen with
    ⟨transaction, hActive, hIsolation, hSnapshot, _⟩
  simp [TransactionManager.snapshotIn, hActive,
    TransactionManager.snapshotFor, OpenTransaction.kept,
    hIsolation, IsolationLevel.perStatement, hSnapshot]

theorem Reading.fits
    (hReading : Reading manager session snapshot)
    (hSound : manager.Sound) :
    snapshot.Fits manager ∧ 0 < snapshot.owner ∧
      manager.oldestSnapshotXmin ≤ snapshot.xmin := by
  rcases hReading.isOpen with
    ⟨transaction, hActive, _, hSnapshot, hOwner⟩
  have hMem := (Transaction.activeIn_eq_some.mp hActive).1
  rw [← hOwner]
  exact ⟨(hSound.held transaction hMem snapshot hSnapshot).1,
    (Transaction.runningIds_bounds
      (Transaction.mem_runningIds_of_activeIn hActive)).1,
    (oldestSnapshotXmin_le hSound).2 transaction hMem
      snapshot hSnapshot⟩

/- A reader goes on reading, or its transaction is over. -/
theorem Reading.step
    (hReading : Reading manager session snapshot)
    (hStep : ManagerStep manager manager') :
    Reading manager' session snapshot ∨
      (snapshot.owner ∉ manager'.runningIds ∧
        snapshot.owner < manager'.nextId) := by
  rcases hReading.isOpen with
    ⟨transaction, hActive, hIsolation, hSnapshot, hOwner⟩
  have hKept : transaction.kept.isSome := by
    simp [OpenTransaction.kept, hIsolation,
      IsolationLevel.perStatement, hSnapshot]
  rcases hStep.keeps hActive with
    ⟨after, hAfter, hId, hSame, hHeld⟩ | hOver
  · left
    exact ⟨after, hAfter, hSame.trans hIsolation,
      (hHeld hKept).trans hSnapshot, hId.trans hOwner⟩
  · right
    rw [← hOwner]
    exact hOver

/- The first scan of a transaction makes it a reader. -/
theorem reading_of_scan
    (hSound : manager.Sound)
    {transaction : OpenTransaction ι}
    (hActive :
      manager.activeIn session = some transaction)
    (hIsolation :
      transaction.isolation = .repeatableRead) :
    Reading (manager.snapshotIn session).1 session
        (manager.snapshotIn session).2 ∧
      (manager.snapshotIn session).2.owner =
        transaction.transactionId := by
  have hHere := Transaction.activeIn_eq_some.mp hActive
  unfold TransactionManager.snapshotIn
  rw [hActive]
  simp only [TransactionManager.snapshotFor,
    OpenTransaction.kept, hIsolation,
    IsolationLevel.perStatement, Bool.false_eq_true, if_false]
  cases hSnapshot : transaction.snapshot with
  | some snapshot =>
    have hOwner := (hSound.held transaction hHere.1
      snapshot hSnapshot).2.1
    exact ⟨⟨transaction, hActive, hIsolation, hSnapshot,
      hOwner.symm⟩, hOwner⟩
  | none =>
    refine ⟨⟨_, (Transaction.activeIn_hold _ _).trans
      (congrArg _ hActive), ?_⟩, rfl⟩
    beta_reduce
    rw [if_pos hHere.2.symm]
    exact ⟨hIsolation, rfl, rfl⟩

end Readers

section Steps

variable [Payload ρ] {db : Db ι ρ τ}

omit [Payload ρ] in
theorem scanRows_lists
    (db : Db ι ρ τ)
    (session name : String) :
    Lists (db.scanRows session name)
      (viewOf (db.manager.snapshotIn session).2
        (db.rows name)) := by
  unfold Db.scanRows Db.rows
  cases hTable : db.tables name with
  | none =>
    constructor
    · simp
    · simp [viewOf]
  | some table =>
    constructor
    · rw [List.map_map]
      exact table.heap.records_nodup.sublist
        (List.filter_sublist.map _)
    · intro recordId row
      unfold viewOf
      simp only [List.mem_map, List.mem_filter,
        Prod.exists, Prod.mk.injEq, Option.bind_some,
        Option.bind_eq_some_iff,
        HeapFile.mem_records]
      constructor
      · intro hMem
        rcases hMem with
          ⟨found, version, ⟨hGet, hVisible⟩, hId, hRow⟩
        subst hId hRow
        exact ⟨version, hGet, by simp [hVisible]⟩
      · intro hShown
        rcases hShown with ⟨version, hGet, hVisible⟩
        split at hVisible
        · rename_i hSeen
          cases hVisible
          exact ⟨recordId, version, ⟨hGet, hSeen⟩, rfl, rfl⟩
        · cases hVisible

/- What one event does to the rows a reader is shown. -/
theorem Reading.step_lists
    (hReading : Reading db.manager session snapshot)
    (hSound : db.Sound)
    (event : Event ρ)
    (name : String)
    (hLists : Lists found (viewOf snapshot (db.rows name))) :
    Lists
      (adjust found (ownEffects snapshot.owner name
        (db.step event).2))
      (viewOf snapshot ((db.step event).1.rows name)) := by
  rcases hReading.fits hSound.manager with
    ⟨hFits, hPositive, hHorizon⟩
  have hRows := Db.step_rows hSound event name
  generalize (db.step event).1.rows name = rows at hRows
  generalize (db.step event).2 = traces at hRows
  cases hRows with
  | same hElsewhere =>
    have hNone : ownEffects snapshot.owner name traces =
        [] := by
      unfold ownEffects
      rw [List.map_eq_nil_iff, List.filter_eq_nil_iff]
      intro trace hMem
      simp [hElsewhere trace hMem]
    rw [hNone]
    exact hLists
  | touched hPending hActive hTable hSome hTouches =>
    rename_i writer statement transaction effects
    rw [ownEffects_step]
    by_cases hOwn :
        transaction.transactionId = snapshot.owner
    · rw [if_pos hOwn]
      apply hTouches.own _ hLists
      have hXid : snapshot.owner ≠ noTransaction :=
        Nat.pos_iff_ne_zero.mp hPositive
      rw [hOwn]
      simp [Snapshot.sees, hXid]
    · rw [if_neg hOwn, hTouches.foreign]
      · exact hLists
      · exact hFits.others _
          (Transaction.mem_runningIds_of_activeIn hActive)
          hOwn
      · intro recordId version hClaimed
        rcases hSound.claims writer statement hPending
          recordId version hClaimed with
            ⟨_, table, _, hFound, hStands⟩
        refine ⟨?_, hStands.undeleted⟩
        unfold Db.rows
        rw [← hTable, hFound]
        exact hStands.live
  | vacuumed hVacuum =>
    have hSame : viewOf snapshot (fun recordId =>
          (db.rows name recordId).filter fun version =>
            ¬ isDead version.header
              db.manager.oldestSnapshotXmin) =
        viewOf snapshot (db.rows name) := by
      funext recordId
      unfold viewOf
      beta_reduce
      cases hRow : db.rows name recordId with
      | none => rfl
      | some version =>
        rw [Option.filter_some]
        cases hDead : isDead version.header
            db.manager.oldestSnapshotXmin with
        | false => simp
        | true =>
          simp only [isDead, deleted,
            Bool.and_eq_true, decide_eq_true_eq]
            at hDead
          have hSees := hFits.past version.header.xmax
            (Nat.pos_of_ne_zero hDead.1)
            (by omega)
          simp [not_visible_of_sees hSees]
    rw [hSame]
    exact hLists

theorem Reading.run_lists
    (hReading : Reading db.manager session snapshot)
    (hSound : db.Sound)
    (events : List (Event ρ))
    (hOpen : snapshot.owner ∈
      (db.run events).1.manager.runningIds)
    (name : String)
    (hLists : Lists found (viewOf snapshot (db.rows name))) :
    Reading (db.run events).1.manager session snapshot ∧
      Lists
        (adjust found (ownEffects snapshot.owner name
          (db.run events).2))
        (viewOf snapshot ((db.run events).1.rows name)) := by
  induction events generalizing db found with
  | nil => exact ⟨hReading, hLists⟩
  | cons event rest ih =>
    have hStep := hReading.step_lists hSound event name hLists
    rcases hReading.step (Db.step_manager db event) with
      hNext | ⟨hIdle, hPast⟩
    · have hRest :=
        ih hNext (Db.step_sound hSound event) hOpen hStep
      rw [← adjust_append, ← ownEffects_append] at hRest
      exact hRest
    · exact absurd hOpen (Db.run_settled hIdle hPast rest)

/-
  A transaction that reads repeatably scans a table, and
  scans it again after anything the sessions and vacuum have
  done: the rows are the ones it saw first, adjusted by its
  own changes.
-/
theorem repeatable_read
    (hStarts : db.Starts)
    (before after : List (Event ρ))
    {session : String}
    {reader later : OpenTransaction ι}
    (hReader : (db.run before).1.manager.activeIn session =
      some reader)
    (hIsolation : reader.isolation = .repeatableRead)
    (hIdle : (db.run before).1.pending session = none)
    (hLater : ((db.run before).1.run
        (.scan session :: after)).1.manager.activeIn session =
      some later)
    (hSame : later.transactionId = reader.transactionId)
    (table : String) :
    (((db.run before).1.run
        (.scan session :: after)).1.scanRows session
          table).Perm
      (adjust ((db.run before).1.scanRows session table)
        (ownEffects reader.transactionId table
          ((db.run before).1.run
            (.scan session :: after)).2)) := by
  have hSound := Db.run_sound hStarts.sound before
  generalize (db.run before).1 = first at *
  have hLists := scanRows_lists first session table
  rcases reading_of_scan hSound.manager hReader hIsolation
    with ⟨hReading, hOwner⟩
  have hScanned : first.step (.scan session) =
      ({ first with
        manager := (first.manager.snapshotIn session).1 },
        []) := by
    simp [Db.step, hIdle]
  have hSoundScan := Db.step_sound hSound (.scan session)
  simp only [Db.run, hScanned, List.nil_append] at *
  rw [← hOwner] at hSame ⊢
  have hOpen := Transaction.mem_runningIds_of_activeIn hLater
  rw [hSame] at hOpen
  rcases hReading.run_lists hSoundScan after hOpen table
    hLists with ⟨hFinal, hAdjusted⟩
  apply Lists.perm _ hAdjusted
  have hShown := scanRows_lists (Db.run { first with
    manager := (first.manager.snapshotIn session).1 }
      after).1 session table
  rw [hFinal.snapshotIn] at hShown
  exact hShown

end Steps

def readerRow
    (snapshot : Option Snapshot) : OpenTransaction Nat where
  transactionId := 2
  implicit := false
  session := "r"
  isolation := .repeatableRead
  snapshot := snapshot
  undo := .empty
  state := .active

/- The reader finds the row put in before its first scan, and
   its own, but not the one put in between. -/
theorem repeatable_read_insert :
    ((openedDb.run (insertRow "a" [7] ++
        [.begin "r" false .repeatableRead])).1.run
      (.scan "r" :: (insertRow "b" [8] ++
        insertRow "r" [9]))).1.scanRows "r" "t" =
          [(⟨1, 0⟩, [7]), (⟨1, 2⟩, [9])] ∧
    (((openedDb.run (insertRow "a" [7] ++
        [.begin "r" false .repeatableRead])).1.run
      (.scan "r" :: (insertRow "b" [8] ++
        insertRow "r" [9]))).1.scanRows "r" "t").Perm
      (adjust ((openedDb.run (insertRow "a" [7] ++
          [.begin "r" false .repeatableRead])).1.scanRows
            "r" "t")
        (ownEffects 2 "t" ((openedDb.run
          (insertRow "a" [7] ++
            [.begin "r" false .repeatableRead])).1.run
          (.scan "r" :: (insertRow "b" [8] ++
            insertRow "r" [9]))).2)) := by
  constructor
  · decide +kernel
  · have hReader : (openedDb.run (insertRow "a" [7] ++
        [.begin "r" false .repeatableRead])).1.manager.activeIn
          "r" = some (readerRow none) := by
      decide +kernel
    have hLater : ((openedDb.run (insertRow "a" [7] ++
          [.begin "r" false .repeatableRead])).1.run
        (.scan "r" :: (insertRow "b" [8] ++
          insertRow "r" [9]))).1.manager.activeIn "r" =
        some (readerRow (some ⟨2, 3, [2], 1, 2⟩)) := by
      decide +kernel
    exact repeatable_read openedDb_starts _ _ hReader rfl
      (by decide +kernel) hLater rfl "t"

end Mvcc

end ChenDB
