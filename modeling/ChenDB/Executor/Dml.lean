import ChenDB.Executor.RowChanges

/-
  UPDATE and DELETE as whole statements of a session that has
  the database to itself.
-/

--
-- Statements
--

namespace ChenDB

namespace Executor

open Indexing (KeyTexts)
open Library.StateExcept (ok_of_bind)
open Library.Traversal (forall₂_of_mapM)
open Mvcc (LockManager deleted)
open Planner (Found Raised StoredRow UserTable keptRows
  keptRows_nodup keptRows_oneEach locateRows located_iff
  matchesWhere ok_of_mapError planRowSource)
open Serialization (PythonText)
open Storage (RecordId)
open Transaction (OpenTransaction Snapshot
  TransactionManager defaultIsolation visible)
open Wal (noTransaction)

variable {schema : Serialization.Schema}

structure Assignment (schema : Serialization.Schema) where
  column : Fin schema.columns.length
  value : Expression Binary64

/- The SET of an UPDATE; the binder takes no column twice. -/
structure Assignments (schema : Serialization.Schema) where
  items : List (Assignment schema)
  apart : (items.map Assignment.column).Nodup

/- The values a SET leaves, from those there are so far; each
   right-hand side is evaluated on the row as it was. -/
def assign [FloatArithmetic]
    (row : Given schema) :
    List (Assignment schema) → Given schema →
      Except EngineError (Given schema)
  | [], values => .ok values
  | assignment :: rest, values => do
      let value ← evaluate row assignment.value
      assign row rest
        (Function.update values assignment.column value)

/- A row that is to be replaced, with its new values. -/
def newVersion [FloatArithmetic]
    (assignments : Assignments schema)
    (found : Found schema) :
    Except EngineError (RecordId × Given schema) := do
  let values ← assign found.2.values assignments.items
    found.2.values
  pure (found.1, values)

/- The one session there is, and the table it changes. -/
structure TableSession (schema : Serialization.Schema) where
  manager : TransactionManager Unit
  locks : LockManager
  table : UserTable schema

namespace TableSession

/- `Database.transaction`: in the transaction that is open, or
   in one of its own that is committed at the end. -/
def transaction {α : Type}
    (session : TableSession schema)
    (work : List Nat → Nat → Writing schema →
      Except Raised (Writing schema × α)) :
    Except Raised (TableSession schema × α) :=
  match session.manager.activeIn Indexing.defaultSession with
  | some outer => do
      let (writing, result) ← work session.manager.runningIds
        outer.transactionId ⟨session.locks, session.table⟩
      pure ({ session with
        locks := writing.locks
        table := writing.table }, result)
  | none => do
      let begun ← (session.manager.begin true Indexing.defaultSession
        defaultIsolation).mapError Raised.engine
      let own ← (begun.requireActive "COMMIT"
        Indexing.defaultSession).mapError Raised.engine
      let (writing, result) ← work begun.runningIds
        own.transactionId ⟨session.locks, session.table⟩
      let (ended, finished) ←
        (begun.commit Indexing.defaultSession).mapError Raised.engine
      pure ({
        manager := ended
        locks :=
          writing.locks.releaseAll finished.transactionId
        table := writing.table }, result)

/- The rows the session would see now. -/
def rows (session : TableSession schema) :
    List (Found schema) :=
  session.table.visibleRows
    (session.manager.snapshotIn Indexing.defaultSession).2

section Running

variable [FloatArithmetic] [KeyTexts]

/- The snapshot of the statement, and what its plan finds; a
   transaction that has failed takes no statement. -/
def locate
    (session : TableSession schema)
    (predicate : Option (Expression Binary64))
    (cheapest limit : Nat) :
    Except Raised
      (TableSession schema × List (Found schema)) := do
  let taken := session.manager.snapshotIn Indexing.defaultSession
  if session.manager.isFailedIn Indexing.defaultSession then
    throw (.binding
      ("current transaction is aborted, commands ignored " ++
        "until end of transaction block"))
  else
    let source ← (planRowSource session.table predicate
      cheapest).mapError Raised.engine
    let located ←
      locateRows session.table taken.2 source limit
    pure ({ session with manager := taken.1 }, located)

variable [PythonText]

/- The addresses of the rows, and how many of them went. -/
def executeDelete
    (session : TableSession schema)
    (predicate : Option (Expression Binary64))
    (cheapest limit : Nat) :
    Except Raised
      (TableSession schema × List RecordId × Nat) := do
  let (reading, located) ←
    session.locate predicate cheapest limit
  let recordIds := located.map Prod.fst
  let (after, count) ← reading.transaction
    fun running xid writing =>
      (writing.deleteMany running xid recordIds).mapError
        Raised.engine
  pure (after, recordIds, count)

/- Where the new versions are. -/
def executeUpdate
    (pages : FreshPages)
    (session : TableSession schema)
    (assignments : Assignments schema)
    (predicate : Option (Expression Binary64))
    (cheapest limit : Nat) :
    Except Raised (TableSession schema × List RecordId) := do
  let (reading, located) ←
    session.locate predicate cheapest limit
  let updates ← (located.mapM
    (newVersion assignments)).mapError Raised.engine
  reading.transaction fun running xid writing =>
    writing.updateMany pages running xid updates

end Running

end TableSession

--
-- A Session Alone
--

/- The snapshot sees whatever was done under an id that was
   given out. -/
def SeesAll (bound : Nat) (snapshot : Snapshot) : Prop :=
  ∀ xid, xid ≠ noTransaction → xid < bound →
    snapshot.sees xid = true

/- No transaction is open but this session's, which is the
   last that was begun. -/
def Sole (manager : TransactionManager Unit) : Prop :=
  ∀ transaction ∈ manager.running,
    transaction.session = Indexing.defaultSession ∧
      manager.nextId = transaction.transactionId + 1 ∧
      ∀ snapshot, transaction.snapshot = some snapshot →
        SeesAll manager.nextId snapshot

structure Alone (session : TableSession schema) : Prop where
  sole : Sole session.manager
  stamped : Stamped session.manager.nextId session.table.heap

section Managers

variable {manager manager' : TransactionManager Unit}

theorem takeSnapshot_seesAll
    {owner : Nat}
    (hRunning : ∀ xid ∈ manager.runningIds, xid = owner) :
    SeesAll manager.nextId (manager.takeSnapshot owner) := by
  intro xid hXid hBelow
  unfold Snapshot.sees
  rw [if_neg hXid]
  split
  · rfl
  · rename_i hOther
    split
    · rfl
    · split
      · rename_i hLate
        exact absurd hLate (not_le.mpr hBelow)
      · exact decide_eq_true fun hActive =>
          hOther (hRunning xid hActive)

theorem Sole.running_nil
    (hSole : Sole manager)
    (hNone : manager.activeIn Indexing.defaultSession = none) :
    manager.running = [] := by
  rw [List.eq_nil_iff_forall_not_mem]
  intro transaction hMem
  have hOther := List.find?_eq_none.mp hNone transaction hMem
  rw [(hSole transaction hMem).1] at hOther
  simp at hOther

theorem Sole.seesAll
    (hSole : Sole manager) :
    SeesAll manager.nextId
      (manager.snapshotIn Indexing.defaultSession).2 := by
  unfold TransactionManager.snapshotIn
  cases hActive : manager.activeIn Indexing.defaultSession with
  | none =>
    refine takeSnapshot_seesAll fun xid hXid => ?_
    unfold TransactionManager.runningIds at hXid
    rw [hSole.running_nil hActive] at hXid
    cases hXid
  | some transaction =>
    have hMem := List.mem_of_find?_eq_some hActive
    have hOwn := hSole transaction hMem
    simp only
    unfold TransactionManager.snapshotFor
    cases hKept : transaction.kept with
    | some snapshot =>
      unfold OpenTransaction.kept at hKept
      split at hKept
      · cases hKept
      · exact hOwn.2.2 snapshot hKept
    | none =>
      refine takeSnapshot_seesAll fun xid hXid => ?_
      rcases List.mem_map.mp hXid with ⟨other, hOther, rfl⟩
      have hSame := (hSole other hOther).2.1
      have hNext := hOwn.2.1
      omega

theorem Sole.snapshotIn
    (hSole : Sole manager) :
    Sole (manager.snapshotIn Indexing.defaultSession).1 := by
  have hSees := hSole.seesAll
  unfold TransactionManager.snapshotIn at hSees ⊢
  cases hActive : manager.activeIn Indexing.defaultSession with
  | none => exact hSole
  | some transaction =>
    simp only [hActive] at hSees ⊢
    unfold TransactionManager.snapshotFor at hSees ⊢
    cases hKept : transaction.kept with
    | some snapshot => exact hSole
    | none =>
      simp only [hKept] at hSees ⊢
      intro held hHeld
      rcases List.mem_map.mp hHeld with ⟨before, hBefore, rfl⟩
      rcases hSole before hBefore with
        ⟨hSession, hNext, hSnapshot⟩
      split
      · refine ⟨hSession, hNext, ?_⟩
        rintro _ ⟨⟩
        exact hSees
      · exact ⟨hSession, hNext, hSnapshot⟩

/- What an implicit transaction of its own leaves. -/
theorem Sole.begin
    (hSole : Sole manager)
    (hNone : manager.activeIn Indexing.defaultSession = none)
    (hBegin : manager.begin true Indexing.defaultSession
      defaultIsolation = .ok manager') :
    Sole manager' ∧ manager.nextId ≤ manager'.nextId := by
  unfold TransactionManager.begin at hBegin
  split at hBegin
  · rename_i hActive
    cases hNone.symm.trans hActive
  · cases hBegin
    refine ⟨fun transaction hMem => ?_, Nat.le_succ _⟩
    rcases List.mem_append.mp hMem with hOld | hNew
    · rw [hSole.running_nil hNone] at hOld
      cases hOld
    · rw [List.mem_singleton.mp hNew]
      exact ⟨rfl, rfl, nofun⟩

theorem Sole.commit
    {finished : OpenTransaction Unit}
    (hSole : Sole manager)
    (hCommit : manager.commit Indexing.defaultSession =
      .ok (manager', finished)) :
    Sole manager' ∧ manager'.nextId = manager.nextId := by
  rcases ok_of_bind hCommit with ⟨transaction, _, hRest⟩
  split at hRest
  · cases hRest
  · cases hRest
    exact ⟨fun transaction hMem =>
      hSole transaction (List.mem_filter.mp hMem).1, rfl⟩

variable {transaction : OpenTransaction Unit}

theorem xid_of_active
    (hActive : manager.activeIn Indexing.defaultSession =
      some transaction) :
    transaction.transactionId ≠ noTransaction ∧
      transaction.transactionId < manager.nextId := by
  have hBounds := manager.assigned transaction
    (List.mem_of_find?_eq_some hActive)
  exact ⟨Nat.pos_iff_ne_zero.mp hBounds.1, hBounds.2⟩

theorem active_of_required
    {what : String}
    (hOk : manager.requireActive what Indexing.defaultSession =
      .ok transaction) :
    manager.activeIn Indexing.defaultSession = some transaction := by
  unfold TransactionManager.requireActive at hOk
  cases hActive : manager.activeIn Indexing.defaultSession with
  | none =>
    rw [hActive] at hOk
    cases hOk
  | some found =>
    rw [hActive] at hOk
    cases hOk
    rfl

end Managers

variable {session after : TableSession schema}

theorem Stamped.mono
    {bound bound' : Nat}
    {heap : Storage.HeapFile
      (Mvcc.Version (StoredRow schema))}
    (hStamped : Stamped bound heap)
    (hLe : bound ≤ bound') : Stamped bound' heap :=
  fun recordId version hGet =>
    let hStamps := hStamped recordId version hGet
    ⟨hStamps.1, hStamps.2.1.trans_le hLe,
      hStamps.2.2.trans_le hLe⟩

/- To a session that is alone, the rows nobody has deleted are
   those it sees. -/
theorem rows_live (hAlone : Alone session) :
    session.rows = liveRows session.table.heap := by
  unfold TableSession.rows UserTable.visibleRows liveRows
    keptRows
  refine List.filterMap_congr ?_
  rintro ⟨recordId, version⟩ hMem
  have hStamps := hAlone.stamped recordId version
    (Storage.HeapFile.mem_records.mp hMem)
  have hSees := hAlone.sole.seesAll
  generalize (session.manager.snapshotIn
    Indexing.defaultSession).2 = snapshot at hSees
  have hSame : visible version.header snapshot =
      !deleted version.header := by
    unfold visible deleted
    rw [hSees _ hStamps.1 hStamps.2.1, Bool.true_and]
    by_cases hXmax : version.header.xmax = noTransaction
    · rw [hXmax]
      rfl
    · rw [hSees _ hXmax hStamps.2.2, decide_eq_true hXmax]
  unfold Planner.keptRow
  simp only [hSame]

theorem transaction_ok {α : Type}
    {work : List Nat → Nat → Writing schema →
      Except Raised (Writing schema × α)}
    {result : α}
    (hSole : Sole session.manager)
    (hOk : session.transaction work = .ok (after, result)) :
    ∃ running xid writing,
      work running xid ⟨session.locks, session.table⟩ =
        .ok (writing, result) ∧
      after.table = writing.table ∧
      xid ≠ noTransaction ∧ xid < after.manager.nextId ∧
      session.manager.nextId ≤ after.manager.nextId ∧
      Sole after.manager := by
  unfold TableSession.transaction at hOk
  cases hActive :
      session.manager.activeIn Indexing.defaultSession with
  | some outer =>
    rw [hActive] at hOk
    rcases ok_of_bind hOk with
      ⟨⟨writing, found⟩, hWork, hDone⟩
    cases hDone
    rcases xid_of_active hActive with ⟨hXid, hBound⟩
    exact ⟨_, _, writing, hWork, rfl, hXid, hBound,
      le_refl _, hSole⟩
  | none =>
    rw [hActive] at hOk
    rcases ok_of_bind hOk with ⟨begun, hBegin, hRest⟩
    rcases ok_of_bind hRest with ⟨own, hOwn, hRest⟩
    rcases ok_of_bind hRest with
      ⟨⟨writing, found⟩, hWork, hRest⟩
    rcases ok_of_bind hRest with
      ⟨⟨ended, finished⟩, hCommit, hDone⟩
    cases hDone
    rcases hSole.begin hActive (ok_of_mapError hBegin) with
      ⟨hBegun, hLater⟩
    rcases hBegun.commit (ok_of_mapError hCommit) with
      ⟨hEnded, hNext⟩
    rcases xid_of_active
      (active_of_required (ok_of_mapError hOwn)) with
      ⟨hXid, hBound⟩
    exact ⟨_, _, writing, hWork, rfl, hXid,
      hBound.trans_eq hNext.symm, hLater.trans_eq hNext.symm,
      hEnded⟩

--
-- Each Row Once
--

section Once

variable [KeyTexts]

/- Every index leads to the rows the session sees, and to each
   of them once. -/
def TableSession.Agrees (session : TableSession schema) :
    Prop :=
  ∀ index ∈ session.table.indexes, index.Agrees session.rows

variable [FloatArithmetic]

/- The rows the WHERE is TRUE of. -/
def TableSession.matching
    (session : TableSession schema)
    (predicate : Option (Expression Binary64)) :
    List (Found schema) :=
  session.rows.filter fun found =>
    matchesWhere predicate found.2.values

def TableSession.others
    (session : TableSession schema)
    (predicate : Option (Expression Binary64)) :
    List (Found schema) :=
  session.rows.filter fun found =>
    !matchesWhere predicate found.2.values

structure DeletesOnce
    (before after : TableSession schema)
    (predicate : Option (Expression Binary64))
    (recordIds : List RecordId)
    (count : Nat) : Prop where
  affected : recordIds.Perm
    ((before.matching predicate).map Prod.fst)
  counted : count = recordIds.length
  left : after.rows.Perm (before.others predicate)
  agree : after.Agrees

/- Every assigned column has what its right-hand side is on
   the old row, and every other what it had. -/
def Assigned
    (assignments : Assignments schema)
    (old new : Given schema) : Prop :=
  (∀ assignment ∈ assignments.items,
    evaluate old assignment.value =
      .ok (new assignment.column)) ∧
  ∀ column,
    (∀ assignment ∈ assignments.items,
      assignment.column ≠ column) →
    new column = old column

variable [PythonText]

/- The new row is what the assigned values are stored as. -/
def Replaces
    (assignments : Assignments schema)
    (old new : StoredRow schema) : Prop :=
  ∃ values, Assigned assignments old.values values ∧
    storeRow values = .ok new

structure UpdatesOnce
    (before after : TableSession schema)
    (assignments : Assignments schema)
    (predicate : Option (Expression Binary64))
    (replaced : List RecordId) : Prop where
  affected : ∃ located added : List (Found schema),
    located.Perm (before.matching predicate) ∧
    added.map Prod.fst = replaced ∧
    List.Forall₂ (fun old new =>
      Replaces assignments old.2 new.2) located added ∧
    after.rows.Perm (before.others predicate ++ added)
  agree : after.Agrees

/- Whatever the statement and however it is planned. -/
def TableSession.ChangesOnce
    (session : TableSession schema) : Prop :=
  (∀ predicate cheapest limit after recordIds count,
    session.executeDelete predicate cheapest limit =
        .ok (after, recordIds, count) →
      DeletesOnce session after predicate recordIds count) ∧
  ∀ pages assignments predicate cheapest limit after replaced,
    session.executeUpdate pages assignments predicate cheapest
        limit = .ok (after, replaced) →
      UpdatesOnce session after assignments predicate replaced

end Once

--
-- What a Statement Does
--

section Statements

variable [FloatArithmetic] [KeyTexts]
variable {before : TableSession schema}
variable {predicate : Option (Expression Binary64)}
variable {cheapest limit : Nat} {located : List (Found schema)}

omit [FloatArithmetic] in
theorem agrees_iff (hAlone : Alone session) :
    session.Agrees ↔ AllAgree session.table := by
  unfold TableSession.Agrees AllAgree
  rw [rows_live hAlone]

/- Whatever is planned, the rows located are those the WHERE is
   TRUE of. -/
theorem locate_ok
    (hAlone : Alone before)
    (hAgree : before.Agrees)
    (hOk : before.locate predicate cheapest limit =
      .ok (session, located)) :
    Alone session ∧ session.table = before.table ∧
      (located.map Prod.fst).Nodup ∧
      ∀ found, found ∈ located ↔
        found ∈ before.rows ∧
          matchesWhere predicate found.2.values = true := by
  unfold TableSession.locate at hOk
  simp only at hOk
  split at hOk
  · cases hOk
  rcases ok_of_bind hOk with ⟨source, hPlan, hRest⟩
  rcases ok_of_bind hRest with ⟨rows, hLocate, hDone⟩
  cases hDone
  have hNext := (Transaction.snapshotIn_same before.manager
    Indexing.defaultSession).1
  exact ⟨⟨hAlone.sole.snapshotIn,
      hAlone.stamped.mono hNext.ge⟩, rfl,
    located_iff hAgree (ok_of_mapError hPlan) hLocate⟩

variable {found : Found schema}

omit [KeyTexts] in
/- Of the rows there are, those whose address was located are
   those the WHERE is TRUE of. -/
theorem mem_located
    (hLocated : ∀ found, found ∈ located ↔
      found ∈ before.rows ∧
        matchesWhere predicate found.2.values = true)
    (hMem : found ∈ before.rows) :
    found.1 ∈ located.map Prod.fst ↔
      matchesWhere predicate found.2.values = true := by
  constructor
  · intro hPlace
    rcases List.mem_map.mp hPlace with
      ⟨⟨place, row⟩, hOther, rfl⟩
    rcases (hLocated _).mp hOther with ⟨hRow, hMatch⟩
    rcases found with ⟨_, row'⟩
    have hSame : row = row' := keptRows_oneEach _ _ _ hRow hMem
    exact hSame ▸ hMatch
  · exact fun hMatch => List.mem_map.mpr
      ⟨found, (hLocated found).mpr ⟨hMem, hMatch⟩, rfl⟩

omit [KeyTexts] in
theorem located_perm
    (hApart : (located.map Prod.fst).Nodup)
    (hLocated : ∀ found, found ∈ located ↔
      found ∈ before.rows ∧
        matchesWhere predicate found.2.values = true) :
    located.Perm (before.matching predicate) := by
  have hRows : before.rows.Nodup :=
    .of_map Prod.fst keptRows_nodup
  unfold TableSession.matching
  refine (List.perm_ext_iff_of_nodup (.of_map _ hApart)
    (hRows.filter _)).mpr fun found => ?_
  rw [hLocated, List.mem_filter]

/- The rows after the changes, beside those before. -/
theorem rows_changed
    {bound : Nat}
    {added : List (Found schema)}
    (hBefore : Alone before)
    (hAfter : Alone after)
    (hLocated : ∀ found, found ∈ located ↔
      found ∈ before.rows ∧
        matchesWhere predicate found.2.values = true)
    (hChanges : Changes bound before.table after.table
      (located.map Prod.fst) added) :
    after.rows.Perm (before.others predicate ++ added) := by
  have hRows : ∀ session : TableSession schema,
      session.rows.Nodup :=
    fun session => .of_map Prod.fst keptRows_nodup
  have hApart : (before.others predicate ++ added).Nodup := by
    refine ((hRows before).filter _).append
      (.of_map Prod.fst hChanges.apart) ?_
    rintro ⟨place, row⟩ hOld hNew
    have hLive := (List.mem_filter.mp hOld).1
    rw [rows_live hBefore] at hLive
    exact held_of_live hLive (hChanges.fresh _ hNew)
  rw [List.perm_ext_iff_of_nodup (hRows after) hApart]
  rintro ⟨place, row⟩
  rw [rows_live hAfter, hChanges.rows, List.mem_append,
    ← rows_live hBefore]
  refine or_congr_left ?_
  unfold TableSession.others
  rw [List.mem_filter]
  refine and_congr_right fun hMem => ?_
  rw [not_congr (mem_located hLocated hMem)]
  simp

variable [PythonText]

theorem executeDelete_once
    {recordIds : List RecordId}
    {count : Nat}
    (hAlone : Alone before)
    (hAgree : before.Agrees)
    (hOk : before.executeDelete predicate cheapest limit =
      .ok (after, recordIds, count)) :
    DeletesOnce before after predicate recordIds count := by
  rcases ok_of_bind hOk with
    ⟨⟨reading, located⟩, hLocate, hRest⟩
  rcases locate_ok hAlone hAgree hLocate with
    ⟨hReading, hTable, hApart, hLocated⟩
  rcases ok_of_bind hRest with ⟨⟨final, went⟩, hWork, hDone⟩
  cases hDone
  rcases transaction_ok hReading.sole hWork with
    ⟨running, xid, writing, hMany, hAfter, hXid, hBound,
      hLater, hSole⟩
  rcases deleteMany_ok hXid hBound hApart
    (fun place hPlace => by
      rcases List.mem_map.mp hPlace with
        ⟨⟨_, row⟩, hFound, rfl⟩
      refine ⟨row, ?_⟩
      have hRow := ((hLocated _).mp hFound).1
      rw [rows_live hAlone] at hRow
      rw [hTable]
      exact hRow) (ok_of_mapError hMany) with
    ⟨rfl, hChanges⟩
  rw [← hAfter, hTable] at hChanges
  have hAloneAfter : Alone after :=
    ⟨hSole, hChanges.stamped (hTable ▸
      hReading.stamped.mono hLater)⟩
  refine ⟨(located_perm hApart hLocated).map Prod.fst, rfl,
    ?_, ?_⟩
  · have hRows := rows_changed hAlone hAloneAfter hLocated
      hChanges
    rwa [List.append_nil] at hRows
  · rw [agrees_iff hAloneAfter]
    exact hChanges.agree ((agrees_iff hAlone).mp hAgree)

omit [KeyTexts] [PythonText] in
/- A SET leaves every right-hand side's value on the old
   row. -/
theorem assign_ok
    {row start values : Given schema}
    {items : List (Assignment schema)}
    (hApart : (items.map Assignment.column).Nodup)
    (hOk : assign row items start = .ok values) :
    (∀ assignment ∈ items,
      evaluate row assignment.value =
        .ok (values assignment.column)) ∧
    ∀ column,
      (∀ assignment ∈ items, assignment.column ≠ column) →
        values column = start column := by
  induction items generalizing start with
  | nil =>
    cases hOk
    exact ⟨nofun, fun _ _ => rfl⟩
  | cons assignment rest ih =>
    rw [List.map_cons, List.nodup_cons] at hApart
    rcases ok_of_bind hOk with ⟨value, hValue, hRest⟩
    rcases ih hApart.2 hRest with ⟨hEach, hOthers⟩
    constructor
    · rw [List.forall_mem_cons]
      refine ⟨?_, hEach⟩
      rw [hOthers assignment.column fun other hOther hSame =>
          hApart.1 (List.mem_map.mpr ⟨other, hOther, hSame⟩),
        Function.update_self]
      exact hValue
    · intro column hNone
      rw [List.forall_mem_cons] at hNone
      rw [hOthers column hNone.2,
        Function.update_of_ne hNone.1.symm]

variable {assignments : Assignments schema}

omit [KeyTexts] [PythonText] in
theorem newVersion_ok
    {update : RecordId × Given schema}
    (hOk : newVersion assignments found = .ok update) :
    update.1 = found.1 ∧
      Assigned assignments found.2.values update.2 := by
  rcases ok_of_bind hOk with ⟨values, hValues, hDone⟩
  cases hDone
  exact ⟨rfl, assign_ok assignments.apart hValues⟩

omit [KeyTexts] [PythonText] in
theorem places_eq
    {updates : List (RecordId × Given schema)}
    (hEach : List.Forall₂ (fun found update =>
      update.1 = found.1 ∧
        Assigned assignments found.2.values update.2)
      located updates) :
    updates.map Prod.fst = located.map Prod.fst := by
  induction hEach with
  | nil => rfl
  | cons hHead _ ih =>
    rw [List.map_cons, List.map_cons, hHead.1, ih]

theorem executeUpdate_once
    {pages : FreshPages}
    {replaced : List RecordId}
    (hAlone : Alone before)
    (hAgree : before.Agrees)
    (hOk : before.executeUpdate pages assignments predicate
      cheapest limit = .ok (after, replaced)) :
    UpdatesOnce before after assignments predicate
      replaced := by
  rcases ok_of_bind hOk with
    ⟨⟨reading, located⟩, hLocate, hRest⟩
  rcases locate_ok hAlone hAgree hLocate with
    ⟨hReading, hTable, hApart, hLocated⟩
  rcases ok_of_bind hRest with ⟨updates, hUpdates, hWork⟩
  have hEach := (forall₂_of_mapM (ok_of_mapError
    hUpdates)).imp fun _ _ hNew => newVersion_ok hNew
  have hPlaces := places_eq hEach
  rcases transaction_ok hReading.sole hWork with
    ⟨running, xid, writing, hMany, hAfter, hXid, hBound,
      hLater, hSole⟩
  rcases updateMany_ok hXid hBound (hPlaces ▸ hApart)
    (fun update hUpdate => by
      have hPlace := List.mem_map_of_mem (f := Prod.fst) hUpdate
      rw [hPlaces] at hPlace
      rcases List.mem_map.mp hPlace with
        ⟨⟨place, row⟩, hFound, hSame⟩
      refine ⟨row, ?_⟩
      have hRow := ((hLocated _).mp hFound).1
      rw [rows_live hAlone] at hRow
      rw [hTable, ← hSame]
      exact hRow) hMany with
    ⟨added, rfl, hStored, hChanges⟩
  rw [← hAfter, hTable, hPlaces] at hChanges
  have hAloneAfter : Alone after :=
    ⟨hSole, hChanges.stamped (hTable ▸
      hReading.stamped.mono hLater)⟩
  refine ⟨⟨located, added, located_perm hApart hLocated, rfl,
    ?_, rows_changed hAlone hAloneAfter hLocated hChanges⟩, ?_⟩
  · exact Library.Traversal.forall₂_comp hEach hStored
      fun old update new hNew hStore =>
        ⟨update.2, hNew.2, hStore⟩
  · rw [agrees_iff hAloneAfter]
    exact hChanges.agree ((agrees_iff hAlone).mp hAgree)

--
-- Exactly When
--

omit [FloatArithmetic] [KeyTexts] [PythonText] in
/- Work that does nothing goes through. -/
theorem transaction_idle {α : Type}
    (session : TableSession schema)
    {work : List Nat → Nat → Writing schema →
      Except Raised (Writing schema × α)}
    {result : α}
    (hWork : ∀ running xid writing,
      work running xid writing = .ok (writing, result)) :
    ∃ after, session.transaction work = .ok (after, result) ∧
      after.table = session.table := by
  unfold TableSession.transaction
  cases hActive :
      session.manager.activeIn Indexing.defaultSession with
  | some outer =>
    simp only [hWork]
    exact ⟨_, rfl, rfl⟩
  | none =>
    have hBegin : session.manager.begin true Indexing.defaultSession
        defaultIsolation = .ok (session.manager.add true
          Indexing.defaultSession defaultIsolation hActive) := by
      unfold TransactionManager.begin
      split
      · rename_i hSome
        cases hActive.symm.trans hSome
      · rfl
    generalize hBegun : session.manager.add true
      Indexing.defaultSession defaultIsolation hActive = begun
      at hBegin
    have hOwn : begun.activeIn Indexing.defaultSession =
        some (session.manager.start true Indexing.defaultSession
          defaultIsolation) := by
      rw [← hBegun]
      unfold TransactionManager.activeIn at hActive ⊢
      exact (List.find?_append ..).trans (by
        rw [hActive]
        rfl)
    have hRequire : begun.requireActive "COMMIT"
        Indexing.defaultSession = .ok (session.manager.start true
          Indexing.defaultSession defaultIsolation) := by
      unfold TransactionManager.requireActive
      rw [hOwn]
    have hCommit : begun.commit Indexing.defaultSession =
        .ok (begun.retire Indexing.defaultSession,
          session.manager.start true Indexing.defaultSession
            defaultIsolation) := by
      unfold TransactionManager.commit
      rw [hRequire]
      rfl
    simp only [hBegin, Except.mapError, hRequire, hWork,
      hCommit, bind, Except.bind]
    exact ⟨_, rfl, rfl⟩

/- `WHERE FALSE`. -/
def nothing : Option (Expression Binary64) :=
  some (.literal (.bool false))

omit [KeyTexts] [PythonText] in
theorem drain_nothing
    (limit count : Nat)
    (rows : List (Found schema)) :
    Planner.drain [.literal (.bool false)] limit count rows =
      .ok [] := by
  induction rows with
  | nil => rfl
  | cons record rest ih => exact ih

/- A statement that finds nothing leaves everything as it
   was. -/
theorem delete_nothing
    (hAlone : Alone before)
    (hUsable :
      before.manager.isFailedIn Indexing.defaultSession = false) :
    ∃ after, before.executeDelete nothing 0 0 =
        .ok (after, [], 0) ∧
      after.rows = before.rows ∧
      after.table = before.table := by
  have hLocate : before.locate nothing 0 0 =
      .ok ({ before with
        manager := (before.manager.snapshotIn
          Indexing.defaultSession).1 }, []) := by
    unfold TableSession.locate
    simp only [hUsable, Bool.false_eq_true, if_false]
    have hPlan : planRowSource before.table nothing 0 =
        .ok { path := .seqScan
              filters := [.literal (.bool false)] } := rfl
    rw [hPlan]
    have hDrain := drain_nothing 0 0
      (Planner.scanRows before.table (before.manager.snapshotIn
        Indexing.defaultSession).2 .seqScan)
    unfold locateRows
    simp only [Except.mapError, bind, Except.bind, hDrain]
    rfl
  have hIdle : ∀ running xid (writing : Writing schema),
      (writing.deleteMany running xid []).mapError
        Raised.engine = .ok (writing, 0) := fun _ _ _ => rfl
  rcases transaction_idle
    { before with manager := (before.manager.snapshotIn
        Indexing.defaultSession).1 } hIdle with ⟨after, hWork, hTable⟩
  refine ⟨after, ?_, ?_, hTable⟩
  · unfold TableSession.executeDelete
    rw [hLocate]
    simp only [bind, Except.bind, List.map_nil]
    rw [hWork]
    rfl
  · rcases transaction_ok hAlone.sole.snapshotIn hWork with
      ⟨_, _, writing, _, _, _, _, hLater, hSole⟩
    have hNext := (Transaction.snapshotIn_same before.manager
      Indexing.defaultSession).1
    have hAfter : Alone after := ⟨hSole, hTable ▸
      hAlone.stamped.mono (hNext.ge.trans hLater)⟩
    rw [rows_live hAfter, rows_live hAlone, hTable]

/-
  UPDATE and DELETE change each matching row once, whatever the
  WHERE, the SET and the access path, exactly when the indexes
  agree with the rows to begin with, or no statement can run at
  all.
-/
theorem changes_once_iff (hAlone : Alone session) :
    session.ChangesOnce ↔
      session.manager.isFailedIn Indexing.defaultSession = true ∨
        session.Agrees := by
  constructor
  · intro hOnce
    cases hUsable :
        session.manager.isFailedIn Indexing.defaultSession with
    | true => exact .inl rfl
    | false =>
      rcases delete_nothing hAlone hUsable with
        ⟨after, hDelete, hRows, hTable⟩
      have hAgree := (hOnce.1 _ _ _ _ _ _ hDelete).agree
      unfold TableSession.Agrees at hAgree ⊢
      rw [hRows, hTable] at hAgree
      exact .inr hAgree
  · rintro (hFailed | hAgree)
    · have hRefused : ∀ predicate cheapest limit located,
          session.locate predicate cheapest limit ≠
            .ok located := by
        intro predicate cheapest limit located hOk
        unfold TableSession.locate at hOk
        simp only [hFailed, if_true] at hOk
        cases hOk
      constructor
      · intro predicate cheapest limit after recordIds count
          hOk
        rcases ok_of_bind hOk with ⟨located, hLocate, _⟩
        exact absurd hLocate (hRefused _ _ _ _)
      · intro pages assignments predicate cheapest limit after
          replaced hOk
        rcases ok_of_bind hOk with ⟨located, hLocate, _⟩
        exact absurd hLocate (hRefused _ _ _ _)
    · exact ⟨fun _ _ _ _ _ _ hOk =>
          executeDelete_once hAlone hAgree hOk,
        fun _ _ _ _ _ _ _ hOk =>
          executeUpdate_once hAlone hAgree hOk⟩

end Statements

--
-- An Entry Left Behind
--

section Stale

/- Integers alone are compared here. -/
abbrev integersOnly : FloatArithmetic :=
  ⟨fun left _ => left, fun left _ => left,
    fun left _ => left, fun left _ => left,
    fun left _ => left, fun _ _ => ⟨0⟩, fun _ => ""⟩

abbrev bareTexts : KeyTexts :=
  ⟨fun _ => "", fun _ _ => "", fun _ => ""⟩

attribute [local instance] integersOnly
attribute [local instance] bareTexts
attribute [local instance] Serialization.asWritten

/- `a INTEGER`. -/
def oneColumn : Serialization.Schema where
  columns := [⟨"a", .integer, true⟩]
  nonempty := nofun

def integerRow
    (number : Int)
    (hFits : int64Min ≤ number ∧ number ≤ int64Max) :
    StoredRow oneColumn where
  values _ := .int number
  storable := by
    rintro ⟨_ | position, hPosition⟩
    · exact .inr (.integer hFits.1 hFits.2)
    · exact absurd hPosition (by simp [oneColumn])

def nine : StoredRow oneColumn :=
  integerRow 9 (by decide)

def emptyHeap :
    Storage.HeapFile
      (Mvcc.Version (StoredRow oneColumn)) where
  pages := [(1, .blank .heap 4096)]
  nonempty := nofun
  distinct := List.nodup_singleton 1

/- One row of 9, put in by transaction 3. -/
def heapOfNine :
    Storage.HeapFile
      (Mvcc.Version (StoredRow oneColumn)) :=
  match emptyHeap.insert 2 (by decide)
      ⟨⟨3, noTransaction⟩, nine⟩ with
  | .ok (heap, _) => heap
  | .error _ => emptyHeap

def integerKey (number : Int) : Indexing.Key :=
  Indexing.valuePrefix ++
    Indexing.bigEndian (number + Indexing.intBias).toNat

def nineAt : RecordId := ⟨1, 0⟩

def sessionWith
    (entries : List Indexing.Entry) :
    TableSession oneColumn where
  manager := .create 4
  locks := .create
  table :=
    { name := "t"
      heap := heapOfNine
      indexes := [
        { name := "i"
          position := ⟨0, by decide⟩
          unique := false
          entries := entries }] }

/- `a = 7`. -/
def isSeven : Option (Expression Binary64) :=
  some (.binaryOp .eq (.column ⟨"a", 0, some 0⟩)
    (.literal (.int 7)))

theorem heapOfNine_get
    {recordId : RecordId}
    {version : Mvcc.Version (StoredRow oneColumn)}
    (hGet : heapOfNine.get recordId = some version) :
    recordId = nineAt ∧
      version = ⟨⟨3, noTransaction⟩, nine⟩ := by
  have hMem := Storage.HeapFile.mem_records.mpr hGet
  have hRecords : heapOfNine.records =
      [(nineAt, ⟨⟨3, noTransaction⟩, nine⟩)] := rfl
  rw [hRecords, List.mem_singleton] at hMem
  cases hMem
  exact ⟨rfl, rfl⟩

theorem sessionWith_alone
    (entries : List Indexing.Entry) :
    Alone (sessionWith entries) where
  sole := nofun
  stamped := by
    intro recordId version hGet
    rcases heapOfNine_get hGet with ⟨_, rfl⟩
    show 3 ≠ noTransaction ∧ 3 < 4 ∧ noTransaction < 4
    decide

/- Beside the entry of the row of 9, one of a row of 7 that
   was deleted before the index was made, and vacuumed; the row
   of 9 has taken its slot. -/
def staleSession : TableSession oneColumn :=
  sessionWith [(integerKey 7, nineAt), (integerKey 9, nineAt)]

/- A DELETE of the rows of 7 that goes by the index takes the
   row of 9. -/
theorem stale_entry_deletes :
    Alone staleSession ∧
      staleSession.matching isSeven = [] ∧
      (∃ after, staleSession.executeDelete isSeven 1 10 =
        .ok (after, [nineAt], 1)) ∧
      ¬ staleSession.ChangesOnce := by
  have hNone : staleSession.matching isSeven = [] := rfl
  have hDelete : ∃ after, staleSession.executeDelete isSeven
      1 10 = .ok (after, [nineAt], 1) := ⟨_, rfl⟩
  refine ⟨sessionWith_alone _, hNone, hDelete, ?_⟩
  intro hOnce
  rcases hDelete with ⟨after, hOk⟩
  have hAffected := (hOnce.1 _ _ _ _ _ _ hOk).affected
  rw [hNone] at hAffected
  exact absurd hAffected.length_eq (by decide)

theorem changes_once_iff_nine :
    Alone (sessionWith [(integerKey 9, nineAt)]) ∧
      (sessionWith [(integerKey 9, nineAt)]).ChangesOnce := by
  have hAlone := sessionWith_alone [(integerKey 9, nineAt)]
  refine ⟨hAlone, (changes_once_iff hAlone).mpr (.inr ?_)⟩
  have hRows : (sessionWith [(integerKey 9, nineAt)]).rows =
      [(nineAt, nine)] := rfl
  intro index hIndex
  rw [List.mem_singleton.mp hIndex, hRows]
  constructor
  · exact List.nodup_singleton _
  · intro key recordId
    simp only [List.mem_singleton, Prod.mk.injEq]
    constructor
    · rintro ⟨rfl, rfl⟩
      exact ⟨nine, ⟨rfl, rfl⟩, rfl⟩
    · rintro ⟨_, ⟨rfl, rfl⟩, hKey⟩
      cases hKey
      exact ⟨rfl, rfl⟩

end Stale

end Executor

end ChenDB
