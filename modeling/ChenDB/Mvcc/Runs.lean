import ChenDB.Mvcc.Claims

/-
  Runs of the database: what an event does to the manager,
  what it does to the rows of a table, and what a transaction
  keeps for as long as it stays open.
-/

--
-- The Manager
--

namespace ChenDB

namespace Mvcc

open Storage (Page Payload RecordId)
open Transaction (OpenTransaction Timeline TransactionManager)

variable {ι ρ τ : Type}

/- What an event does to the manager. -/
inductive ManagerStep
    (manager : TransactionManager ι) :
    TransactionManager ι → Prop where
  | same : ManagerStep manager manager
  | begun {manager' implicit session isolation} :
      manager.begin implicit session isolation = .ok manager' →
      ManagerStep manager manager'
  | ended {session transaction} :
      manager.activeIn session = some transaction →
      ManagerStep manager (manager.retire session)
  | failed (session : String) :
      ManagerStep manager (manager.markFailed session)
  | read (session : String) :
      ManagerStep manager (manager.snapshotIn session).1

section Managers

variable {manager manager' : TransactionManager ι}

/- An id handed out that is not running does not run again. -/
theorem ManagerStep.settled
    (hStep : ManagerStep manager manager')
    {xid : Nat}
    (hIdle : xid ∉ manager.runningIds)
    (hPast : xid < manager.nextId) :
    xid ∉ manager'.runningIds ∧ xid < manager'.nextId := by
  cases hStep with
  | same => exact ⟨hIdle, hPast⟩
  | begun hBegin =>
    rcases Transaction.begin_cases hBegin with
      ⟨hNext, _, hRunning⟩ | ⟨hNext, _, hRunning⟩
    · rw [hNext, hRunning]
      exact ⟨hIdle, hPast⟩
    · rw [hNext, hRunning, List.mem_append,
        List.mem_singleton, not_or]
      exact ⟨⟨hIdle, by omega⟩, by omega⟩
  | ended hActive =>
    refine ⟨fun hXid => ?_, hPast⟩
    rw [Transaction.mem_runningIds_retire hActive] at hXid
    exact hIdle hXid.1
  | failed session =>
    rw [Transaction.runningIds_markFailed]
    exact ⟨hIdle, hPast⟩
  | read session =>
    rcases Transaction.snapshotIn_same manager session with
      ⟨hNext, _, hRunning⟩
    rw [hNext, hRunning]
    exact ⟨hIdle, hPast⟩

/- A session's transaction stays what it is, or ends. -/
theorem ManagerStep.keeps
    (hStep : ManagerStep manager manager')
    {session : String}
    {transaction : OpenTransaction ι}
    (hActive :
      manager.activeIn session = some transaction) :
    (∃ after,
      manager'.activeIn session = some after ∧
      after.transactionId = transaction.transactionId ∧
      after.isolation = transaction.isolation ∧
      (transaction.kept.isSome →
        after.snapshot = transaction.snapshot)) ∨
    (transaction.transactionId ∉ manager'.runningIds ∧
      transaction.transactionId < manager'.nextId) := by
  cases hStep with
  | same =>
    exact .inl ⟨transaction, hActive, rfl, rfl,
      fun _ => rfl⟩
  | begun hBegin =>
    rcases Transaction.activeIn_begin hBegin hActive with
      ⟨after, hAfter, hId, hSnapshot, hIsolation, _⟩
    exact .inl ⟨after, hAfter, hId, hIsolation,
      fun _ => hSnapshot⟩
  | ended hEnded =>
    rename_i ended other
    by_cases hSame : session = ended
    · right
      have hBounds := Transaction.runningIds_bounds
        (Transaction.mem_runningIds_of_activeIn hActive)
      rw [hSame, hEnded, Option.some.injEq] at hActive
      rw [Transaction.mem_runningIds_retire hEnded, hActive]
      exact ⟨fun hBoth => hBoth.2 rfl, hBounds.2⟩
    · left
      refine ⟨transaction, ?_, rfl, rfl, fun _ => rfl⟩
      rw [Transaction.activeIn_retire, if_neg hSame]
      exact hActive
  | failed failing =>
    left
    refine ⟨_, (Transaction.activeIn_markFailed
      failing).trans (congrArg _ hActive), ?_⟩
    split <;> exact ⟨rfl, rfl, fun _ => rfl⟩
  | read reader =>
    rcases Transaction.activeIn_snapshotIn reader hActive
      with ⟨after, hAfter, hId, hIsolation, _, hSnapshot⟩
    exact .inl ⟨after, hAfter, hId, hIsolation, hSnapshot⟩

end Managers

--
-- Events
--

namespace Db

section Events

variable {db : Db ι ρ τ}

theorem commitIn_manager
    (db : Db ι ρ τ)
    (session : String) :
    ManagerStep db.manager
      (db.commitIn session).manager := by
  unfold commitIn
  cases hCommit : db.manager.commit session with
  | error raised => exact .same
  | ok result =>
    rcases result with ⟨manager, transaction⟩
    rcases Transaction.commit_cases hCommit with
      ⟨hActive, _, hManager⟩
    simp only [hManager]
    exact .ended hActive

theorem finish_manager
    (db : Db ι ρ τ)
    (session : String)
    (statement : Statement ρ) :
    ManagerStep db.manager
      (db.finish session statement).manager := by
  unfold finish
  simp only
  split
  · exact commitIn_manager
      { db with pending :=
          Function.update db.pending session none } session
  · exact .same

theorem keep_manager
    (db : Db ι ρ τ)
    (session table : String)
    (progress : Progress ρ τ) :
    ManagerStep db.manager
      (db.keep session table progress).manager := by
  unfold keep
  simp only
  split
  · exact .failed session
  · exact .same

theorem issue_manager
    (db : Db ι ρ τ)
    (session table : String)
    (changes : List (Change ρ)) :
    ManagerStep db.manager
      (db.issue session table changes).manager := by
  unfold issue
  split
  · exact .same
  · split
    · exact .same
    · rename_i hBegin
      exact .begun hBegin

theorem step_manager [Payload ρ]
    (db : Db ι ρ τ)
    (event : Event ρ) :
    ManagerStep db.manager (db.step event).1.manager := by
  cases event with
  | begin session implicit isolation =>
    unfold step
    simp only
    split
    · exact .same
    · split
      · exact .same
      · rename_i hBegin
        exact .begun hBegin
  | issue session table changes =>
    unfold step
    simp only
    split
    · exact .same
    · exact issue_manager db session table changes
  | advance session fresh =>
    rcases advance_cases db session fresh with
      hSame | ⟨statement, _, _, hFinish⟩ |
        ⟨statement, transaction, table, progress, _, hKeep⟩
    · unfold step
      simp only [hSame]
      exact .same
    · unfold step
      simp only [hFinish]
      exact finish_manager db session statement
    · unfold step
      simp only [hKeep]
      exact keep_manager db session _ progress
  | giveUp session =>
    unfold step
    simp only
    split
    · exact .failed session
    · exact .same
  | commit session =>
    unfold step
    simp only
    split
    · exact .same
    · exact commitIn_manager db session
  | scan session =>
    unfold step
    simp only
    split
    · exact .same
    · exact .read session
  | vacuum names => exact .same

/- The versions of a table, by their addresses. -/
def rows
    (db : Db ι ρ τ)
    (name : String)
    (recordId : RecordId) : Option (Version ρ) :=
  (db.tables name).bind fun table =>
    table.heap.get recordId

theorem commitIn_tables
    (db : Db ι ρ τ)
    (session : String) :
    (db.commitIn session).tables = db.tables := by
  unfold commitIn
  split <;> rfl

theorem finish_tables
    (db : Db ι ρ τ)
    (session : String)
    (statement : Statement ρ) :
    (db.finish session statement).tables = db.tables := by
  unfold finish
  simp only
  split
  · exact commitIn_tables _ session
  · rfl

theorem keep_tables
    (db : Db ι ρ τ)
    (session table : String)
    (progress : Progress ρ τ) :
    (db.keep session table progress).tables =
      Function.update db.tables table
        (some progress.table) := by
  unfold keep
  simp only
  split <;> rfl

theorem issue_tables
    (db : Db ι ρ τ)
    (session table : String)
    (changes : List (Change ρ)) :
    (db.issue session table changes).tables =
      db.tables := by
  unfold issue
  split
  · rfl
  · split <;> rfl

theorem rows_keep
    (db : Db ι ρ τ)
    (session table name : String)
    (progress : Progress ρ τ) :
    (db.keep session table progress).rows name =
      if name = table then progress.table.heap.get
      else db.rows name := by
  funext recordId
  unfold rows
  rw [keep_tables, Function.update_apply]
  split <;> rfl

end Events

end Db

def Event.isVacuum : Event ρ → Bool
  | .vacuum _ => true
  | _ => false

/- What an event does to the versions of one table, and the
   traces it leaves of that. -/
inductive RowsStep
    (db : Db ι ρ τ)
    (event : Event ρ)
    (name : String) :
    (RecordId → Option (Version ρ)) →
      List (Trace ρ) → Prop where
  | same {traces} :
      (∀ trace ∈ traces, trace.table ≠ name) →
      RowsStep db event name (db.rows name) traces
  | touched {session statement transaction rows effects} :
      db.pending session = some statement →
      db.manager.activeIn session = some transaction →
      statement.table = name →
      (db.tables name).isSome →
      Touches transaction.transactionId
        statement.HasClaimed (db.rows name) rows effects →
      RowsStep db event name rows
        (effects.map fun effect =>
          ⟨name, transaction.transactionId, effect⟩)
  | vacuumed :
      event.isVacuum = true →
      RowsStep db event name
        (fun recordId =>
          (db.rows name recordId).filter fun version =>
            ¬ isDead version.header
              db.manager.oldestSnapshotXmin) []

namespace Db

section Rows

variable [Payload ρ] {db : Db ι ρ τ}

omit [Payload ρ] in
theorem rows_vacuumTables
    (db : Db ι ρ τ)
    (names : String → Bool)
    (name : String) :
    (db.vacuumTables names).rows name =
      if names name then
        fun recordId =>
          (db.rows name recordId).filter fun version =>
            ¬ isDead version.header
              db.manager.oldestSnapshotXmin
      else db.rows name := by
  funext recordId
  unfold rows vacuumTables
  cases hTable : db.tables name with
  | none => split <;> simp [hTable]
  | some table =>
    cases hNames : names name with
    | false => simp [hTable, hNames]
    | true =>
      simp only [hTable, hNames, Option.map_some, if_true,
        Option.bind_some]
      cases hGet : table.heap.get recordId with
      | none =>
        unfold vacuumHeap
        rw [get_deleteAll, hGet]
        simp
      | some version =>
        rw [get_vacuumHeap hGet, Option.filter_some]
        cases hDead : isDead version.header
            db.manager.oldestSnapshotXmin with
        | true => simp
        | false => simp

theorem step_rows
    (hSound : db.Sound)
    (event : Event ρ)
    (name : String) :
    RowsStep db event name ((db.step event).1.rows name)
      (db.step event).2 := by
  have hQuiet : ∀ {db' : Db ι ρ τ},
      db'.tables = db.tables →
        RowsStep db event name (db'.rows name) [] := by
    intro db' hTables
    have hRows : db'.rows name = db.rows name := by
      unfold rows
      rw [hTables]
    rw [hRows]
    exact .same (by simp)
  cases event with
  | begin session implicit isolation =>
    unfold step
    simp only
    split
    · exact hQuiet rfl
    · split <;> exact hQuiet rfl
  | issue session table changes =>
    unfold step
    simp only
    split
    · exact hQuiet rfl
    · exact hQuiet (issue_tables db session table changes)
  | advance session fresh =>
    rcases advance_cases db session fresh with
      hSame | ⟨statement, _, _, hFinish⟩ |
        ⟨statement, transaction, table, progress, hSteps, hKeep⟩
    · unfold step
      simp only [hSame]
      exact hQuiet rfl
    · unfold step
      simp only [hFinish]
      exact hQuiet (finish_tables db session statement)
    · unfold step
      simp only [hKeep, rows_keep]
      have hTouches := hSteps.touches hSound
      by_cases hTable : name = statement.table
      · rw [if_pos hTable, ← hTable]
        have hRows : db.rows name = table.heap.get := by
          funext recordId
          unfold rows
          rw [hTable, hSteps.found]
          rfl
        rw [← hRows] at hTouches
        exact .touched hSteps.pending hSteps.active
          hTable.symm (by rw [hTable, hSteps.found]; rfl)
          hTouches
      · rw [if_neg hTable]
        apply RowsStep.same
        intro trace hMem
        rcases List.mem_map.mp hMem with ⟨_, _, rfl⟩
        exact Ne.symm hTable
  | giveUp session =>
    unfold step
    simp only
    split <;> exact hQuiet rfl
  | commit session =>
    unfold step
    simp only
    split
    · exact hQuiet rfl
    · exact hQuiet (commitIn_tables db session)
  | scan session =>
    unfold step
    simp only
    split <;> exact hQuiet rfl
  | vacuum names =>
    unfold step
    simp only [rows_vacuumTables]
    split
    · exact .vacuumed rfl
    · exact .same (by simp)

theorem run_sound
    (hSound : db.Sound)
    (events : List (Event ρ)) :
    (db.run events).1.Sound := by
  induction events generalizing db with
  | nil => exact hSound
  | cons event rest ih => exact ih (step_sound hSound event)

theorem run_settled
    {xid : Nat}
    (hIdle : xid ∉ db.manager.runningIds)
    (hPast : xid < db.manager.nextId)
    (events : List (Event ρ)) :
    xid ∉ (db.run events).1.manager.runningIds := by
  induction events generalizing db with
  | nil => exact hIdle
  | cons event rest ih =>
    have hStep := (step_manager db event).settled hIdle hPast
    exact ih hStep.1 hStep.2

end Rows

end Db

--
-- A Small Database
--

/- One table with no rows and no index. -/
def emptyTable : Table Library.Struct.Bytes Unit where
  heap :=
    { pages := [(1, Page.blank .heap 4096)]
      nonempty := List.cons_ne_nil _ _
      distinct := List.nodup_singleton _ }
  indexes := []
  check := fun _ => .ok ()

/- A database that has just been opened, with table `t`. -/
def openedDb : Db Nat Library.Struct.Bytes Unit where
  manager := (Timeline.start 1 : Timeline Nat).manager
  locks := LockManager.create
  tables := fun name =>
    if name = "t" then some emptyTable else none
  pending := fun _ => none

theorem openedDb_starts : openedDb.Starts where
  reached := ⟨1, [], rfl⟩
  waiting := by simp [openedDb]

/- A session inserts one row and commits. -/
def insertRow
    (session : String)
    (row : Library.Struct.Bytes) :
    List (Event Library.Struct.Bytes) :=
  [ .issue session "t" [.insert row], .advance session 2,
    .advance session 2, .advance session 2 ]

end Mvcc

end ChenDB
