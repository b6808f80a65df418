import ChenDB.Mvcc.RepeatableRead

/-
  SQL statements, run one at a time by the sessions of one
  database, and what they leave of each other's transactions,
  locks and rows.
-/

--
-- Statements
--

namespace ChenDB

namespace Executor

open Mvcc (Change Db Index LockManager Progress Table Version
  Touches advanceRow viewOf)
open Storage (HeapFile Page Payload)
open Transaction (IsolationLevel OpenTransaction Snapshot
  TransactionManager TransactionState UndoRecord)
open Wal (ByteImage)

variable {ι ρ τ : Type}
variable {session : String}
variable {manager manager' : TransactionManager ι}
variable {db : Db ι ρ τ}

/- The session of a call that names none. -/
def defaultSession : String := "default"

/-
  The statements, as far as they differ in what they do to
  transactions, locks and rows. A `read` changes no row: a
  query, an `EXPLAIN`, an `ANALYZE`, or whatever the binder
  turns down.
-/
inductive SqlStatement (ρ τ : Type) where
  | begin
  | commit
  | rollback
  | read (raises : Bool)
  | createTable
      (name : String)
      (firstPage : PageId)
      (pageSize : Nat)
      (check : ρ → Except EngineError Unit)
  /- `build` fills the tree from the rows there are. -/
  | createIndex
      (table : String)
      (build : HeapFile (Version ρ) →
        Except EngineError (Index ρ τ))
  | change (table : String) (changes : List (Change ρ))

/- `COMMIT` and `ROLLBACK`, which a failed transaction may
   still run. -/
def SqlStatement.ends : SqlStatement ρ τ → Bool
  | .commit | .rollback => true
  | _ => false

/-
  What the storage below decides: the pages it hands out
  while a statement works, the images the undo hook keeps,
  and what the pages hold once a rollback has put images
  back. Any of it may happen.
-/
structure Below (ι ρ τ : Type) where
  pages : List PageId
  captured : List (UndoRecord ι)
  restored : String → Option (Table ρ τ)

section Execution

variable [ByteImage ι] [Payload ρ]

/-
  The rows of a statement, one step after the other. Nobody
  else runs meanwhile, so a lock it has to wait for does not
  come free, and it raises when its time is up.
-/
def work
    (xid : Nat) :
    List PageId → Db ι ρ τ → Mvcc.Statement ρ → Db ι ρ τ × Bool
  | pages, db, statement =>
    match statement.todo, pages with
    | [], _ => (db, true)
    | _ :: _, [] => (db, false)
    | change :: _, fresh :: pages =>
      match db.tables statement.table with
      | none => (db, false)
      | some table =>
        if hFresh : fresh ∈ table.heap.pageIds then
          (db, false)
        else
          let progress := advanceRow table db.locks
            statement db.manager.runningIds xid fresh
            hFresh change
          let moved := { db with
            locks := progress.locks
            tables := Function.update db.tables
              statement.table (some progress.table) }
          match progress.statement with
          | none => (moved, false)
          | some statement =>
            work xid pages moved statement

/- The images the hook keeps for the session's writes. -/
def captureAll
    (session : String) :
    List (UndoRecord ι) → TransactionManager ι →
      TransactionManager ι
  | [], manager => manager
  | record :: rest, manager =>
    captureAll session rest
      (manager.captureIn session record.pageId
        record.beforeImage record.reason)

def capturing
    (session : String)
    (below : Below ι ρ τ)
    (db : Db ι ρ τ) : Db ι ρ τ :=
  { db with
    manager := captureAll session below.captured db.manager }

/- `Database.rollback`. -/
def rollback
    (session : String)
    (below : Below ι ρ τ)
    (db : Db ι ρ τ) : Db ι ρ τ × Bool :=
  match db.manager.activeIn session with
  | none => (db, false)
  | some transaction =>
    ({ db with
      manager := db.manager.retire session
      locks := db.locks.releaseAll
        transaction.transactionId
      tables := below.restored }, true)

/- `Database.commit`. -/
def commit
    (session : String)
    (below : Below ι ρ τ)
    (db : Db ι ρ τ) : Db ι ρ τ × Bool :=
  if db.manager.isFailedIn session then
    rollback session below db
  else
    match db.manager.commit session with
    | .error _ => (db, false)
    | .ok (manager, transaction) =>
      ({ db with
        manager := manager
        locks := db.locks.releaseAll
          transaction.transactionId }, true)

/- `insert_many` and its siblings: in the open transaction,
   or in one opened for this statement. -/
def changeRows
    (session : String)
    (below : Below ι ρ τ)
    (db : Db ι ρ τ)
    (table : String)
    (changes : List (Change ρ)) : Db ι ρ τ × Bool :=
  if (db.tables table).isNone then (db, false)
  else
    match db.manager.activeIn session with
    | some transaction =>
      let (worked, done) := work transaction.transactionId
        below.pages db
        { table := table, owns := false, todo := changes
          phase := .arriving }
      (capturing session below worked, done)
    | none =>
      match db.manager.begin true session
          Transaction.defaultIsolation with
      | .error _ => (db, false)
      | .ok manager =>
        let (worked, done) := work db.manager.nextId
          below.pages { db with manager := manager }
          { table := table, owns := true, todo := changes
            phase := .arriving }
        let kept := capturing session below worked
        if done then commit session below kept
        else ((rollback session below kept).1, false)

/- The statement itself, and whether it was carried out. -/
def dispatch
    (session : String)
    (below : Below ι ρ τ)
    (db : Db ι ρ τ) :
    SqlStatement ρ τ → Db ι ρ τ × Bool
  | .begin =>
    match db.manager.begin false session
        Transaction.defaultIsolation with
    | .error _ => (db, false)
    | .ok manager => ({ db with manager := manager }, true)
  | .commit => commit session below db
  | .rollback => rollback session below db
  | .read raises => (db, !raises)
  | .createTable name firstPage pageSize check =>
    if (db.tables name).isSome then (db, false)
    else
      let table : Table ρ τ :=
        { heap :=
            { pages :=
                [(firstPage, Page.blank .heap pageSize)]
              nonempty := List.cons_ne_nil _ _
              distinct := List.nodup_singleton _ }
          indexes := []
          check := check }
      (capturing session below { db with
        tables := Function.update db.tables name
          (some table) }, true)
  | .createIndex name build =>
    match db.tables name with
    | none => (db, false)
    | some table =>
      match build table.heap with
      | .error _ => (capturing session below db, false)
      | .ok index =>
        (capturing session below { db with
          tables := Function.update db.tables name
            (some { table with
              indexes := table.indexes ++ [index] }) },
          true)
  | .change table changes =>
    changeRows session below db table changes

inductive Outcome where
  | done
  /- Turned down by `_check_transaction_usable`. -/
  | refused
  | raised
deriving DecidableEq, Repr

/- The database once a statement has taken its snapshot. -/
def reading
    (session : String)
    (db : Db ι ρ τ) : Db ι ρ τ :=
  { db with manager := (db.manager.snapshotIn session).1 }

/-
  `execute_statement`. The snapshot is taken first. The check
  and the mark that follows a failure name no session, so
  they are about the default one.
-/
def executeStatement
    (session : String)
    (below : Below ι ρ τ)
    (db : Db ι ρ τ)
    (statement : SqlStatement ρ τ) :
    Db ι ρ τ × Outcome :=
  let current := reading session db
  if current.manager.isFailedIn defaultSession ∧
      ¬ statement.ends then
    (current, .refused)
  else
    match dispatch session below current statement with
    | (after, true) => (after, .done)
    | (after, false) =>
      ({ after with
        manager :=
          after.manager.markFailed defaultSession },
        .raised)

end Execution

--
-- Runs
--

/-
  What sessions do, in any order. `execute_script` opens an
  implicit transaction for its session when none is open,
  runs its statements, and commits or unwinds at the end;
  clients call the same things themselves.
-/
inductive Event (ι ρ τ : Type) where
  | statement
      (session : String)
      (below : Below ι ρ τ)
      (statement : SqlStatement ρ τ)
  | begins
      (session : String)
      (implicit : Bool)
      (isolation : IsolationLevel)
  | commits (session : String) (below : Below ι ρ τ)
  | unwinds (session : String) (below : Below ι ρ τ)

section Runs

variable [ByteImage ι] [Payload ρ]

def step (db : Db ι ρ τ) : Event ι ρ τ → Db ι ρ τ
  | .statement session below statement =>
    (executeStatement session below db statement).1
  | .begins session implicit isolation =>
    match db.manager.begin implicit session isolation with
    | .error _ => db
    | .ok manager => { db with manager := manager }
  | .commits session below => (commit session below db).1
  | .unwinds session below => (rollback session below db).1

/- What holds of every statement of a run. -/
def Throughout
    (P : Db ι ρ τ → String → Below ι ρ τ →
      SqlStatement ρ τ → Prop) :
    Db ι ρ τ → List (Event ι ρ τ) → Prop
  | _, [] => True
  | db, event :: rest =>
    (∀ session below statement,
      event = .statement session below statement →
        P db session below statement) ∧
    Throughout P (step db event) rest

end Runs

--
-- The Other Sessions
--

/- Only this session's transaction may have changed. -/
structure Aside
    (session : String)
    (manager manager' : TransactionManager ι) : Prop where
  nextId : manager'.nextId = manager.nextId
  frozenXid : manager'.frozenXid = manager.frozenXid
  runningIds : manager'.runningIds = manager.runningIds
  others : ∀ other, other ≠ session →
    manager'.activeIn other = manager.activeIn other

section Managers

theorem Aside.refl
    (session : String)
    (manager : TransactionManager ι) :
    Aside session manager manager :=
  ⟨rfl, rfl, rfl, fun _ _ => rfl⟩

theorem Aside.trans
    {manager'' : TransactionManager ι}
    (hFirst : Aside session manager manager')
    (hSecond : Aside session manager' manager'') :
    Aside session manager manager'' where
  nextId := hSecond.nextId.trans hFirst.nextId
  frozenXid := hSecond.frozenXid.trans hFirst.frozenXid
  runningIds := hSecond.runningIds.trans hFirst.runningIds
  others := fun other hOther =>
    (hSecond.others other hOther).trans
      (hFirst.others other hOther)

theorem aside_updateIn
    (session : String)
    (manager : TransactionManager ι)
    (f : OpenTransaction ι → OpenTransaction ι)
    (hSame : ∀ transaction,
      (f transaction).session = transaction.session ∧
        (f transaction).transactionId =
          transaction.transactionId) :
    Aside session manager
      (manager.updateIn session f hSame) where
  nextId := rfl
  frozenXid := rfl
  runningIds :=
    Transaction.runningIds_updateIn manager session f hSame
  others := by
    intro other hOther
    rw [Transaction.activeIn_updateIn]
    cases manager.activeIn other with
    | none => rfl
    | some transaction => rw [Option.map_some, if_neg hOther]

theorem aside_markFailed
    (session : String)
    (manager : TransactionManager ι) :
    Aside session manager (manager.markFailed session) :=
  aside_updateIn session manager
    (fun transaction => { transaction with state := .failed })
    (fun _ => ⟨rfl, rfl⟩)

theorem aside_snapshotIn
    (session : String)
    (manager : TransactionManager ι) :
    Aside session manager (manager.snapshotIn session).1 := by
  unfold TransactionManager.snapshotIn
  cases hActive : manager.activeIn session with
  | none => exact Aside.refl session manager
  | some transaction =>
    simp only [TransactionManager.snapshotFor]
    cases transaction.kept with
    | some snapshot => exact Aside.refl session manager
    | none =>
      rw [(Transaction.activeIn_eq_some.mp hActive).2]
      exact aside_updateIn session manager
        (fun transaction => { transaction with
          snapshot := some (manager.takeSnapshot _) })
        (fun _ => ⟨rfl, rfl⟩)

variable {other : String}

/- A session aside reads through the same snapshot. -/
theorem Aside.snapshot
    (hAside : Aside session manager manager')
    (hOther : other ≠ session) :
    (manager'.snapshotIn other).2 =
      (manager.snapshotIn other).2 := by
  have hTake : ∀ owner, manager'.takeSnapshot owner =
      manager.takeSnapshot owner := by
    intro owner
    unfold TransactionManager.takeSnapshot
    rw [hAside.nextId, hAside.frozenXid, hAside.runningIds]
  unfold TransactionManager.snapshotIn
  rw [hAside.others other hOther]
  cases manager.activeIn other with
  | none => exact hTake _
  | some transaction =>
    simp only [TransactionManager.snapshotFor]
    cases transaction.kept with
    | some snapshot => rfl
    | none => exact hTake _

/- Nobody reads the work of a transaction another session
   has open. -/
theorem unseen_by_others
    (hSound : manager.Sound)
    {transaction : OpenTransaction ι}
    (hActive :
      manager.activeIn session = some transaction)
    (hOther : other ≠ session) :
    (manager.snapshotIn other).2.sees
      transaction.transactionId = false := by
  have hRunning :=
    Transaction.mem_runningIds_of_activeIn hActive
  have hPositive := (Transaction.runningIds_bounds hRunning).1
  unfold TransactionManager.snapshotIn
  cases hReader : manager.activeIn other with
  | none =>
    exact (hSound.takeSnapshot _).others _ hRunning
      (Nat.ne_of_gt hPositive)
  | some reader =>
    have hDiffer : transaction.transactionId ≠
        reader.transactionId := by
      intro hSame
      exact hOther (Transaction.session_of_id hActive
        hReader hSame).symm
    simp only [TransactionManager.snapshotFor]
    cases hKept : reader.kept with
    | none =>
      exact (hSound.takeSnapshot _).others _ hRunning
        hDiffer
    | some snapshot =>
      have hHeld : reader.snapshot = some snapshot := by
        unfold OpenTransaction.kept at hKept
        split at hKept
        · cases hKept
        · exact hKept
      have hMem := (Transaction.activeIn_eq_some.mp hReader).1
      rcases hSound.held reader hMem snapshot hHeld with
        ⟨hFits, hOwner, _⟩
      apply hFits.others _ hRunning
      rw [hOwner]
      exact hDiffer

/- The state of the session's transaction. -/
def stateIn
    (manager : TransactionManager ι)
    (session : String) : Option TransactionState :=
  (manager.activeIn session).map OpenTransaction.state

theorem isFailedIn_iff :
    manager.isFailedIn session = true ↔
      stateIn manager session = some .failed := by
  unfold TransactionManager.isFailedIn stateIn
  cases manager.activeIn session with
  | none => simp
  | some transaction => simp

theorem Aside.stateIn
    (hAside : Aside session manager manager')
    (hOther : other ≠ session) :
    stateIn manager' other = stateIn manager other :=
  congrArg (Option.map OpenTransaction.state)
    (hAside.others other hOther)

/- A change that is not of the state leaves the state. -/
theorem stateIn_updateIn
    (changed session : String)
    (f : OpenTransaction ι → OpenTransaction ι)
    (hSame : ∀ transaction,
      (f transaction).session = transaction.session ∧
        (f transaction).transactionId =
          transaction.transactionId)
    (hState : ∀ transaction,
      (f transaction).state = transaction.state) :
    stateIn (manager.updateIn changed f hSame) session =
      stateIn manager session := by
  unfold stateIn
  rw [Transaction.activeIn_updateIn, Option.map_map]
  congr 1
  funext transaction
  simp only [Function.comp_apply]
  split
  · exact hState transaction
  · rfl

theorem stateIn_snapshotIn (reader : String) :
    stateIn (manager.snapshotIn reader).1 session =
      stateIn manager session := by
  cases hActive : manager.activeIn session with
  | some transaction =>
    rcases Transaction.activeIn_snapshotIn reader hActive
      with ⟨after, hAfter, _, _, hState, _⟩
    unfold stateIn
    rw [hAfter, hActive, Option.map_some, hState,
      Option.map_some]
  | none =>
    by_cases hSame : session = reader
    · unfold TransactionManager.snapshotIn
      rw [← hSame, hActive]
    · exact (aside_snapshotIn reader manager).stateIn hSame

theorem stateIn_markFailed
    (hOpen : stateIn manager session ≠ none) :
    stateIn (manager.markFailed session) session =
      some .failed := by
  unfold stateIn at hOpen ⊢
  rw [Transaction.activeIn_markFailed]
  cases hActive : manager.activeIn session with
  | none => simp [hActive] at hOpen
  | some transaction => simp

section Capturing

variable [ByteImage ι]

/- What one image kept by the hook keeps, all of them do. -/
theorem captureAll_keeps
    {P : TransactionManager ι → Prop}
    (hStep : ∀ manager pageId image reason, P manager →
      P (manager.captureIn session pageId image reason))
    (captured : List (UndoRecord ι))
    (hManager : P manager) :
    P (captureAll session captured manager) := by
  induction captured generalizing manager with
  | nil => exact hManager
  | cons record rest ih => exact ih (hStep _ _ _ _ hManager)

theorem aside_captureAll
    (session : String)
    (captured : List (UndoRecord ι))
    (manager : TransactionManager ι) :
    Aside session manager
      (captureAll session captured manager) := by
  apply captureAll_keeps _ captured
    (Aside.refl session manager)
  intro before pageId image reason hAside
  exact hAside.trans (aside_updateIn session before
    (fun transaction => { transaction with
      undo := transaction.undo.capture pageId image reason })
    (fun _ => ⟨rfl, rfl⟩))

theorem stateIn_captureAll
    (changed : String)
    (captured : List (UndoRecord ι)) :
    stateIn (captureAll changed captured manager) session =
      stateIn manager session := by
  apply captureAll_keeps
    (P := fun after =>
      stateIn after session = stateIn manager session)
    _ captured rfl
  intro before pageId image reason hState
  exact (stateIn_updateIn changed session
    (fun transaction => { transaction with
      undo := transaction.undo.capture pageId image reason })
    (fun _ => ⟨rfl, rfl⟩) (fun _ => rfl)).trans hState

theorem captureAll_sound
    (hSound : manager.Sound)
    (session : String)
    (captured : List (UndoRecord ι)) :
    (captureAll session captured manager).Sound := by
  apply captureAll_keeps _ captured hSound
  intro before pageId image reason hBefore
  apply hBefore.mono
    (before.captureIn session pageId image reason)
    (Nat.le_refl _) rfl
  · intro xid hXid
    rw [TransactionManager.captureIn,
      Transaction.runningIds_updateIn] at hXid
    exact .inl hXid
  · intro transaction hMem
    rcases Transaction.running_updateIn hMem with
      ⟨old, hOld, hSame | hSame⟩
    all_goals
      rw [hSame]
      exact .inr ⟨old, hOld, rfl, rfl⟩

end Capturing

variable {implicit : Bool} {isolation : IsolationLevel}

/- A `begin` concerns its own session only. -/
theorem activeIn_begin_other
    (hBegin : manager.begin implicit session isolation =
      .ok manager')
    (hOther : other ≠ session) :
    manager'.activeIn other = manager.activeIn other := by
  unfold TransactionManager.begin at hBegin
  split at hBegin
  · split at hBegin
    · cases hBegin
      rfl
    · split at hBegin
      · cases hBegin
      · cases hBegin
        exact (aside_updateIn session manager
          (fun transaction =>
            { transaction with implicit := false })
          (fun _ => ⟨rfl, rfl⟩)).others other hOther
  · rename_i hNone
    cases hBegin
    unfold TransactionManager.activeIn
      TransactionManager.add
    rw [List.find?_append]
    have hNew : [manager.start implicit session
        isolation].find? (fun transaction =>
          transaction.session = other) = none := by
      simp [TransactionManager.start, Ne.symm hOther]
    rw [hNew, Option.or_none]

/- What a `begin` opens has not failed. -/
theorem stateIn_begin
    (hBegin : manager.begin implicit session isolation =
      .ok manager') :
    stateIn manager' session =
      some ((stateIn manager session).getD .active) := by
  cases hActive : manager.activeIn session with
  | some transaction =>
    rcases Transaction.activeIn_begin hBegin hActive with
      ⟨after, hAfter, _, _, _, hState⟩
    unfold stateIn
    rw [hAfter, hActive, Option.map_some, hState]
    rfl
  | none =>
    unfold TransactionManager.begin at hBegin
    split at hBegin
    · rename_i hSome
      rw [hActive] at hSome
      cases hSome
    · cases hBegin
      have hFound : (manager.add implicit session isolation
          hActive).activeIn session =
            some (manager.start implicit session
              isolation) := by
        unfold TransactionManager.activeIn at hActive ⊢
        unfold TransactionManager.add
        rw [List.find?_append, hActive]
        simp [TransactionManager.start]
      unfold stateIn
      rw [hFound, hActive]
      rfl

theorem stateIn_retire (session : String) :
    stateIn (manager.retire session) session = none := by
  unfold stateIn
  rw [Transaction.activeIn_retire, if_pos rfl]
  rfl

theorem activeIn_retire_other
    (hOther : other ≠ session) :
    (manager.retire session).activeIn other =
      manager.activeIn other := by
  rw [Transaction.activeIn_retire, if_neg hOther]

end Managers

--
-- Rows and Locks
--

/- A lock taken by one transaction is none of another's. -/
theorem heldBy_tryAcquire
    {locks locks' : LockManager}
    {xid other : Nat}
    {resource : Mvcc.ResourceId}
    {mode : Mvcc.LockMode}
    (hGranted : locks.tryAcquire xid resource mode =
      .ok (some locks'))
    (hOther : other ≠ xid) :
    locks'.heldBy other = locks.heldBy other := by
  unfold LockManager.tryAcquire at hGranted
  split at hGranted
  · cases hGranted
    rfl
  · split at hGranted
    · split at hGranted
      · cases hGranted
      · cases hGranted
        unfold LockManager.heldBy LockManager.record
        simp only [List.filter_cons, Ne.symm hOther,
          decide_false, Bool.false_eq_true, if_false,
          List.filter_filter]
        apply List.filter_congr
        intro request _
        by_cases hHere : request.transactionId = other
        · simp [hHere, hOther]
        · simp [hHere]
    · cases hGranted

section Working

variable [Payload ρ] {table : Table ρ τ} {locks : LockManager}
variable {xid other : Nat}

variable {statement : Mvcc.Statement ρ}

omit [Payload ρ] in
theorem claim_heldBy
    (recordId : Storage.RecordId)
    (hOther : other ≠ xid) :
    (Mvcc.claim table locks statement xid
        recordId).locks.heldBy other =
      locks.heldBy other := by
  unfold Mvcc.claim
  split
  · rfl
  · rfl
  · rename_i hGranted
    have hHeld := heldBy_tryAcquire hGranted hOther
    split
    · exact hHeld
    · split <;> exact hHeld

omit [Payload ρ] in
theorem settleIn_heldBy
    (recordId : Storage.RecordId)
    (row : ρ)
    (old : Mvcc.Located ρ)
    (hOther : other ≠ xid) :
    (Mvcc.settleIn table locks statement xid recordId row
        old).locks.heldBy other =
      locks.heldBy other := by
  unfold Mvcc.settleIn
  split
  · rfl
  · rfl
  · rename_i hGranted
    exact heldBy_tryAcquire hGranted hOther

variable {fresh : PageId}

theorem advanceRow_heldBy
    {running : List Nat}
    {hFresh : fresh ∉ table.heap.pageIds}
    (change : Change ρ)
    (hOther : other ≠ xid) :
    (advanceRow table locks statement running xid fresh
        hFresh change).locks.heldBy other =
      locks.heldBy other := by
  have hPlace : ∀ {table : Table ρ τ}
      {hFresh : fresh ∉ table.heap.pageIds} values old,
      (Mvcc.place table locks statement xid fresh hFresh
        values old).locks = locks := by
    intro table hFresh values old
    unfold Mvcc.place
    split <;> rfl
  unfold advanceRow
  split
  · split
    · rfl
    · rw [hPlace]
  · unfold Mvcc.arrive
    split
    · rfl
    · split <;> rfl
  · unfold Mvcc.arrive
    split
    · rfl
    · split <;> rfl
  · exact claim_heldBy _ hOther
  · exact claim_heldBy _ hOther
  · unfold Mvcc.deleteClaimed
    split
    · rfl
    · split <;> rfl
  · unfold Mvcc.updateClaimed
    split
    · rfl
    · split
      · rfl
      · simp only [hPlace]
  · exact settleIn_heldBy _ _ _ hOther
  · exact settleIn_heldBy _ _ _ hOther
  · rfl
  · rfl
  · rfl

/- What a statement has claimed is there for it. -/
def Claimed
    (db : Db ι ρ τ)
    (xid : Nat)
    (statement : Mvcc.Statement ρ) : Prop :=
  ∀ recordId version,
    statement.HasClaimed recordId version →
    ∃ table, db.tables statement.table = some table ∧
      Mvcc.Stands table.heap db.locks statement.table xid
        recordId version

/- Work leaves the manager alone, takes locks for its own
   transaction, and changes no row anybody else sees. -/
structure Hidden
    (xid : Nat)
    (db after : Db ι ρ τ) : Prop where
  manager : after.manager = db.manager
  locks : ∀ other, other ≠ xid →
    after.locks.heldBy other = db.locks.heldBy other
  rows : ∀ snapshot : Snapshot,
    snapshot.sees xid = false → ∀ name,
      viewOf snapshot (after.rows name) =
        viewOf snapshot (db.rows name)

omit [Payload ρ] in
theorem Hidden.refl (db : Db ι ρ τ) : Hidden xid db db :=
  ⟨rfl, fun _ _ => rfl, fun _ _ _ => rfl⟩

omit [Payload ρ] in
theorem Hidden.trans
    {first second third : Db ι ρ τ}
    (hFirst : Hidden xid first second)
    (hSecond : Hidden xid second third) :
    Hidden xid first third where
  manager := hSecond.manager.trans hFirst.manager
  locks := fun other hOther =>
    (hSecond.locks other hOther).trans
      (hFirst.locks other hOther)
  rows := fun snapshot hSees name =>
    (hSecond.rows snapshot hSees name).trans
      (hFirst.rows snapshot hSees name)

/- One row's step is hidden from the others. -/
theorem hidden_advanceRow
    (hClaimed : Claimed db xid statement)
    (hTable : db.tables statement.table = some table)
    {change : Change ρ}
    {rest : List (Change ρ)}
    (hTodo : statement.todo = change :: rest)
    (hFresh : fresh ∉ table.heap.pageIds)
    {progress : Progress ρ τ}
    (hProgress : progress = advanceRow table db.locks
      statement db.manager.runningIds xid fresh hFresh
      change) :
    Hidden xid db { db with
      locks := progress.locks
      tables := Function.update db.tables statement.table
        (some progress.table) } where
  manager := rfl
  locks := by
    intro other hOther
    rw [hProgress]
    exact advanceRow_heldBy change hOther
  rows := by
    intro snapshot hSees name
    have hHere : ∀ recordId version,
        statement.HasClaimed recordId version →
          table.heap.get recordId = some version ∧
            version.header.xmax = Wal.noTransaction := by
      intro recordId version hHas
      rcases hClaimed recordId version hHas with
        ⟨found, hFound, hStands⟩
      rw [hTable, Option.some.injEq] at hFound
      rw [hFound]
      exact ⟨hStands.live, hStands.undeleted⟩
    have hTouches : Touches xid statement.HasClaimed
        table.heap.get progress.table.heap.get
        progress.effects := by
      rw [hProgress]
      exact Mvcc.advanceRow_touches hTodo
        (fun recordId version hHas =>
          (hHere recordId version hHas).1)
    have hView := hTouches.foreign hSees hHere
    by_cases hName : name = statement.table
    · have hBefore : db.rows name = table.heap.get := by
        funext recordId
        unfold Db.rows
        rw [hName, hTable]
        rfl
      rw [hBefore, ← hView]
      congr 1
      funext recordId
      unfold Db.rows
      rw [hName]
      simp
    · congr 1
      funext recordId
      unfold Db.rows
      simp [hName]

theorem work_hidden
    (hClaimed : Claimed db xid statement)
    (pages : List PageId) :
    Hidden xid db (work xid pages db statement).1 := by
  induction pages generalizing db statement with
  | nil =>
    unfold work
    split
    · exact Hidden.refl db
    · exact Hidden.refl db
    · rename_i hPages
      cases hPages
  | cons fresh pages ih =>
    unfold work
    split
    · exact Hidden.refl db
    · exact Hidden.refl db
    · rename_i change rest fresh pages hTodo hPages
      cases hPages
      split
      · exact Hidden.refl db
      · rename_i table hTable
        split
        · exact Hidden.refl db
        · rename_i hFresh
          have hFirst := hidden_advanceRow hClaimed hTable
            hTodo hFresh rfl
          simp only
          split
          · exact hFirst
          · rename_i after hAfter
            refine hFirst.trans (ih ?_)
            intro recordId version hHas
            have hStands := Mvcc.advanceRow_stands hTodo
              hAfter hHas
            have hFound : ∀ moved : Table ρ τ,
                Function.update db.tables statement.table
                  (some moved) after.table =
                    some moved := by
              intro moved
              rw [Mvcc.advanceRow_table hAfter]
              exact Function.update_self _ _ _
            rw [← Mvcc.advanceRow_table hAfter] at hStands
            exact ⟨_, hFound _, hStands⟩

end Working

--
-- What a Statement Does
--

section Dispatching

variable [ByteImage ι] [Payload ρ]
variable {below : Below ι ρ τ}

/-
  What a statement, or the end of a transaction, does to the
  transactions: to those of other sessions nothing, and none
  fails by it.
-/
structure Keeps
    (session : String)
    (manager manager' : TransactionManager ι) : Prop where
  others : ∀ other, other ≠ session →
    manager'.activeIn other = manager.activeIn other
  state : stateIn manager' session = some .failed →
    stateIn manager session = some .failed
  sound : manager.Sound → manager'.Sound

omit [ByteImage ι] in
theorem Keeps.refl
    (session : String)
    (manager : TransactionManager ι) :
    Keeps session manager manager :=
  ⟨fun _ _ => rfl, id, id⟩

omit [ByteImage ι] in
theorem Keeps.trans
    {manager'' : TransactionManager ι}
    (hFirst : Keeps session manager manager')
    (hSecond : Keeps session manager' manager'') :
    Keeps session manager manager'' where
  others := fun other hOther =>
    (hSecond.others other hOther).trans
      (hFirst.others other hOther)
  state := fun hState => hFirst.state (hSecond.state hState)
  sound := fun hSound => hSecond.sound (hFirst.sound hSound)

theorem keeps_captureAll
    (session : String)
    (captured : List (UndoRecord ι))
    (manager : TransactionManager ι) :
    Keeps session manager
      (captureAll session captured manager) where
  others :=
    (aside_captureAll session captured manager).others
  state := by
    rw [stateIn_captureAll]
    exact id
  sound := fun hSound =>
    captureAll_sound hSound session captured

omit [ByteImage ι] in
theorem keeps_begin
    {implicit : Bool}
    {isolation : IsolationLevel}
    (hBegin : manager.begin implicit session isolation =
      .ok manager') :
    Keeps session manager manager' where
  others := fun _ hOther =>
    activeIn_begin_other hBegin hOther
  state := by
    rw [stateIn_begin hBegin]
    cases stateIn manager session <;> simp
  sound := fun hSound =>
    Transaction.begin_sound hSound hBegin

omit [ByteImage ι] in
theorem keeps_retire
    (session : String)
    (manager : TransactionManager ι) :
    Keeps session manager (manager.retire session) where
  others := fun _ hOther => activeIn_retire_other hOther
  state := by
    rw [stateIn_retire]
    simp
  sound := fun hSound =>
    Transaction.retire_sound hSound session

omit [Payload ρ] in
omit [ByteImage ι] in
theorem rollback_keeps :
    Keeps session db.manager
      (rollback session below db).1.manager := by
  unfold rollback
  split
  · exact Keeps.refl session _
  · exact keeps_retire session _

omit [ByteImage ι] [Payload ρ] in
theorem commit_keeps :
    Keeps session db.manager
      (commit session below db).1.manager := by
  unfold commit
  split
  · exact rollback_keeps
  · split
    · exact Keeps.refl session _
    · rename_i hCommit
      rcases Transaction.commit_cases hCommit with
        ⟨_, _, hManager⟩
      rw [hManager]
      exact keeps_retire session _

omit [ByteImage ι] [Payload ρ] in
theorem not_claimed
    (db : Db ι ρ τ)
    (xid : Nat)
    (table : String)
    (owns : Bool)
    (changes : List (Change ρ)) :
    Claimed db xid { table := table, owns := owns
                     todo := changes, phase := .arriving } :=
  fun _ _ hHas => nomatch hHas.1

theorem changeRows_keeps
    (table : String)
    (changes : List (Change ρ)) :
    Keeps session db.manager
      (changeRows session below db table
        changes).1.manager := by
  unfold changeRows
  split
  · exact Keeps.refl session _
  · split
    · rename_i transaction _
      have hWorked := (work_hidden
        (not_claimed db transaction.transactionId table false
          changes) below.pages).manager
      simp only [capturing, hWorked]
      exact keeps_captureAll session _ _
    · split
      · exact Keeps.refl session _
      · rename_i manager hBegin
        have hWorked := (work_hidden
          (not_claimed { db with manager := manager }
            db.manager.nextId table true changes)
          below.pages).manager
        have hKept := (keeps_begin hBegin).trans
          (keeps_captureAll session below.captured manager)
        simp only
        split
        · refine Keeps.trans ?_ commit_keeps
          simp only [capturing, hWorked]
          exact hKept
        · refine Keeps.trans ?_ rollback_keeps
          simp only [capturing, hWorked]
          exact hKept

theorem dispatch_keeps (statement : SqlStatement ρ τ) :
    Keeps session db.manager
      (dispatch session below db
        statement).1.manager := by
  cases statement with
  | begin =>
    unfold dispatch
    simp only
    split
    · exact Keeps.refl session _
    · rename_i hBegin
      exact keeps_begin hBegin
  | commit => exact commit_keeps
  | rollback => exact rollback_keeps
  | read raises => exact Keeps.refl session _
  | createTable name firstPage pageSize check =>
    unfold dispatch
    simp only
    split
    · exact Keeps.refl session _
    · exact keeps_captureAll session _ _
  | createIndex name build =>
    unfold dispatch
    simp only
    split
    · exact Keeps.refl session _
    · split <;> exact keeps_captureAll session _ _
  | change table changes =>
    exact changeRows_keeps table changes

variable {statement : SqlStatement ρ τ}

/- With a usable transaction open, both ends succeed. -/
theorem ends_done
    (hEnds : statement.ends = true)
    (hOpen : stateIn db.manager session ≠ none) :
    (dispatch session below db statement).2 = true := by
  have hActive : ∃ transaction,
      db.manager.activeIn session = some transaction := by
    unfold stateIn at hOpen
    cases hFound : db.manager.activeIn session with
    | none => simp [hFound] at hOpen
    | some transaction => exact ⟨transaction, rfl⟩
  rcases hActive with ⟨transaction, hActive⟩
  have hRollback : (rollback session below db).2 = true := by
    unfold rollback
    simp only [hActive]
  cases statement with
  | rollback => exact hRollback
  | commit =>
    unfold dispatch
    simp only
    unfold commit
    split
    · exact hRollback
    · rename_i hFailed
      have hState : transaction.state ≠ .failed := by
        intro hState
        apply hFailed
        unfold TransactionManager.isFailedIn
        simp [hActive, hState]
      have hCommit : db.manager.commit session =
          .ok (db.manager.retire session,
            transaction) := by
        unfold TransactionManager.commit
          TransactionManager.requireActive
        rw [hActive]
        exact if_neg hState
      rw [hCommit]
  | _ => cases hEnds

/-
  A statement that raises in an open transaction has only
  worked on rows in its name, and the hook has kept images
  for it.
-/
theorem dispatch_raised
    {transaction : OpenTransaction ι}
    (hActive :
      db.manager.activeIn session = some transaction)
    (hRaised :
      (dispatch session below db statement).2 = false) :
    ∃ worked, Hidden transaction.transactionId db worked ∧
      ((dispatch session below db statement).1 = worked ∨
        (dispatch session below db statement).1 =
          capturing session below worked) := by
  have hSame : Hidden transaction.transactionId db db :=
    Hidden.refl db
  have hOpen : stateIn db.manager session ≠ none := by
    unfold stateIn
    rw [hActive]
    simp
  cases hEnds : statement.ends with
  | true =>
    rw [ends_done hEnds hOpen] at hRaised
    cases hRaised
  | false =>
    cases statement with
    | begin =>
      unfold dispatch at hRaised ⊢
      simp only at hRaised ⊢
      split
      · exact ⟨db, hSame, .inl rfl⟩
      · rename_i hBegin
        rw [hBegin] at hRaised
        cases hRaised
    | read raises => exact ⟨db, hSame, .inl rfl⟩
    | createTable name firstPage pageSize check =>
      unfold dispatch at hRaised ⊢
      simp only at hRaised ⊢
      split at hRaised
      · rename_i hTaken
        rw [if_pos hTaken]
        exact ⟨db, hSame, .inl rfl⟩
      · cases hRaised
    | createIndex name build =>
      unfold dispatch at hRaised ⊢
      simp only at hRaised ⊢
      split
      · exact ⟨db, hSame, .inl rfl⟩
      · rename_i table hTable
        rw [hTable] at hRaised
        simp only at hRaised
        split
        · exact ⟨db, hSame, .inr rfl⟩
        · rename_i hBuild
          rw [hBuild] at hRaised
          cases hRaised
    | change table changes =>
      unfold dispatch changeRows
      simp only
      split
      · exact ⟨db, hSame, .inl rfl⟩
      · simp only [hActive]
        exact ⟨_, work_hidden (not_claimed db
          transaction.transactionId table false changes)
          below.pages, .inr rfl⟩
    | commit => cases hEnds
    | rollback => cases hEnds

end Dispatching

end Executor

end ChenDB
