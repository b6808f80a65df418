import ChenDB.Mvcc.Statements
import ChenDB.Transaction.Sessions

/-
  What one step of a statement does to the rows of its
  table, and the invariant of claimed rows: who has claimed a
  version holds its lock, and the version is still there.
-/

--
-- One Step of a Statement
--

namespace ChenDB

namespace Mvcc

open Storage (HeapFile Payload RecordId)
open Transaction (IsolationLevel OpenTransaction Timeline
  TransactionManager)
open Wal (noTransaction)

variable {ι ρ τ : Type}

/- What a statement of one transaction may do to the rows of
   a heap; `claimed` is the version it has claimed. -/
inductive Touches
    (xid : Nat)
    (claimed : RecordId → Version ρ → Prop) :
    (RecordId → Option (Version ρ)) →
      (RecordId → Option (Version ρ)) →
      List (Effect ρ) → Prop where
  | none {rows} : Touches xid claimed rows rows []
  | added {rows recordId values} :
      rows recordId = Option.none →
      Touches xid claimed rows
        (Function.update rows recordId
          (some ⟨⟨xid, noTransaction⟩, values⟩))
        [.added recordId values]
  | removed {rows recordId version} :
      claimed recordId version →
      Touches xid claimed rows
        (Function.update rows recordId
          (some (setXmax version xid)))
        [.removed recordId]
  | replaced {rows recordId version other values} :
      claimed recordId version →
      Function.update rows recordId
        (some (setXmax version xid)) other = Option.none →
      Touches xid claimed rows
        (Function.update
          (Function.update rows recordId
            (some (setXmax version xid))) other
          (some ⟨⟨xid, noTransaction⟩, values⟩))
        [.removed recordId, .added other values]

section Rows

variable [Payload ρ] {table : Table ρ τ} {locks : LockManager}
variable {statement : Statement ρ} {xid : Nat} {fresh : PageId}

/- The version a statement has claimed, and where it is. -/
def Statement.HasClaimed
    (statement : Statement ρ)
    (recordId : RecordId)
    (version : Version ρ) : Prop :=
  statement.phase = .claimed version ∧
    ∃ change rest, statement.todo = change :: rest ∧
      change.target = some recordId

theorem size_setXmax (version : Version ρ) (xid : Nat) :
    Payload.size (setXmax version xid) =
      Payload.size version := rfl

variable {recordId : RecordId} {version : Version ρ}

/- A version that is still there takes its new header. -/
theorem replace_claimed
    {heap : HeapFile (Version ρ)}
    (xid : Nat)
    (hGet : heap.get recordId = some version) :
    ∃ heap', heap.replace recordId (setXmax version xid) =
      .ok (heap', true) := by
  unfold HeapFile.get at hGet
  rcases Option.bind_eq_some_iff.mp hGet with
    ⟨page, hPage, hRead⟩
  have hSize : Payload.size version ≠ 0 := by
    simp [Payload.size, tupleHeaderSize]
  unfold HeapFile.replace
  simp only [hPage, Storage.Page.overwrite, hRead,
    size_setXmax, hSize, if_false, ne_eq, not_true]
  exact ⟨_, rfl⟩

variable {claimed : RecordId → Version ρ → Prop}
variable {hFresh : fresh ∉ table.heap.pageIds} {values : ρ}
variable {old : Located ρ}

theorem place_touches :
    Touches xid claimed table.heap.get
      (place table locks statement xid fresh hFresh values
        old).table.heap.get
      (place table locks statement xid fresh hFresh values
        old).effects := by
  unfold place
  split
  · exact .none
  · rename_i heap recordId hInsert
    rcases HeapFile.get_insert hInsert with ⟨hFree, hGet⟩
    simp only [hGet]
    exact .added hFree

omit [Payload ρ] in
theorem arrive_same
    (running : List Nat)
    (recordId : RecordId) :
    (arrive table locks statement running
        recordId).table = table ∧
      (arrive table locks statement running
        recordId).effects = [] := by
  unfold arrive
  split
  · exact ⟨rfl, rfl⟩
  · split <;> exact ⟨rfl, rfl⟩

omit [Payload ρ] in
theorem claim_same (recordId : RecordId) :
    (claim table locks statement xid
        recordId).table = table ∧
      (claim table locks statement xid
        recordId).effects = [] := by
  unfold claim
  split
  · exact ⟨rfl, rfl⟩
  · exact ⟨rfl, rfl⟩
  · split
    · exact ⟨rfl, rfl⟩
    · split <;> exact ⟨rfl, rfl⟩

omit [Payload ρ] in
theorem settleIn_same
    (recordId : RecordId)
    (row : ρ)
    (old : Located ρ) :
    (settleIn table locks statement xid recordId row
        old).table.heap = table.heap ∧
      (settleIn table locks statement xid recordId row
        old).effects = [] := by
  unfold settleIn
  split
  · exact ⟨rfl, rfl⟩
  · exact ⟨rfl, rfl⟩
  · exact ⟨rfl, rfl⟩

variable {other : Nat} {resource : ResourceId}

omit [Payload ρ] in
theorem claim_owns
    (hOwns : locks.Owns other resource) :
    (claim table locks statement xid recordId).locks.Owns
      other resource := by
  unfold claim
  split
  · exact hOwns
  · exact hOwns
  · rename_i granted hGranted
    have hKept := (LockManager.tryAcquire_owns
      hGranted).2 other resource hOwns
    split
    · exact hKept
    · split <;> exact hKept

variable {row : ρ}

omit [Payload ρ] in
theorem settleIn_owns
    (hOwns : locks.Owns other resource) :
    (settleIn table locks statement xid recordId row
      old).locks.Owns other resource := by
  unfold settleIn
  split
  · exact hOwns
  · exact hOwns
  · rename_i granted hGranted
    exact (LockManager.tryAcquire_owns hGranted).2 other
      resource hOwns

theorem deleteClaimed_touches
    (hGet : table.heap.get recordId = some version)
    (hClaimed : claimed recordId version) :
    Touches xid claimed table.heap.get
      (deleteClaimed table locks statement xid recordId
        version).table.heap.get
      (deleteClaimed table locks statement xid recordId
        version).effects := by
  rcases replace_claimed xid hGet with ⟨heap, hReplace⟩
  unfold deleteClaimed
  split
  · exact .none
  · simp only [hReplace]
    rw [HeapFile.get_replace hReplace]
    exact .removed hClaimed

theorem updateClaimed_touches
    (hGet : table.heap.get recordId = some version)
    (hClaimed : claimed recordId version)
    (values : ρ) :
    Touches xid claimed table.heap.get
      (updateClaimed table locks statement xid fresh hFresh
        recordId version values).table.heap.get
      (updateClaimed table locks statement xid fresh hFresh
        recordId version values).effects := by
  rcases replace_claimed xid hGet with ⟨heap, hReplace⟩
  unfold updateClaimed
  split
  · exact .none
  · split
    · rename_i raised hFails
      rw [hReplace] at hFails
      cases hFails
    · rename_i _ replaced _ hDone
      rw [hReplace] at hDone
      cases hDone
      have hMeaning := HeapFile.get_replace hReplace
      unfold place
      simp only
      split
      · simp only [stay]
        rw [hMeaning]
        exact .removed hClaimed
      · rename_i placed other hInsert
        rcases HeapFile.get_insert hInsert with ⟨hFree, hPlaced⟩
        simp only [hPlaced, hMeaning] at hFree ⊢
        exact .replaced hClaimed hFree

variable {running : List Nat} {change : Change ρ}
variable {rest : List (Change ρ)}

/- Whatever step a statement takes, it touches rows only as
   listed, once its claim stands. -/
theorem advanceRow_touches
    (hTodo : statement.todo = change :: rest)
    (hStands : ∀ recordId version,
      statement.HasClaimed recordId version →
        table.heap.get recordId = some version) :
    Touches xid statement.HasClaimed table.heap.get
      (advanceRow table locks statement running xid fresh
        hFresh change).table.heap.get
      (advanceRow table locks statement running xid fresh
        hFresh change).effects := by
  have hClaim : ∀ version recordId,
      statement.phase = .claimed version →
        change.target = some recordId →
          statement.HasClaimed recordId version :=
    fun version recordId hPhase hTarget =>
      ⟨hPhase, change, rest, hTodo, hTarget⟩
  unfold advanceRow
  split
  · split
    · exact .none
    · exact place_touches
  · rw [(arrive_same running _).1, (arrive_same running _).2]
    exact .none
  · rw [(arrive_same running _).1, (arrive_same running _).2]
    exact .none
  · rw [(claim_same _).1, (claim_same _).2]
    exact .none
  · rw [(claim_same _).1, (claim_same _).2]
    exact .none
  · rename_i version recordId hPhase
    have hClaimed := hClaim version recordId hPhase rfl
    exact deleteClaimed_touches
      (hStands _ _ hClaimed) hClaimed
  · rename_i version recordId values hPhase
    have hClaimed := hClaim version recordId hPhase rfl
    exact updateClaimed_touches
      (hStands _ _ hClaimed) hClaimed values
  · rw [(settleIn_same _ _ _).1, (settleIn_same _ _ _).2]
    exact .none
  · rw [(settleIn_same _ _ _).1, (settleIn_same _ _ _).2]
    exact .none
  · exact .none
  · exact .none
  · exact .none

/- No step takes a lock away from anybody. -/
theorem advanceRow_locks
    (hOwns : locks.Owns other resource) :
    (advanceRow table locks statement running xid fresh
      hFresh change).locks.Owns other resource := by
  unfold advanceRow
  split
  · split
    · exact hOwns
    · unfold place
      split <;> exact hOwns
  · unfold arrive
    split
    · exact hOwns
    · split <;> exact hOwns
  · unfold arrive
    split
    · exact hOwns
    · split <;> exact hOwns
  · exact claim_owns hOwns
  · exact claim_owns hOwns
  · unfold deleteClaimed
    split
    · exact hOwns
    · split <;> exact hOwns
  · unfold updateClaimed
    split
    · exact hOwns
    · split
      · exact hOwns
      · unfold place
        simp only
        split <;> exact hOwns
  · exact settleIn_owns hOwns
  · exact settleIn_owns hOwns
  · exact hOwns
  · exact hOwns
  · exact hOwns

/- What it takes for a statement to have claimed a row. -/
structure Stands
    (heap : HeapFile (Version ρ))
    (locks : LockManager)
    (table : String)
    (xid : Nat)
    (recordId : RecordId)
    (version : Version ρ) : Prop where
  live : heap.get recordId = some version
  undeleted : version.header.xmax = noTransaction
  locked : locks.Owns xid (rowResource table recordId)

omit [Payload ρ] in
theorem not_claimed_of_phase
    {statement : Statement ρ}
    (hPhase : ∀ version, statement.phase ≠ .claimed version) :
    ¬ statement.HasClaimed recordId version :=
  fun hClaimed => hPhase version hClaimed.1

variable {target : RecordId} {after : Statement ρ}

omit [Payload ρ] in
theorem claim_stands
    (hTodo : statement.todo = change :: rest)
    (hTarget : change.target = some target)
    (hPhase : statement.phase = .waiting)
    (hAfter : (claim table locks statement xid
      target).statement = some after)
    (hClaimed : after.HasClaimed recordId version) :
    Stands table.heap
      (claim table locks statement xid target).locks
      statement.table xid recordId version := by
  unfold claim at hAfter ⊢
  split at hAfter
  · cases hAfter
  · cases hAfter
    exact absurd hClaimed
      (not_claimed_of_phase (by simp [hPhase]))
  · rename_i granted hGranted
    split at hAfter
    · cases hAfter
      exact absurd hClaimed
        (not_claimed_of_phase (by simp [Statement.next]))
    · rename_i held hHeld
      split at hAfter
      · cases hAfter
        exact absurd hClaimed
          (not_claimed_of_phase (by simp [Statement.next]))
      · rename_i hDeleted
        cases hAfter
        rcases hClaimed with
          ⟨hVersion, first, others, hFirst, hHere⟩
        simp only [Statement.into, Phase.claimed.injEq]
          at hVersion
        simp only [Statement.into, hTodo, List.cons.injEq]
          at hFirst
        rw [← hFirst.1, hTarget, Option.some.injEq] at hHere
        subst hVersion hHere
        simp only [hDeleted, Bool.false_eq_true, if_false]
        refine ⟨hHeld, ?_, ?_⟩
        · simpa [deleted] using hDeleted
        · exact (LockManager.tryAcquire_owns hGranted).1

theorem place_not_claimed
    (hAfter : (place table locks statement xid fresh hFresh
      values old).statement = some after)
    (version : Version ρ) :
    after.phase ≠ .claimed version := by
  unfold place at hAfter
  split at hAfter
  · cases hAfter
  · cases hAfter
    simp [Statement.into]

omit [Payload ρ] in
theorem arrive_not_claimed
    (hAfter : (arrive table locks statement running
      target).statement = some after)
    (version : Version ρ) :
    after.phase ≠ .claimed version := by
  unfold arrive at hAfter
  split at hAfter
  · cases hAfter
    simp [Statement.next]
  · split at hAfter
    all_goals
      cases hAfter
      simp [Statement.next, Statement.into]

omit [Payload ρ] in
theorem settleIn_not_claimed
    (hPhase : ∀ version, statement.phase ≠ .claimed version)
    (hAfter : (settleIn table locks statement xid target row
      old).statement = some after)
    (version : Version ρ) :
    after.phase ≠ .claimed version := by
  unfold settleIn at hAfter
  split at hAfter
  · cases hAfter
  · cases hAfter
    exact hPhase version
  · simp only [stay] at hAfter
    split at hAfter
    · cases hAfter
    · cases hAfter
      simp [Statement.next]

variable {held : Version ρ}

theorem deleteClaimed_not_claimed
    (hAfter : (deleteClaimed table locks statement xid target
      held).statement = some after)
    (version : Version ρ) :
    after.phase ≠ .claimed version := by
  unfold deleteClaimed at hAfter
  split at hAfter
  · cases hAfter
  · split at hAfter
    · cases hAfter
    · cases hAfter
      simp [Statement.next]

theorem updateClaimed_not_claimed
    (hAfter : (updateClaimed table locks statement xid fresh
      hFresh target held values).statement = some after)
    (version : Version ρ) :
    after.phase ≠ .claimed version := by
  unfold updateClaimed at hAfter
  split at hAfter
  · cases hAfter
  · split at hAfter
    · cases hAfter
    · exact place_not_claimed hAfter version

/- A statement only ever claims a row whose lock it has and
   whose version is there and undeleted. -/
theorem advanceRow_stands
    (hTodo : statement.todo = change :: rest)
    (hAfter : (advanceRow table locks statement running xid
      fresh hFresh change).statement = some after)
    (hClaimed : after.HasClaimed recordId version) :
    Stands
      (advanceRow table locks statement running xid fresh
        hFresh change).table.heap
      (advanceRow table locks statement running xid fresh
        hFresh change).locks
      statement.table xid recordId version := by
  have hNot : ∀ {P : Prop},
      (∀ version, after.phase ≠ .claimed version) → P :=
    fun hPhase =>
      absurd hClaimed (not_claimed_of_phase hPhase)
  unfold advanceRow at hAfter ⊢
  cases hPhase : statement.phase with
  | arriving =>
    cases change with
    | insert values =>
      simp only [hPhase] at hAfter
      split at hAfter
      · cases hAfter
      · exact hNot (place_not_claimed hAfter)
    | delete target =>
      simp only [hPhase] at hAfter
      exact hNot (arrive_not_claimed hAfter)
    | update target values =>
      simp only [hPhase] at hAfter
      exact hNot (arrive_not_claimed hAfter)
  | waiting =>
    cases change with
    | insert values =>
      simp only [hPhase] at hAfter
      cases hAfter
      exact hNot (by simp [hPhase])
    | delete target =>
      simp only [hPhase] at hAfter ⊢
      rw [(claim_same _).1]
      exact claim_stands hTodo rfl hPhase hAfter hClaimed
    | update target values =>
      simp only [hPhase] at hAfter ⊢
      rw [(claim_same _).1]
      exact claim_stands hTodo rfl hPhase hAfter hClaimed
  | claimed held =>
    cases change with
    | insert values =>
      simp only [hPhase] at hAfter
      cases hAfter
      rcases hClaimed with ⟨_, first, others, hFirst, hTarget⟩
      rw [hTodo, List.cons.injEq] at hFirst
      rw [← hFirst.1] at hTarget
      cases hTarget
    | delete target =>
      simp only [hPhase] at hAfter
      exact hNot (deleteClaimed_not_claimed hAfter)
    | update target values =>
      simp only [hPhase] at hAfter
      exact hNot (updateClaimed_not_claimed hAfter)
  | placed target old =>
    have hPlaced : ∀ version,
        statement.phase ≠ .claimed version := by
      simp [hPhase]
    cases change with
    | insert values =>
      simp only [hPhase] at hAfter
      exact hNot (settleIn_not_claimed hPlaced hAfter)
    | delete recordId =>
      simp only [hPhase] at hAfter
      cases hAfter
      exact hNot hPlaced
    | update recordId values =>
      simp only [hPhase] at hAfter
      exact hNot (settleIn_not_claimed hPlaced hAfter)

theorem place_table
    (hAfter : (place table locks statement xid fresh hFresh
      values old).statement = some after) :
    after.table = statement.table := by
  unfold place at hAfter
  split at hAfter
  · cases hAfter
  · cases hAfter
    rfl

omit [Payload ρ] in
theorem arrive_table
    (hAfter : (arrive table locks statement running
      target).statement = some after) :
    after.table = statement.table := by
  unfold arrive at hAfter
  split at hAfter
  · cases hAfter
    rfl
  · split at hAfter
    all_goals
      cases hAfter
      rfl

omit [Payload ρ] in
theorem claim_table
    (hAfter : (claim table locks statement xid
      target).statement = some after) :
    after.table = statement.table := by
  unfold claim at hAfter
  split at hAfter
  · cases hAfter
  · cases hAfter
    rfl
  · split at hAfter
    · cases hAfter
      rfl
    · split at hAfter
      all_goals
        cases hAfter
        rfl

omit [Payload ρ] in
theorem settleIn_table
    (hAfter : (settleIn table locks statement xid target row
      old).statement = some after) :
    after.table = statement.table := by
  unfold settleIn at hAfter
  split at hAfter
  · cases hAfter
  · cases hAfter
    rfl
  · simp only [stay] at hAfter
    split at hAfter
    · cases hAfter
    · cases hAfter
      rfl

/- A statement stays with its table. -/
theorem advanceRow_table
    (hAfter : (advanceRow table locks statement running xid
      fresh hFresh change).statement = some after) :
    after.table = statement.table := by
  unfold advanceRow at hAfter
  split at hAfter
  · split at hAfter
    · cases hAfter
    · exact place_table hAfter
  · exact arrive_table hAfter
  · exact arrive_table hAfter
  · exact claim_table hAfter
  · exact claim_table hAfter
  · unfold deleteClaimed at hAfter
    split at hAfter
    · cases hAfter
    · split at hAfter
      · cases hAfter
      · cases hAfter
        rfl
  · unfold updateClaimed at hAfter
    split at hAfter
    · cases hAfter
    · split at hAfter
      · cases hAfter
      · exact place_table hAfter
  · exact settleIn_table hAfter
  · exact settleIn_table hAfter
  · cases hAfter
    rfl
  · cases hAfter
    rfl
  · cases hAfter
    rfl

end Rows

/- A row nobody here has claimed stays as it is. -/
theorem Touches.other
    {xid : Nat}
    {claimed : RecordId → Version ρ → Prop}
    {rows rows' : RecordId → Option (Version ρ)}
    {effects : List (Effect ρ)}
    (hTouches : Touches xid claimed rows rows' effects)
    {recordId : RecordId}
    {version : Version ρ}
    (hLive : rows recordId = some version)
    (hFree : ∀ version, ¬ claimed recordId version) :
    rows' recordId = some version := by
  cases hTouches with
  | none => exact hLive
  | added hNone =>
    rw [Function.update_of_ne]
    · exact hLive
    · intro hSame
      rw [hSame, hNone] at hLive
      cases hLive
  | removed hClaimed =>
    rw [Function.update_of_ne]
    · exact hLive
    · intro hSame
      rw [← hSame] at hClaimed
      exact hFree _ hClaimed
  | replaced hClaimed hNone =>
    rename_i target held other values
    have hTarget : recordId ≠ target := by
      intro hSame
      rw [← hSame] at hClaimed
      exact hFree _ hClaimed
    have hOther : recordId ≠ other := by
      intro hSame
      rw [← hSame, Function.update_of_ne hTarget, hLive]
        at hNone
      cases hNone
    rw [Function.update_of_ne hOther,
      Function.update_of_ne hTarget]
    exact hLive

--
-- Sound Databases
--

namespace Db

/- Every claimed row is still there, undeleted, and locked
   by the transaction that claimed it. -/
structure Sound (db : Db ι ρ τ) : Prop where
  manager : db.manager.Sound
  claims : ∀ session statement,
    db.pending session = some statement →
    ∀ recordId version,
      statement.HasClaimed recordId version →
      ∃ transaction table,
        db.manager.activeIn session = some transaction ∧
        db.tables statement.table = some table ∧
        Stands table.heap db.locks statement.table
          transaction.transactionId recordId version

/- Where a run may start: transactions have come and gone
   in any order, and the statements that are under way wait
   for a lock. -/
structure Starts (db : Db ι ρ τ) : Prop where
  reached : ∃ frozenXid operations,
    db.manager = ((Timeline.start frozenXid :
      Timeline ι).run operations).manager
  waiting : ∀ session statement,
    db.pending session = some statement →
      ∀ version, statement.phase ≠ .claimed version

variable {db : Db ι ρ τ}

theorem Starts.sound
    (hStarts : db.Starts) : db.Sound where
  manager := by
    rcases hStarts.reached with ⟨frozenXid, operations, hRun⟩
    rw [hRun]
    exact Timeline.run_sound
      (Transaction.create_sound frozenXid) operations
  claims := by
    intro session statement hPending recordId version
      hClaimed
    exact absurd hClaimed.1
      (hStarts.waiting session statement hPending version)

/- Claims stand while no statement moves, no claimant ends,
   and no undeleted row changes. -/
theorem Sound.frame
    (hSound : db.Sound)
    (db' : Db ι ρ τ)
    (hManager : db'.manager.Sound)
    (hPending : ∀ session statement,
      db'.pending session = some statement →
        db.pending session = some statement)
    (hActive : ∀ session statement,
      db'.pending session = some statement →
      ∀ transaction,
        db.manager.activeIn session = some transaction →
        ∃ after,
          db'.manager.activeIn session = some after ∧
          after.transactionId = transaction.transactionId ∧
          ∀ resource,
            db.locks.Owns transaction.transactionId
                resource →
              db'.locks.Owns transaction.transactionId
                resource)
    (hTables : ∀ name table, db.tables name = some table →
      ∃ table', db'.tables name = some table' ∧
        ∀ recordId version,
          table.heap.get recordId = some version →
          version.header.xmax = noTransaction →
            table'.heap.get recordId = some version) :
    db'.Sound where
  manager := hManager
  claims := by
    intro session statement hStatement recordId version
      hClaimed
    rcases hSound.claims session statement
      (hPending session statement hStatement) recordId
      version hClaimed with
        ⟨transaction, table, hOpen, hTable, hStands⟩
    rcases hActive session statement hStatement transaction
      hOpen with ⟨after, hAfter, hId, hLocks⟩
    rcases hTables _ table hTable with ⟨table', hTable', hKeeps⟩
    refine ⟨after, table', hAfter, hTable', ?_⟩
    rw [hId]
    exact ⟨hKeeps recordId version hStands.live
      hStands.undeleted, hStands.undeleted,
      hLocks _ hStands.locked⟩

section Steps

variable {db : Db ι ρ τ}

variable {session : String}

theorem commitIn_sound
    (hSound : db.Sound)
    (hIdle : db.pending session = none) :
    (db.commitIn session).Sound := by
  unfold commitIn
  cases hCommit : db.manager.commit session with
  | error raised => exact hSound
  | ok result =>
    rcases result with ⟨manager, transaction⟩
    rcases Transaction.commit_cases hCommit with
      ⟨hEnded, _, hManager⟩
    apply hSound.frame
    · rw [hManager]
      exact Transaction.retire_sound hSound.manager session
    · exact fun _ _ h => h
    · intro other statement hPending held hHeld
      have hOther : other ≠ session := by
        intro hSame
        rw [hSame, hIdle] at hPending
        cases hPending
      refine ⟨held, ?_, rfl, ?_⟩
      · rw [hManager, Transaction.activeIn_retire,
          if_neg hOther]
        exact hHeld
      · intro resource hOwns
        apply LockManager.releaseAll_owns _ hOwns
        intro hSame
        exact hOther (Transaction.session_of_id hHeld
          hEnded hSame)
    · exact fun name table hTable =>
        ⟨table, hTable, fun _ _ hGet _ => hGet⟩

theorem finish_sound
    (hSound : db.Sound)
    (session : String)
    (statement : Statement ρ) :
    (db.finish session statement).Sound := by
  have hDone : ({ db with
      pending := Function.update db.pending session
        none } : Db ι ρ τ).Sound := by
    apply hSound.frame
    · exact hSound.manager
    · intro other held hPending
      simp only [Function.update_apply] at hPending
      split at hPending
      · cases hPending
      · exact hPending
    · exact fun _ _ _ transaction hActive =>
        ⟨transaction, hActive, rfl, fun _ h => h⟩
    · exact fun name table hTable =>
        ⟨table, hTable, fun _ _ hGet _ => hGet⟩
  unfold finish
  simp only
  split
  · apply commitIn_sound hDone
    simp
  · exact hDone

theorem fail_sound
    (hSound : db.Sound)
    (session : String) :
    (db.fail session).Sound := by
  apply hSound.frame
  · exact Transaction.markFailed_sound hSound.manager session
  · intro other held hPending
    simp only [fail, Function.update_apply] at hPending
    split at hPending
    · cases hPending
    · exact hPending
  · intro other _ _ transaction hActive
    refine ⟨_, (Transaction.activeIn_markFailed
      session).trans (congrArg _ hActive), ?_,
      fun _ h => h⟩
    split <;> rfl
  · exact fun name table hTable =>
      ⟨table, hTable, fun _ _ hGet _ => hGet⟩

theorem begin_sound
    (hSound : db.Sound)
    {manager : TransactionManager ι}
    {implicit : Bool}
    {isolation : IsolationLevel}
    (hBegin : db.manager.begin implicit session isolation =
      .ok manager) :
    ({ db with manager := manager } : Db ι ρ τ).Sound := by
  apply hSound.frame
  · exact Transaction.begin_sound hSound.manager hBegin
  · exact fun _ _ h => h
  · intro other _ _ transaction hActive
    rcases Transaction.activeIn_begin hBegin hActive with
      ⟨after, hAfter, hId, _⟩
    exact ⟨after, hAfter, hId, fun _ h => h⟩
  · exact fun name table hTable =>
      ⟨table, hTable, fun _ _ hGet _ => hGet⟩

/- A statement that has just started has claimed nothing. -/
theorem issue_sound
    (hSound : db.Sound)
    (session table : String)
    (changes : List (Change ρ)) :
    (db.issue session table changes).Sound := by
  unfold issue
  split
  · exact hSound
  · cases hBegin : db.manager.begin true session
        Transaction.defaultIsolation with
    | error raised => exact hSound
    | ok manager =>
      have hBegun := begin_sound hSound hBegin
      constructor
      · exact hBegun.manager
      · intro other statement hPending recordId version
          hClaimed
        simp only [Function.update_apply] at hPending
        split at hPending
        · cases hPending
          cases hClaimed.1
        · exact hBegun.claims other statement hPending
            recordId version hClaimed

theorem scan_sound
    (hSound : db.Sound)
    (session : String) :
    ({ db with
      manager := (db.manager.snapshotIn session).1 } :
        Db ι ρ τ).Sound := by
  apply hSound.frame
  · exact Transaction.snapshotIn_sound hSound.manager session
  · exact fun _ _ h => h
  · intro other _ _ transaction hActive
    rcases Transaction.activeIn_snapshotIn session hActive
      with ⟨after, hAfter, hId, _⟩
    exact ⟨after, hAfter, hId, fun _ h => h⟩
  · exact fun name table hTable =>
      ⟨table, hTable, fun _ _ hGet _ => hGet⟩

theorem vacuumTables_sound
    (hSound : db.Sound)
    (names : String → Bool) :
    (db.vacuumTables names).Sound := by
  apply hSound.frame
  · exact hSound.manager
  · exact fun _ _ h => h
  · exact fun _ _ _ transaction hActive =>
      ⟨transaction, hActive, rfl, fun _ h => h⟩
  · intro name table hTable
    simp only [vacuumTables, hTable, Option.map_some]
    refine ⟨_, rfl, fun recordId version hGet hLive => ?_⟩
    split
    · simp [get_vacuumHeap hGet, isDead, deleted, hLive]
    · exact hGet

/- A statement's step at a row, with what it goes by. -/
structure Steps [Payload ρ]
    (db : Db ι ρ τ)
    (session : String)
    (statement : Statement ρ)
    (transaction : OpenTransaction ι)
    (table : Table ρ τ)
    (progress : Progress ρ τ) : Prop where
  pending : db.pending session = some statement
  active : db.manager.activeIn session = some transaction
  found : db.tables statement.table = some table
  step : ∃ change rest fresh hFresh,
    statement.todo = change :: rest ∧
      progress = advanceRow table db.locks statement
        db.manager.runningIds transaction.transactionId
        fresh hFresh change

theorem advance_cases [Payload ρ]
    (db : Db ι ρ τ)
    (session : String)
    (fresh : PageId) :
    db.advance session fresh = (db, []) ∨
    (∃ statement,
      db.pending session = some statement ∧
      statement.todo = [] ∧
      db.advance session fresh =
        (db.finish session statement, [])) ∨
    ∃ statement transaction table progress,
      db.Steps session statement transaction table
        progress ∧
      db.advance session fresh =
        (db.keep session statement.table progress,
          progress.effects.map fun effect =>
            ⟨statement.table, transaction.transactionId,
              effect⟩) := by
  unfold advance
  split
  · rename_i statement transaction hPending hActive
    split
    · rename_i hTodo
      exact .inr (.inl ⟨statement, hPending, hTodo, rfl⟩)
    · rename_i change rest hTodo
      split
      · exact .inl rfl
      · rename_i table hTable
        split
        · exact .inl rfl
        · rename_i hFresh
          exact .inr (.inr ⟨statement, transaction,
            table, _, ⟨hPending, hActive, hTable, change,
              rest, fresh, hFresh, hTodo, rfl⟩, rfl⟩)
  · exact .inl rfl

section Keep

variable [Payload ρ] {session : String}
variable {statement : Statement ρ}
variable {transaction : OpenTransaction ι} {table : Table ρ τ}
variable {progress : Progress ρ τ}

/- What the step touches, by rows it has claimed. -/
theorem Steps.touches
    (hSteps : db.Steps session statement transaction table
      progress)
    (hSound : db.Sound) :
    Touches transaction.transactionId statement.HasClaimed
      table.heap.get progress.table.heap.get
        progress.effects := by
  rcases hSteps.step with
    ⟨change, rest, fresh, hFresh, hTodo, rfl⟩
  apply advanceRow_touches hTodo
  intro recordId version hClaimed
  rcases hSound.claims session statement hSteps.pending
    recordId version hClaimed with
      ⟨_, found, _, hFound, hStands⟩
  rw [hSteps.found, Option.some.injEq] at hFound
  rw [hFound]
  exact hStands.live

/- What another session has claimed stays claimed. -/
theorem Steps.others
    (hSteps : db.Steps session statement transaction table
      progress)
    (hSound : db.Sound)
    {other : String}
    (hOther : other ≠ session)
    {held : Statement ρ}
    (hPending : db.pending other = some held)
    {recordId : RecordId}
    {version : Version ρ}
    (hClaimed : held.HasClaimed recordId version) :
    ∃ owner found,
      db.manager.activeIn other = some owner ∧
      Function.update db.tables statement.table
        (some progress.table) held.table = some found ∧
      Stands found.heap progress.locks held.table
        owner.transactionId recordId version := by
  rcases hSound.claims other held hPending recordId version
    hClaimed with
      ⟨owner, found, hOwner, hFound, hStands⟩
  have hLocked : progress.locks.Owns owner.transactionId
      (rowResource held.table recordId) := by
    rcases hSteps.step with
      ⟨change, rest, fresh, hFresh, hTodo, rfl⟩
    exact advanceRow_locks hStands.locked
  by_cases hTable : held.table = statement.table
  · rw [hTable, hSteps.found, Option.some.injEq] at hFound
    refine ⟨owner, progress.table, hOwner, by simp [hTable],
      ?_, hStands.undeleted, hLocked⟩
    apply (hSteps.touches hSound).other
    · rw [hFound]
      exact hStands.live
    · intro mine hMine
      rcases hSound.claims session statement hSteps.pending
        recordId mine hMine with
          ⟨self, _, hSelf, _, hOwn⟩
      have hSame := LockManager.Owns.unique hStands.locked
        (hTable ▸ hOwn.locked)
      exact hOther (Transaction.session_of_id hOwner hSelf
        hSame)
  · refine ⟨owner, found, hOwner, ?_, hStands.live,
      hStands.undeleted, hLocked⟩
    rw [Function.update_of_ne hTable]
    exact hFound

theorem keep_sound
    (hSteps : db.Steps session statement transaction table
      progress)
    (hSound : db.Sound) :
    (db.keep session statement.table progress).Sound := by
  unfold keep
  simp only
  cases hAfter : progress.statement with
  | none =>
    constructor
    · exact Transaction.markFailed_sound hSound.manager
        session
    · intro other held hPending recordId version hClaimed
      simp only [fail, Function.update_apply] at hPending
      split at hPending
      · cases hPending
      · rename_i hOther
        rcases hSteps.others hSound hOther hPending
          hClaimed with
            ⟨owner, found, hOwner, hFound, hStands⟩
        refine ⟨_, found, (Transaction.activeIn_markFailed
          session).trans (congrArg _ hOwner), hFound, ?_⟩
        simp only [hOther, if_false]
        exact hStands
  | some after =>
    constructor
    · exact hSound.manager
    · intro other held hPending recordId version hClaimed
      simp only [Function.update_apply] at hPending
      split at hPending
      · rename_i hSame
        cases hPending
        rw [hSame]
        rcases hSteps.step with
          ⟨change, rest, fresh, hFresh, hTodo, hProgress⟩
        rw [hProgress] at hAfter
        have hTable := advanceRow_table hAfter
        have hStands := advanceRow_stands hTodo hAfter hClaimed
        rw [← hProgress] at hStands
        refine ⟨transaction, progress.table,
          hSteps.active, ?_, ?_⟩
        · rw [hTable]
          exact Function.update_self _ _ _
        · rw [hTable]
          exact hStands
      · rename_i hOther
        exact hSteps.others hSound hOther hPending hClaimed

theorem advance_sound
    (hSound : db.Sound)
    (session : String)
    (fresh : PageId) :
    (db.advance session fresh).1.Sound := by
  rcases advance_cases db session fresh with
    hSame | ⟨statement, _, _, hFinish⟩ |
      ⟨statement, transaction, table, progress, hSteps, hKeep⟩
  · rw [hSame]
    exact hSound
  · rw [hFinish]
    exact finish_sound hSound session statement
  · rw [hKeep]
    exact keep_sound hSteps hSound

theorem step_sound
    (hSound : db.Sound)
    (event : Event ρ) :
    (db.step event).1.Sound := by
  cases event with
  | begin session implicit isolation =>
    unfold step
    simp only
    split
    · exact hSound
    · split
      · exact hSound
      · rename_i manager hBegin
        exact begin_sound hSound hBegin
  | issue session table changes =>
    unfold step
    simp only
    split
    · exact hSound
    · exact issue_sound hSound session table changes
  | advance session fresh =>
    exact advance_sound hSound session fresh
  | giveUp session =>
    unfold step
    simp only
    split
    · exact fail_sound hSound session
    · exact hSound
  | commit session =>
    unfold step
    simp only
    split
    · exact hSound
    · rename_i hIdle
      apply commitIn_sound hSound
      simpa using hIdle
  | scan session =>
    unfold step
    simp only
    split
    · exact hSound
    · exact scan_sound hSound session
  | vacuum names => exact vacuumTables_sound hSound names

end Keep

end Steps

end Db

end Mvcc

end ChenDB
