import ChenDB.Mvcc.Runs

/-
  No lost updates: a row version is superseded at most once,
  by the transaction that claimed it, and a writer that comes
  too late changes nothing.
-/

--
-- One Row over a Step
--

namespace ChenDB

namespace Mvcc

open Storage (Payload RecordId)
open Transaction (OpenTransaction)
open Wal (noTransaction)

variable {ι ρ τ : Type}
variable {xid : Nat}

/- Two traces supersede the same version. -/
def SameVersion (first second : Trace ρ) : Prop :=
  first.table = second.table ∧
    ∃ recordId, first.effect = .removed recordId ∧
      second.effect = .removed recordId

section Rows

variable {claimed : RecordId → Version ρ → Prop}
variable {rows rows' : RecordId → Option (Version ρ)}
variable {effects : List (Effect ρ)}

/- A version stays as it is, or is the one claimed. -/
theorem Touches.row
    (hTouches : Touches xid claimed rows rows' effects)
    (hLive : ∀ recordId version,
      claimed recordId version → rows recordId = some version)
    {recordId : RecordId}
    {version : Version ρ}
    (hRow : rows recordId = some version) :
    (rows' recordId = some version ∧
      .removed recordId ∉ effects) ∨
    (claimed recordId version ∧
      rows' recordId = some (setXmax version xid)) := by
  cases hTouches with
  | none => exact .inl ⟨hRow, by simp⟩
  | added hNone =>
    left
    refine ⟨?_, by simp⟩
    rw [Function.update_of_ne]
    · exact hRow
    · intro hSame
      rw [hSame, hNone] at hRow
      cases hRow
  | removed hClaimed =>
    rename_i target held
    by_cases hSame : recordId = target
    · right
      subst hSame
      have hHeld := hLive _ _ hClaimed
      rw [hRow, Option.some.injEq] at hHeld
      rw [hHeld]
      exact ⟨hClaimed, Function.update_self _ _ _⟩
    · left
      rw [Function.update_of_ne hSame]
      exact ⟨hRow, by simp [hSame]⟩
  | replaced hClaimed hNone =>
    rename_i target held other values
    have hOther : recordId ≠ other := by
      intro hThere
      rw [← hThere, Function.update_apply] at hNone
      split at hNone
      · cases hNone
      · rw [hRow] at hNone
        cases hNone
    rw [Function.update_of_ne hOther]
    by_cases hSame : recordId = target
    · right
      subst hSame
      have hHeld := hLive _ _ hClaimed
      rw [hRow, Option.some.injEq] at hHeld
      rw [hHeld]
      exact ⟨hClaimed, Function.update_self _ _ _⟩
    · left
      rw [Function.update_of_ne hSame]
      exact ⟨hRow, by simp [hSame]⟩

/- One step supersedes one version at most, which it leaves
   stamped. -/
theorem Touches.once
    (hTouches : Touches xid claimed rows rows' effects) :
    (effects.Pairwise fun first second =>
      ∀ recordId, first = .removed recordId →
        second ≠ .removed recordId) ∧
    ∀ recordId, .removed recordId ∈ effects →
      ∃ version, claimed recordId version := by
  cases hTouches with
  | none => simp
  | added hNone => simp
  | removed hClaimed =>
    simp only [List.pairwise_singleton,
      List.mem_singleton, Effect.removed.injEq, true_and]
    intro recordId hSame
    rw [hSame]
    exact ⟨_, hClaimed⟩
  | replaced hClaimed hNone =>
    constructor
    · simp
    · intro recordId hMem
      simp only [List.mem_cons, Effect.removed.injEq,
        reduceCtorEq, List.not_mem_nil, or_self, or_false]
        at hMem
      rw [hMem]
      exact ⟨_, hClaimed⟩

end Rows

/- A session's statement has claimed the version at an
   address. -/
structure Claims
    (db : Db ι ρ τ)
    (session table : String)
    (xid : Nat)
    (recordId : RecordId)
    (version : Version ρ) : Prop where
  pending : ∃ statement,
    db.pending session = some statement ∧
      statement.table = table ∧
      statement.HasClaimed recordId version
  active : ∃ transaction,
    db.manager.activeIn session = some transaction ∧
      transaction.transactionId = xid

section Steps

variable [Payload ρ] {db : Db ι ρ τ} {event : Event ρ}
variable {name : String} {recordId : RecordId}
variable {version : Version ρ}
variable {session : String}

omit [Payload ρ] in
theorem Claims.stands
    (hClaims : Claims db session name xid recordId version)
    (hSound : db.Sound) :
    db.rows name recordId = some version ∧
      version.header.xmax = noTransaction ∧
      db.locks.Owns xid (rowResource name recordId) ∧
      xid ≠ noTransaction := by
  rcases hClaims.pending with
    ⟨statement, hPending, hTable, hClaimed⟩
  rcases hClaims.active with ⟨transaction, hActive, hId⟩
  rcases hSound.claims session statement hPending recordId
    version hClaimed with
      ⟨owner, table, hOwner, hFound, hStands⟩
  rw [hActive, Option.some.injEq] at hOwner
  rw [← hOwner, hId, hTable] at hStands
  have hBounds := Transaction.runningIds_bounds
    (Transaction.mem_runningIds_of_activeIn hActive)
  rw [hId] at hBounds
  refine ⟨?_, hStands.undeleted, hStands.locked,
    Nat.pos_iff_ne_zero.mp hBounds.1⟩
  unfold Db.rows
  rw [← hTable, hFound]
  exact hStands.live

/- What an event does to one version: nothing, or a session
   that has claimed it stamps it. -/
theorem step_row
    (hSound : db.Sound)
    (hWrites : event.isVacuum = false)
    (hRow : db.rows name recordId = some version) :
    ((db.step event).1.rows name recordId = some version ∧
      ∀ trace ∈ (db.step event).2, trace.table = name →
        trace.effect ≠ .removed recordId) ∨
    (∃ session xid,
      Claims db session name xid recordId version ∧
      (db.step event).1.rows name recordId =
        some (setXmax version xid) ∧
      ∀ trace ∈ (db.step event).2, trace.xid = xid) := by
  have hRows := Db.step_rows hSound event name
  generalize (db.step event).1.rows name = rows at hRows
  generalize (db.step event).2 = traces at hRows
  cases hRows with
  | same hElsewhere =>
    exact .inl ⟨hRow, fun trace hMem hTable =>
      absurd hTable (hElsewhere trace hMem)⟩
  | touched hPending hActive hTable hSome hTouches =>
    rename_i session statement transaction effects
    have hLive : ∀ recordId version,
        statement.HasClaimed recordId version →
          db.rows name recordId = some version := by
      intro recordId version hClaimed
      have hClaims : Claims db session name
          transaction.transactionId recordId version :=
        ⟨⟨statement, hPending, hTable, hClaimed⟩,
          ⟨transaction, hActive, rfl⟩⟩
      exact (hClaims.stands hSound).1
    rcases hTouches.row hLive hRow with
      ⟨hSame, hNot⟩ | ⟨hClaimed, hStamped⟩
    · left
      refine ⟨hSame, fun trace hMem _ hRemoved => ?_⟩
      rcases List.mem_map.mp hMem with ⟨effect, hEffect, rfl⟩
      exact hNot (hRemoved ▸ hEffect)
    · right
      refine ⟨session, transaction.transactionId,
        ⟨⟨statement, hPending, hTable, hClaimed⟩,
          ⟨transaction, hActive, rfl⟩⟩, hStamped, ?_⟩
      intro trace hMem
      rcases List.mem_map.mp hMem with ⟨_, _, rfl⟩
      rfl
  | vacuumed hVacuum =>
    rw [hWrites] at hVacuum
    cases hVacuum

/- A superseded version is never touched again. -/
theorem step_deleted
    (hSound : db.Sound)
    (hWrites : event.isVacuum = false)
    (hRow : db.rows name recordId = some version)
    (hDeleted : version.header.xmax ≠ noTransaction) :
    (db.step event).1.rows name recordId = some version ∧
      ∀ trace ∈ (db.step event).2, trace.table = name →
        trace.effect ≠ .removed recordId := by
  rcases step_row hSound hWrites hRow with
    hSame | ⟨session, xid, hClaims, _⟩
  · exact hSame
  · exact absurd (hClaims.stands hSound).2.1 hDeleted

/- Whatever a step supersedes is stamped when it is done, and
   superseded once. -/
theorem step_once
    (hSound : db.Sound)
    (hWrites : event.isVacuum = false) :
    ((db.step event).2.Pairwise fun first second =>
      ¬ SameVersion first second) ∧
    ∀ trace ∈ (db.step event).2, ∀ recordId,
      trace.effect = .removed recordId →
        ∃ version, version.header.xmax ≠ noTransaction ∧
          (db.step event).1.rows trace.table recordId =
            some version := by
  have hTraces : ∀ trace ∈ (db.step event).2, ∀ recordId,
      trace.effect = .removed recordId →
        ∃ session xid version, Claims db session trace.table
          xid recordId version := by
    intro trace hMem recordId hRemoved
    have hRows := Db.step_rows hSound event trace.table
    generalize (db.step event).1.rows trace.table =
      rows at hRows
    generalize (db.step event).2 = traces at hRows hMem
    cases hRows with
    | same hElsewhere =>
      exact absurd rfl (hElsewhere trace hMem)
    | touched hPending hActive hTable hSome hTouches =>
      rename_i session statement transaction effects
      rcases List.mem_map.mp hMem with ⟨effect, hEffect, hTrace⟩
      have hSame : effect = .removed recordId :=
        (congrArg Trace.effect hTrace).trans hRemoved
      rw [hSame] at hEffect
      rcases hTouches.once.2 recordId hEffect with
        ⟨version, hClaimed⟩
      exact ⟨session, transaction.transactionId, version,
        ⟨statement, hPending, hTable, hClaimed⟩,
          ⟨transaction, hActive, rfl⟩⟩
    | vacuumed hVacuum => cases hMem
  constructor
  · cases hFirst : (db.step event).2 with
    | nil => exact List.Pairwise.nil
    | cons first rest =>
      have hRows := Db.step_rows hSound event first.table
      rw [hFirst] at hRows
      generalize (db.step event).1.rows first.table =
        rows at hRows
      generalize hAll : first :: rest = traces at hRows ⊢
      cases hRows with
      | same hElsewhere =>
        rw [← hAll] at hElsewhere
        exact absurd rfl
          (hElsewhere first (.head _))
      | touched hPending hActive hTable hSome hTouches =>
        rw [List.pairwise_map]
        apply hTouches.once.1.imp
        intro earlier later hApart hSame
        rcases hSame.2 with ⟨recordId, hEarlier, hLater⟩
        exact hApart recordId hEarlier hLater
      | vacuumed hVacuum => exact List.Pairwise.nil
  · intro trace hMem recordId hRemoved
    rcases hTraces trace hMem recordId hRemoved with
      ⟨session, xid, version, hClaims⟩
    rcases hClaims.stands hSound with ⟨hRow, _, _, _⟩
    rcases step_row hSound hWrites hRow with
      ⟨_, hNot⟩ | ⟨other, stamp, hOther, hStamped, _⟩
    · exact absurd hRemoved (hNot trace hMem rfl)
    · exact ⟨setXmax version stamp,
        (hOther.stands hSound).2.2.2, hStamped⟩

--
-- Runs
--

variable {events : List (Event ρ)}

theorem run_deleted
    (hSound : db.Sound)
    (hWrites : ∀ event ∈ events, event.isVacuum = false)
    (hRow : db.rows name recordId = some version)
    (hDeleted : version.header.xmax ≠ noTransaction) :
    (db.run events).1.rows name recordId = some version ∧
      ∀ trace ∈ (db.run events).2, trace.table = name →
        trace.effect ≠ .removed recordId := by
  induction events generalizing db with
  | nil => exact ⟨hRow, by simp [Db.run]⟩
  | cons event rest ih =>
    rcases step_deleted hSound
      (hWrites event (.head _)) hRow hDeleted with
        ⟨hNext, hFirst⟩
    rcases ih (Db.step_sound hSound event)
      (fun later hLater =>
        hWrites later (.tail _ hLater))
      hNext with ⟨hFinal, hRest⟩
    refine ⟨hFinal, fun trace hMem => ?_⟩
    rcases List.mem_append.mp hMem with hHere | hThere
    · exact hFirst trace hHere
    · exact hRest trace hThere

/- Over a run, no version is superseded twice. -/
theorem run_once
    (hSound : db.Sound)
    (hWrites : ∀ event ∈ events, event.isVacuum = false) :
    (db.run events).2.Pairwise fun first second =>
      ¬ SameVersion first second := by
  induction events generalizing db with
  | nil => exact List.Pairwise.nil
  | cons event rest ih =>
    have hEvent := hWrites event (.head _)
    have hRest : ∀ later ∈ rest, later.isVacuum = false :=
      fun later hLater =>
        hWrites later (.tail _ hLater)
    have hNext := Db.step_sound hSound event
    rcases step_once hSound hEvent with ⟨hFirst, hStamped⟩
    apply List.pairwise_append.mpr
    refine ⟨hFirst, ih hNext hRest, ?_⟩
    intro earlier hEarlier later hLater hSame
    rcases hSame with ⟨hTable, recordId, hGone, hAgain⟩
    rcases hStamped earlier hEarlier recordId hGone with
      ⟨version, hDeleted, hRow⟩
    exact (run_deleted hNext hRest hRow hDeleted).2 later
      hLater hTable.symm hAgain

--
-- Claimed Versions
--

variable {table : Table ρ τ} {statement : Statement ρ}
variable {fresh : PageId} {change : Change ρ}

/- A statement that has claimed a version stamps it with its
   next step, or raises. -/
theorem advanceRow_claimed
    {locks : LockManager}
    {running : List Nat}
    {hFresh : fresh ∉ table.heap.pageIds}
    {rest : List (Change ρ)}
    (hTodo : statement.todo = change :: rest)
    (hClaimed : statement.HasClaimed recordId version)
    (hGet : table.heap.get recordId = some version) :
    (advanceRow table locks statement running xid fresh
        hFresh change).statement = none ∨
      .removed recordId ∈
        (advanceRow table locks statement running xid fresh
          hFresh change).effects := by
  rcases hClaimed with ⟨hPhase, first, others, hFirst, hTarget⟩
  rw [hTodo, List.cons.injEq] at hFirst
  rw [← hFirst.1] at hTarget
  rcases replace_claimed xid hGet with ⟨heap, hReplace⟩
  unfold advanceRow
  cases change with
  | insert values => cases hTarget
  | delete target =>
    cases hTarget
    simp only [hPhase]
    unfold deleteClaimed
    split
    · exact .inl rfl
    · right
      simp only [hReplace]
      exact .head _
  | update target values =>
    cases hTarget
    simp only [hPhase]
    unfold updateClaimed
    split
    · exact .inl rfl
    · split
      · exact .inl rfl
      · exact .inr (.head _)

/- A session's transaction has a version under its lock,
   and its statement is at it or has raised. -/
structure Holds
    (db : Db ι ρ τ)
    (session name : String)
    (xid : Nat)
    (recordId : RecordId)
    (version : Version ρ) : Prop where
  locked : db.locks.Owns xid (rowResource name recordId)
  active : ∃ transaction,
    db.manager.activeIn session = some transaction ∧
      transaction.transactionId = xid ∧
      (transaction.state = .failed ∨
        ∃ statement,
          db.pending session = some statement ∧
          statement.table = name ∧
          statement.HasClaimed recordId version)

section Holders

variable {transaction after : OpenTransaction ι}

omit [Payload ρ] in
theorem commitIn_keeps
    (hActive :
      db.manager.activeIn session = some transaction)
    {ended : String}
    (hKept : ended ≠ session ∨ transaction.state = .failed) :
    (db.commitIn ended).manager.activeIn session =
        some transaction ∧
      (∀ resource,
        db.locks.Owns transaction.transactionId resource →
          (db.commitIn ended).locks.Owns
            transaction.transactionId resource) ∧
      (db.commitIn ended).pending = db.pending := by
  unfold Db.commitIn
  cases hCommit : db.manager.commit ended with
  | error raised => exact ⟨hActive, fun _ h => h, rfl⟩
  | ok result =>
    rcases result with ⟨manager, committed⟩
    rcases Transaction.commit_cases hCommit with
      ⟨hEnded, hState, hManager⟩
    have hOther : ended ≠ session := by
      rcases hKept with hOther | hFailed
      · exact hOther
      · intro hSame
        rw [hSame, hActive, Option.some.injEq] at hEnded
        rw [hEnded] at hFailed
        exact hState hFailed
    refine ⟨?_, ?_, rfl⟩
    · rw [hManager, Transaction.activeIn_retire,
        if_neg (Ne.symm hOther)]
      exact hActive
    · intro resource hOwns
      apply LockManager.releaseAll_owns _ hOwns
      intro hSame
      exact hOther (Transaction.session_of_id hEnded
        hActive hSame.symm)

variable {db' : Db ι ρ τ}
variable
    (hHolds : Holds db session name xid recordId version)

include hHolds

omit [Payload ρ] in
/- A holder stays one while its lock and its transaction do,
   and its statement unless the transaction has failed. -/
theorem Holds.frame
    (hLocks : ∀ resource,
      db.locks.Owns xid resource → db'.locks.Owns xid resource)
    (hActive : ∀ transaction,
      db.manager.activeIn session = some transaction →
      transaction.transactionId = xid →
      (transaction.state = .failed ∨
        ∃ statement, db.pending session = some statement ∧
          statement.todo ≠ []) →
      ∃ after,
        db'.manager.activeIn session = some after ∧
        after.transactionId = xid ∧
        (transaction.state = .failed → after.state = .failed) ∧
        (after.state = .failed ∨
          db'.pending session = db.pending session)) :
    Holds db' session name xid recordId version := by
  rcases hHolds.active with ⟨transaction, hOpen, hId, hState⟩
  have hBusy : transaction.state = .failed ∨
      ∃ statement, db.pending session = some statement ∧
        statement.todo ≠ [] := by
    rcases hState with hFailed | ⟨statement, hAt, _, hClaimed⟩
    · exact .inl hFailed
    · rcases hClaimed.2 with ⟨change, rest, hTodo, _⟩
      exact .inr ⟨statement, hAt, by simp [hTodo]⟩
  rcases hActive transaction hOpen hId hBusy with
    ⟨after, hAfter, hSame, hStays, hKept⟩
  refine ⟨hLocks _ hHolds.locked, after, hAfter, hSame, ?_⟩
  rcases hState with hFailed | hAt
  · exact .inl (hStays hFailed)
  · rcases hKept with hFailed | hPending
    · exact .inl hFailed
    · rw [← hPending] at hAt
      exact .inr hAt

omit [Payload ρ] in
theorem Holds.fail
    (hManager : db'.manager = db.manager)
    (hLocks : ∀ resource,
      db.locks.Owns xid resource → db'.locks.Owns xid resource)
    (hPending : db'.pending = db.pending)
    (failing : String) :
    Holds (db'.fail failing) session name xid recordId
      version := by
  apply hHolds.frame
  · exact hLocks
  intro transaction hOpen hId _
  refine ⟨_, (Transaction.activeIn_markFailed failing).trans
    (congrArg _ (hManager ▸ hOpen)), ?_⟩
  by_cases hSame : session = failing
  · simp [hSame, hId]
  · simp [Db.fail, hSame, hId, hPending]

omit [Payload ρ] in
theorem Holds.commitIn
    (ended : String)
    (hKept : ended ≠ session ∨ ∀ statement,
      db.pending session = some statement →
        statement.todo = []) :
    Holds (db.commitIn ended) session name xid recordId
      version := by
  rcases hHolds.active with ⟨transaction, hOpen, hId, hState⟩
  have hEither : ended ≠ session ∨
      transaction.state = .failed := by
    rcases hKept with hOther | hDone
    · exact .inl hOther
    · right
      rcases hState with hFailed |
        ⟨statement, hAt, _, hClaimed⟩
      · exact hFailed
      · rcases hClaimed.2 with ⟨change, rest, hTodo, _⟩
        rw [hDone statement hAt] at hTodo
        cases hTodo
  rcases commitIn_keeps hOpen hEither with
    ⟨hAfter, hLocks, hPending⟩
  rw [hId] at hLocks
  refine ⟨hLocks _ hHolds.locked, transaction, hAfter, hId, ?_⟩
  rw [hPending]
  exact hState

/- A statement's step leaves other holders alone, and its own
   version held or stamped. -/
theorem Holds.keep
    (hSound : db.Sound)
    {acting : String}
    {statement : Statement ρ}
    {table : Table ρ τ}
    {progress : Progress ρ τ}
    (hSteps : db.Steps acting statement transaction table
      progress) :
    Holds (db.keep acting statement.table progress) session
        name xid recordId version ∨
      (statement.table = name ∧
        .removed recordId ∈ progress.effects) := by
  have hLocks : ∀ resource, db.locks.Owns xid resource →
      progress.locks.Owns xid resource := by
    intro resource hOwns
    rcases hSteps.step with
      ⟨change, rest, fresh, hFresh, hTodo, rfl⟩
    exact advanceRow_locks hOwns
  unfold Db.keep
  simp only
  cases hAfter : progress.statement with
  | none =>
    left
    apply hHolds.fail
    · rfl
    · exact hLocks
    · rfl
  | some after =>
    by_cases hSame : session = acting
    · rcases hHolds.active with
        ⟨owner, hOpen, hId, hFailed | ⟨held, hAt, hTable,
          hClaimed⟩⟩
      · exact .inl ⟨hLocks _ hHolds.locked, owner, hOpen,
          hId, .inl hFailed⟩
      · right
        rw [hSame, hSteps.pending, Option.some.injEq] at hAt
        rw [← hAt] at hTable hClaimed
        refine ⟨hTable, ?_⟩
        rcases hSound.claims acting statement hSteps.pending
          recordId version hClaimed with
            ⟨_, found, _, hFound, hStands⟩
        rw [hSteps.found, Option.some.injEq] at hFound
        rw [← hFound] at hStands
        rcases hSteps.step with
          ⟨change, rest, fresh, hFresh, hTodo, hProgress⟩
        rw [hProgress] at hAfter ⊢
        rcases advanceRow_claimed hTodo hClaimed
          hStands.live with hRaised | hRemoved
        · rw [hRaised] at hAfter
          cases hAfter
        · exact hRemoved
    · left
      apply hHolds.frame
      · exact hLocks
      · intro owner hOpen hId _
        exact ⟨owner, hOpen, hId, id, .inr
          (Function.update_of_ne hSame _ _)⟩

/- A holder stays one, or has stamped its version. -/
theorem Holds.step
    (hSound : db.Sound)
    (event : Event ρ) :
    Holds (db.step event).1 session name xid recordId
        version ∨
      ∃ trace ∈ (db.step event).2, trace.table = name ∧
        trace.effect = .removed recordId := by
  cases event with
  | begin opening implicit isolation =>
    left
    unfold Db.step
    simp only
    split
    · exact hHolds
    · split
      · exact hHolds
      · rename_i manager hBegin
        apply hHolds.frame
        · exact fun _ h => h
        · intro transaction hOpen hId _
          rcases Transaction.activeIn_begin hBegin hOpen
            with ⟨after, hAfter, hSame, _, _, hState⟩
          exact ⟨after, hAfter, hSame.trans hId,
            fun hFailed => hState.trans hFailed,
            .inr rfl⟩
  | issue issuing table changes =>
    left
    unfold Db.step
    simp only
    split
    · exact hHolds
    · rename_i hFree
      unfold Db.issue
      split
      · exact hHolds
      · split
        · exact hHolds
        · rename_i manager hBegin
          apply hHolds.frame
          · exact fun _ h => h
          · intro transaction hOpen hId hBusy
            rcases Transaction.activeIn_begin hBegin hOpen
              with ⟨after, hAfter, hSame, _, _, hState⟩
            refine ⟨after, hAfter, hSame.trans hId,
              fun hFailed => hState.trans hFailed, ?_⟩
            by_cases hHere : session = issuing
            · left
              rcases hBusy with
                hFailed | ⟨statement, hAt, _⟩
              · exact hState.trans hFailed
              · rw [hHere] at hAt
                simp [hAt] at hFree
            · exact .inr
                (Function.update_of_ne hHere _ _)
  | advance acting fresh =>
    rcases Db.advance_cases db acting fresh with
      hSame | ⟨statement, hPending, hTodo, hFinish⟩ |
        ⟨statement, transaction, table, progress, hSteps, hKeep⟩
    · left
      unfold Db.step
      simp only [hSame]
      exact hHolds
    · left
      have hDone : Holds ({ db with
          pending := Function.update db.pending acting
            none } : Db ι ρ τ)
          session name xid recordId version := by
        apply hHolds.frame
        · exact fun _ h => h
        · intro owner hOpen hId hBusy
          refine ⟨owner, hOpen, hId, id, ?_⟩
          by_cases hHere : session = acting
          · left
            rcases hBusy with
              hFailed | ⟨held, hAt, hMore⟩
            · exact hFailed
            · rw [hHere, hPending, Option.some.injEq]
                at hAt
              rw [hAt] at hTodo
              exact absurd hTodo hMore
          · exact .inr (Function.update_of_ne hHere _ _)
      unfold Db.step
      simp only [hFinish]
      unfold Db.finish
      simp only
      split
      · apply hDone.commitIn
        by_cases hHere : acting = session
        · right
          simp [hHere]
        · exact .inl hHere
      · exact hDone
    · unfold Db.step
      simp only [hKeep]
      rcases hHolds.keep hSound hSteps with
        hStill | ⟨hTable, hRemoved⟩
      · exact .inl hStill
      · right
        exact ⟨_, List.mem_map.mpr ⟨_, hRemoved, rfl⟩,
          hTable, rfl⟩
  | giveUp giving =>
    left
    unfold Db.step
    simp only
    split
    · exact hHolds.fail rfl (fun _ h => h) rfl giving
    · exact hHolds
  | commit ending =>
    left
    unfold Db.step
    simp only
    split
    · exact hHolds
    · rename_i hFree
      apply hHolds.commitIn
      by_cases hHere : ending = session
      · right
        intro statement hAt
        rw [hHere, hAt] at hFree
        simp at hFree
      · exact .inl hHere
  | scan reading =>
    left
    unfold Db.step
    simp only
    split
    · exact hHolds
    · apply hHolds.frame
      · exact fun _ h => h
      · intro transaction hOpen hId _
        rcases Transaction.activeIn_snapshotIn reading hOpen
          with ⟨after, hAfter, hSame, _, hState, _⟩
        exact ⟨after, hAfter, hSame.trans hId,
          fun hFailed => hState.trans hFailed, .inr rfl⟩
  | vacuum names =>
    left
    apply hHolds.frame
    · exact fun _ h => h
    · exact fun transaction hOpen hId _ =>
        ⟨transaction, hOpen, hId, id, .inr rfl⟩

/- From its claim on, a version is stamped by nobody but the
   transaction that claimed it. -/
theorem Holds.run
    (hSound : db.Sound)
    (hRow : db.rows name recordId = some version)
    {events : List (Event ρ)}
    (hWrites : ∀ event ∈ events, event.isVacuum = false) :
    ((db.run events).1.rows name recordId = some version ∨
      (db.run events).1.rows name recordId =
        some (setXmax version xid)) ∧
    ∀ trace ∈ (db.run events).2, trace.table = name →
      trace.effect = .removed recordId →
        trace.xid = xid := by
  induction events generalizing db with
  | nil => exact ⟨.inl hRow, by simp [Db.run]⟩
  | cons event rest ih =>
    have hEvent := hWrites event (.head _)
    have hRest : ∀ later ∈ rest, later.isVacuum = false :=
      fun later hLater =>
        hWrites later (.tail _ hLater)
    have hNext := Db.step_sound hSound event
    rcases step_row hSound hEvent hRow with
      ⟨hSame, hNot⟩ |
        ⟨other, stamp, hClaims, hStamped, hBy⟩
    · have hStill : Holds (db.step event).1 session name
          xid recordId version := by
        rcases hHolds.step hSound event with
          hStill | ⟨trace, hMem, hTable, hRemoved⟩
        · exact hStill
        · exact absurd hRemoved (hNot trace hMem hTable)
      rcases ih hStill hNext hSame hRest with ⟨hFinal, hLater⟩
      refine ⟨hFinal, fun trace hMem hTable hRemoved => ?_⟩
      rcases List.mem_append.mp hMem with hHere | hThere
      · exact absurd hRemoved (hNot trace hHere hTable)
      · exact hLater trace hThere hTable hRemoved
    · rcases hClaims.stands hSound with
        ⟨_, _, hOwns, hPositive⟩
      have hXid : stamp = xid :=
        LockManager.Owns.unique hOwns hHolds.locked
      rw [hXid] at hStamped hPositive hBy
      rcases run_deleted hNext hRest hStamped hPositive with
        ⟨hFinal, hLater⟩
      refine ⟨.inr hFinal,
        fun trace hMem hTable hRemoved => ?_⟩
      rcases List.mem_append.mp hMem with hHere | hThere
      · exact hBy trace hHere
      · exact absurd hRemoved
          (hLater trace hThere hTable)

end Holders

--
-- Writers That Come Too Late
--

/- Waiting for a version is over, one way or the other: it is
   gone, or superseded by a transaction that has finished. -/
def Settled
    (db : Db ι ρ τ)
    (statement : Statement ρ)
    (xid : Nat)
    (table : Table ρ τ)
    (recordId : RecordId) : Prop :=
  match statement.phase with
  | .arriving =>
    ∀ version, table.heap.get recordId = some version →
      deleted version.header = true ∧
        version.header.xmax ∉ db.manager.runningIds
  | .waiting =>
    (∃ locks, db.locks.tryAcquire xid
        (rowResource statement.table recordId)
          .exclusive = .ok (some locks)) ∧
      ∀ version, table.heap.get recordId = some version →
        deleted version.header = true
  | _ => False

/- A session's statement is at a row that is settled. -/
structure TooLate
    (db : Db ι ρ τ)
    (session : String)
    (statement : Statement ρ) : Prop where
  pending : db.pending session = some statement
  settled : ∃ transaction table change rest recordId,
    db.manager.activeIn session = some transaction ∧
      db.tables statement.table = some table ∧
      statement.todo = change :: rest ∧
      change.target = some recordId ∧
      Settled db statement transaction.transactionId table
        recordId

theorem advanceRow_settled
    (hFresh : fresh ∉ table.heap.pageIds)
    (hTarget : change.target = some recordId)
    (hSettled : Settled db statement xid table recordId) :
    (advanceRow table db.locks statement
        db.manager.runningIds xid fresh hFresh
        change).table = table ∧
      (advanceRow table db.locks statement
        db.manager.runningIds xid fresh hFresh
        change).effects = [] ∧
      (advanceRow table db.locks statement
        db.manager.runningIds xid fresh hFresh
        change).statement = some statement.next := by
  have hArrive : statement.phase = .arriving →
      (arrive table db.locks statement
        db.manager.runningIds recordId).statement =
          some statement.next := by
    intro hPhase
    unfold Settled at hSettled
    simp only [hPhase] at hSettled
    unfold arrive
    split
    · rfl
    · rename_i version hGet
      rw [if_pos (hSettled version hGet)]
      rfl
  have hClaim : statement.phase = .waiting →
      (claim table db.locks statement xid
        recordId).statement = some statement.next := by
    intro hPhase
    unfold Settled at hSettled
    simp only [hPhase] at hSettled
    rcases hSettled with ⟨⟨locks, hGranted⟩, hGone⟩
    unfold claim
    simp only [hGranted]
    split
    · rfl
    · rename_i version hGet
      rw [if_pos (hGone version hGet)]
      rfl
  unfold advanceRow
  cases hPhase : statement.phase with
  | arriving =>
    cases change with
    | insert values => cases hTarget
    | delete target =>
      cases hTarget
      exact ⟨(arrive_same _ _).1, (arrive_same _ _).2,
        hArrive hPhase⟩
    | update target values =>
      cases hTarget
      exact ⟨(arrive_same _ _).1, (arrive_same _ _).2,
        hArrive hPhase⟩
  | waiting =>
    cases change with
    | insert values => cases hTarget
    | delete target =>
      cases hTarget
      exact ⟨(claim_same _).1, (claim_same _).2, hClaim hPhase⟩
    | update target values =>
      cases hTarget
      exact ⟨(claim_same _).1, (claim_same _).2, hClaim hPhase⟩
  | claimed held => simp [Settled, hPhase] at hSettled
  | placed target old => simp [Settled, hPhase] at hSettled

/- A writer that is too late goes on to its next row, and
   has changed no heap and no index. -/
theorem TooLate.advance
    (hLate : TooLate db session statement)
    (fresh : PageId) :
    (db.advance session fresh).1.tables = db.tables ∧
      (db.advance session fresh).2 = [] ∧
      ((db.advance session fresh).1.pending session =
          some statement ∨
        (db.advance session fresh).1.pending session =
          some statement.next) := by
  rcases hLate.settled with
    ⟨transaction, table, change, rest, recordId, hActive,
      hFound, hTodo, hTarget, hSettled⟩
  unfold Db.advance
  simp only [hLate.pending, hActive, hTodo, hFound]
  split
  · exact ⟨rfl, rfl, .inl hLate.pending⟩
  · rename_i hFresh
    rcases advanceRow_settled hFresh hTarget hSettled with ⟨hTable, hEffects, hStatement⟩
    refine ⟨?_, by rw [hEffects]; rfl, .inr ?_⟩
    · rw [Db.keep_tables, hTable, ← hFound]
      exact Function.update_eq_self _ _
    · unfold Db.keep
      simp only [hStatement]
      exact Function.update_self _ _ _

/-
  Over any run of statements that ends every transaction in
  a commit, no version is superseded twice, a claimed version
  is stamped by its claimant alone, and a writer that finds
  a version settled changes nothing.
-/
theorem no_lost_update
    (hStarts : db.Starts)
    (before after : List (Event ρ))
    (hWrites : ∀ event ∈ before ++ after,
      event.isVacuum = false) :
    ((db.run (before ++ after)).2.Pairwise
      fun first second => ¬ SameVersion first second) ∧
    (∀ session table xid recordId version,
      Claims (db.run before).1 session table xid recordId
        version →
      (((db.run before).1.run after).1.rows table recordId =
          some version ∨
        ((db.run before).1.run after).1.rows table recordId =
          some (setXmax version xid)) ∧
      ∀ trace ∈ ((db.run before).1.run after).2,
        trace.table = table →
          trace.effect = .removed recordId → trace.xid = xid) ∧
    ∀ session statement,
      TooLate (db.run before).1 session statement →
      ∀ fresh,
        ((db.run before).1.advance session
            fresh).1.tables = (db.run before).1.tables ∧
          ((db.run before).1.advance session
            fresh).2 = [] ∧
          (((db.run before).1.advance session
              fresh).1.pending session = some statement ∨
            ((db.run before).1.advance session
              fresh).1.pending session =
                some statement.next) := by
  have hSound := Db.run_sound hStarts.sound before
  refine ⟨run_once hStarts.sound hWrites, ?_, ?_⟩
  · intro session table xid recordId version hClaims
    rcases hClaims.stands hSound with ⟨hRow, _, hOwns, _⟩
    rcases hClaims.active with ⟨transaction, hOpen, hId⟩
    have hHolds : Holds (db.run before).1 session table xid
        recordId version :=
      ⟨hOwns, transaction, hOpen, hId, .inr hClaims.pending⟩
    apply hHolds.run hSound hRow
    intro event hMem
    exact hWrites event (List.mem_append_right _ hMem)
  · intro session statement hLate fresh
    exact hLate.advance fresh

end Steps

/- One session has claimed the row it is to delete. -/
def claimRow : List (Event Library.Struct.Bytes) :=
  insertRow "a" [7] ++
    [ .issue "b" "t" [.delete ⟨1, 0⟩],
      .advance "b" 2, .advance "b" 2 ]

/- Another waits for it, and finds it settled in the end. -/
def loseRace : List (Event Library.Struct.Bytes) :=
  [ .issue "c" "t" [.delete ⟨1, 0⟩],
    .advance "c" 2, .advance "c" 2, .advance "b" 2,
    .advance "b" 2, .advance "c" 2 ]

theorem no_lost_update_delete :
    Claims (openedDb.run claimRow).1 "b" "t" 2 ⟨1, 0⟩
        ⟨⟨1, 0⟩, [7]⟩ ∧
      (((openedDb.run claimRow).1.run loseRace).1.rows "t"
          ⟨1, 0⟩ = some ⟨⟨1, 0⟩, [7]⟩ ∨
        ((openedDb.run claimRow).1.run loseRace).1.rows "t"
          ⟨1, 0⟩ = some ⟨⟨1, 2⟩, [7]⟩) := by
  have hPending : (openedDb.run claimRow).1.pending "b" =
      some
        { table := "t"
          owns := true
          todo := [.delete ⟨1, 0⟩]
          phase := .claimed ⟨⟨1, 0⟩, [7]⟩ } := by
    decide +kernel
  have hActive : ((openedDb.run claimRow).1.manager.activeIn
      "b").map OpenTransaction.transactionId = some 2 := by
    decide +kernel
  have hClaims : Claims (openedDb.run claimRow).1 "b" "t" 2
      ⟨1, 0⟩ ⟨⟨1, 0⟩, [7]⟩ :=
    ⟨⟨_, hPending, rfl, rfl, _, _, rfl, rfl⟩,
      Option.map_eq_some_iff.mp hActive⟩
  have hRun := no_lost_update openedDb_starts claimRow
    loseRace (by decide +kernel)
  exact ⟨hClaims, (hRun.2.1 _ _ _ _ _ hClaims).1⟩

end Mvcc

end ChenDB
