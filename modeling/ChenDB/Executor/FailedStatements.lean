import ChenDB.Executor.SqlSessions

/-
  What a statement that raises does to the transactions that
  are open. `execute_statement` asks for and marks the
  transaction of the default session, whichever session it
  runs in.
-/

--
-- The Rule
--

namespace ChenDB

namespace Executor

open Mvcc (Db LockManager viewOf)
open Storage (Payload)
open Transaction (OpenTransaction TransactionManager)
open Wal (ByteImage)

variable {ι ρ τ : Type}
variable {session : String} {db : Db ι ρ τ}

/- The session has a transaction open that has not failed. -/
def isUsableIn
    (manager : TransactionManager ι)
    (session : String) : Bool :=
  match manager.activeIn session with
  | none => false
  | some transaction => transaction.state ≠ .failed

/- The rows of a table a session sees, by their addresses. -/
def shown
    (db : Db ι ρ τ)
    (session table : String) :
    Storage.RecordId → Option ρ :=
  viewOf (db.manager.snapshotIn session).2 (db.rows table)

/- Nothing of a session has changed: its transaction, with
   its state and its undo log, its locks, and the rows it
   sees. -/
structure Spared
    (db after : Db ι ρ τ)
    (session : String) : Prop where
  transaction : after.manager.activeIn session =
    db.manager.activeIn session
  locks : ∀ transaction,
    db.manager.activeIn session = some transaction →
      after.locks.heldBy transaction.transactionId =
        db.locks.heldBy transaction.transactionId
  rows : ∀ table,
    shown after session table = shown db session table

section Property

variable [ByteImage ι] [Payload ρ]

/-
  A failed statement fails its own transaction and nobody
  else's.
-/
structure FailsAlone
    (db : Db ι ρ τ)
    (session : String)
    (below : Below ι ρ τ)
    (statement : SqlStatement ρ τ) : Prop where
  fails :
    let result := executeStatement session below db statement
    result.2 ≠ .done →
      isUsableIn db.manager session = true →
      result.1.manager.isFailedIn session = true ∧
        ∀ other, other ≠ session → Spared db result.1 other
  nobodyElse :
    let result := executeStatement session below db statement
    result.2 ≠ .done → ∀ other, other ≠ session →
      result.1.manager.activeIn other =
        db.manager.activeIn other
  refusedFor :
    (executeStatement session below db statement).2 =
        .refused →
      db.manager.isFailedIn session = true
  refuses :
    db.manager.isFailedIn session = true →
      statement.ends = false →
      (executeStatement session below db statement).2 = .refused
  rollsBack :
    db.manager.isFailedIn session = true →
      let result := executeStatement session below db .commit
      result =
          executeStatement session below db .rollback ∧
        result.2 = .done ∧
        result.1.manager.activeIn session = none
  stays : ∀ other, db.manager.isFailedIn other = true →
    (executeStatement session below db
        statement).1.manager.isFailedIn other = true ∨
      (other = session ∧ statement.ends = true)

/-
  The statement runs in the default session; or that session
  has no failed transaction to be taken for this one's, and
  neither has a usable one open when the statement raises.
-/
def Covered
    (db : Db ι ρ τ)
    (session : String)
    (below : Below ι ρ τ)
    (statement : SqlStatement ρ τ) : Prop :=
  session = defaultSession ∨
    (db.manager.isFailedIn defaultSession = true →
      statement.ends = true) ∧
    ((executeStatement session below db statement).2 =
        .raised →
      isUsableIn db.manager session = false ∧
        isUsableIn db.manager defaultSession = false)

end Property

--
-- Sessions Spared
--

section Usable

variable {manager : TransactionManager ι}

theorem isUsableIn_iff :
    isUsableIn manager session = true ↔
      stateIn manager session = some .active := by
  unfold isUsableIn stateIn
  cases manager.activeIn session with
  | none => simp
  | some transaction =>
    cases hState : transaction.state <;> simp [hState]

/- A mark on a transaction that is not usable changes
   nothing. -/
theorem activeIn_markFailed_unusable
    (hUnusable : isUsableIn manager session = false)
    (other : String) :
    (manager.markFailed session).activeIn other =
      manager.activeIn other := by
  rw [Transaction.activeIn_markFailed]
  cases hActive : manager.activeIn other with
  | none => rfl
  | some transaction =>
    rw [Option.map_some]
    split
    · rename_i hSame
      have hFailed : transaction.state = .failed := by
        rw [hSame] at hActive
        unfold isUsableIn at hUnusable
        simpa [hActive] using hUnusable
      rw [← hFailed]
    · rfl

end Usable

section Sparing

theorem Spared.trans
    {first second third : Db ι ρ τ}
    (hFirst : Spared first second session)
    (hSecond : Spared second third session) :
    Spared first third session where
  transaction :=
    hSecond.transaction.trans hFirst.transaction
  locks := by
    intro transaction hActive
    rw [hSecond.locks transaction
      (hFirst.transaction.trans hActive)]
    exact hFirst.locks transaction hActive
  rows := fun table =>
    (hSecond.rows table).trans (hFirst.rows table)

variable {other : String}

/- A change to one session's transaction alone. -/
theorem spared_aside
    {after : Db ι ρ τ}
    (hAside : Aside session db.manager after.manager)
    (hLocks : after.locks = db.locks)
    (hTables : after.tables = db.tables)
    (hOther : other ≠ session) :
    Spared db after other where
  transaction := hAside.others other hOther
  locks := by
    intro transaction _
    rw [hLocks]
  rows := by
    intro table
    unfold shown Db.rows
    rw [hAside.snapshot hOther, hTables]

/- Work in one transaction's name. -/
theorem spared_hidden
    (hSound : db.manager.Sound)
    {transaction : OpenTransaction ι}
    (hActive :
      db.manager.activeIn session = some transaction)
    {worked : Db ι ρ τ}
    (hHidden : Hidden transaction.transactionId db worked)
    (hOther : other ≠ session) :
    Spared db worked other where
  transaction := by rw [hHidden.manager]
  locks := by
    intro held hHeld
    apply hHidden.locks
    intro hSame
    exact hOther
      (Transaction.session_of_id hHeld hActive hSame)
  rows := by
    intro table
    unfold shown
    rw [hHidden.manager]
    exact hHidden.rows _
      (unseen_by_others hSound hActive hOther) table

end Sparing

--
-- Failing Alone
--

section Alone

variable [ByteImage ι] [Payload ρ]

/- What holds of every manager a run comes to: only in the
   default session has a transaction failed. -/
structure Reached
    (manager : TransactionManager ι) : Prop where
  sound : manager.Sound
  unfailed : ∀ session, session ≠ defaultSession →
    stateIn manager session ≠ some .failed

omit [ByteImage ι] in
theorem Reached.keeps
    {manager manager' : TransactionManager ι}
    (hReached : Reached manager)
    (hKeeps : Keeps session manager manager') :
    Reached manager' where
  sound := hKeeps.sound hReached.sound
  unfailed := by
    intro other hOther hState
    apply hReached.unfailed other hOther
    by_cases hSame : other = session
    · rw [hSame] at hState ⊢
      exact hKeeps.state hState
    · unfold stateIn at hState ⊢
      rw [hKeeps.others other hSame] at hState
      exact hState

omit [ByteImage ι] [Payload ρ] in
theorem stateIn_reading (session other : String) :
    stateIn (reading session db).manager other =
      stateIn db.manager other :=
  stateIn_snapshotIn session

/- The three ways a statement goes. -/
theorem executeStatement_cases
    (db : Db ι ρ τ)
    (session : String)
    (below : Below ι ρ τ)
    (statement : SqlStatement ρ τ) :
    (stateIn db.manager defaultSession = some .failed ∧
      statement.ends = false ∧
      executeStatement session below db statement =
        (reading session db, .refused)) ∨
    ((stateIn db.manager defaultSession = some .failed →
        statement.ends = true) ∧
      let dispatched :=
        dispatch session below (reading session db) statement
      (dispatched.2 = true ∧
        executeStatement session below db statement =
          (dispatched.1, .done)) ∨
      (dispatched.2 = false ∧
        executeStatement session below db statement =
          ({ dispatched.1 with
              manager := dispatched.1.manager.markFailed
                defaultSession }, .raised))) := by
  have hFailed :
      (reading session db).manager.isFailedIn
          defaultSession = true ↔
        stateIn db.manager defaultSession =
          some .failed := by
    rw [isFailedIn_iff, stateIn_reading]
  unfold executeStatement
  simp only
  by_cases hRefused :
      (reading session db).manager.isFailedIn
          defaultSession = true ∧
        ¬ statement.ends = true
  · left
    refine ⟨hFailed.mp hRefused.1, ?_, if_pos hRefused⟩
    simpa using hRefused.2
  · right
    refine ⟨fun hState => ?_, ?_⟩
    · by_contra hNot
      exact hRefused ⟨hFailed.mpr hState, hNot⟩
    · rw [if_neg hRefused]
      cases hResult : dispatch session below
          (reading session db) statement with
      | mk after done =>
        cases done with
        | true => exact .inl ⟨rfl, rfl⟩
        | false => exact .inr ⟨rfl, rfl⟩

omit [ByteImage ι] [Payload ρ] in
theorem reading_keeps
    (db : Db ι ρ τ)
    (session : String) :
    Keeps session db.manager
      (reading session db).manager where
  others := (aside_snapshotIn session db.manager).others
  state := by
    rw [stateIn_reading]
    exact id
  sound := fun hSound =>
    Transaction.snapshotIn_sound hSound session

theorem executeStatement_reached
    (hReached : Reached db.manager)
    (session : String)
    (below : Below ι ρ τ)
    (statement : SqlStatement ρ τ) :
    Reached (executeStatement session below db
      statement).1.manager := by
  have hReading := hReached.keeps (reading_keeps db session)
  have hAfter : Reached (dispatch session below
      (reading session db) statement).1.manager :=
    hReading.keeps (dispatch_keeps statement)
  rcases executeStatement_cases db session below
    statement with
      ⟨_, _, hResult⟩ | ⟨_, ⟨_, hResult⟩ | ⟨_, hResult⟩⟩
  · rw [hResult]
    exact hReading
  · rw [hResult]
    exact hAfter
  · rw [hResult]
    refine ⟨Transaction.markFailed_sound hAfter.sound _,
      fun other hOther => ?_⟩
    rw [(aside_markFailed defaultSession _).stateIn hOther]
    exact hAfter.unfailed other hOther

theorem step_reached
    (hReached : Reached db.manager)
    (event : Event ι ρ τ) :
    Reached (step db event).manager := by
  cases event with
  | statement session below statement =>
    exact executeStatement_reached hReached session below
      statement
  | begins session implicit isolation =>
    unfold step
    simp only
    split
    · exact hReached
    · rename_i hBegin
      exact hReached.keeps (keeps_begin hBegin)
  | commits session below =>
    exact hReached.keeps commit_keeps
  | unwinds session below =>
    exact hReached.keeps rollback_keeps

/- A statement that raises in the default session's open
   transaction. -/
theorem raised_spares
    (hSound : db.manager.Sound)
    {below : Below ι ρ τ}
    {statement : SqlStatement ρ τ}
    (hUsable :
      stateIn db.manager defaultSession = some .active)
    (hRaised : (dispatch defaultSession below
      (reading defaultSession db) statement).2 = false) :
    let after := (dispatch defaultSession below
      (reading defaultSession db) statement).1
    stateIn (after.manager.markFailed defaultSession)
        defaultSession = some .failed ∧
      ∀ other, other ≠ defaultSession →
        Spared db { after with
          manager :=
            after.manager.markFailed defaultSession }
          other := by
  intro after
  have hState : stateIn (reading defaultSession db).manager
      defaultSession = some .active := by
    rw [stateIn_reading]
    exact hUsable
  have hFound := hState
  unfold stateIn at hFound
  rcases Option.map_eq_some_iff.mp hFound with
    ⟨transaction, hActive, _⟩
  rcases dispatch_raised hActive hRaised with
    ⟨worked, hHidden, hAfter⟩
  have hReadingSound :=
    (reading_keeps db defaultSession).sound hSound
  -- the hook's images come after the work, if any
  have hCaptured : stateIn after.manager defaultSession =
        some .active ∧
      ∀ other, other ≠ defaultSession →
        Spared worked after other := by
    rcases hAfter with hSame | hKept
    · change after = worked at hSame
      rw [hSame, hHidden.manager]
      exact ⟨hState, fun other hOther =>
        spared_aside (Aside.refl defaultSession _) rfl rfl
          hOther⟩
    · change after = capturing defaultSession below worked
        at hKept
      rw [hKept]
      refine ⟨?_, fun other hOther =>
        spared_aside (aside_captureAll defaultSession _ _)
          rfl rfl hOther⟩
      unfold capturing
      rw [stateIn_captureAll, hHidden.manager]
      exact hState
  refine ⟨stateIn_markFailed (by simp [hCaptured.1]), ?_⟩
  intro other hOther
  have hRead : Spared db (reading defaultSession db)
      other :=
    spared_aside (aside_snapshotIn defaultSession db.manager)
      rfl rfl hOther
  have hWorked :=
    spared_hidden hReadingSound hActive hHidden hOther
  have hMarked : Spared after { after with
      manager := after.manager.markFailed defaultSession }
      other :=
    spared_aside (aside_markFailed defaultSession _) rfl rfl
      hOther
  exact ((hRead.trans hWorked).trans
    (hCaptured.2 other hOther)).trans hMarked

--
-- The Rule Kept
--

section Outcomes

variable {below : Below ι ρ τ}
variable {statement : SqlStatement ρ τ}

theorem of_refused
    (hRefused :
      (executeStatement session below db statement).2 =
        .refused) :
    stateIn db.manager defaultSession = some .failed ∧
      statement.ends = false ∧
      (executeStatement session below db statement).1 =
        reading session db := by
  rcases executeStatement_cases db session below
    statement with
      ⟨hState, hEnds, hResult⟩ | ⟨_, ⟨_, hResult⟩ |
        ⟨_, hResult⟩⟩
  · exact ⟨hState, hEnds, by rw [hResult]⟩
  · rw [hResult] at hRefused
    cases hRefused
  · rw [hResult] at hRefused
    cases hRefused

theorem of_raised
    (hRaised :
      (executeStatement session below db statement).2 =
        .raised) :
    let dispatched :=
      dispatch session below (reading session db) statement
    dispatched.2 = false ∧
      (executeStatement session below db statement).1 =
        { dispatched.1 with
          manager := dispatched.1.manager.markFailed
            defaultSession } := by
  rcases executeStatement_cases db session below
    statement with
      ⟨_, _, hResult⟩ | ⟨_, ⟨_, hResult⟩ |
        ⟨hDone, hResult⟩⟩
  · rw [hResult] at hRaised
    cases hRaised
  · rw [hResult] at hRaised
    cases hRaised
  · exact ⟨hDone, by rw [hResult]⟩

theorem refused_of_failed
    (hState :
      stateIn db.manager defaultSession = some .failed)
    (hEnds : statement.ends = false) :
    (executeStatement session below db statement).2 =
      .refused := by
  rcases executeStatement_cases db session below
    statement with ⟨_, _, hResult⟩ | ⟨hAllowed, _⟩
  · rw [hResult]
  · rw [hAllowed hState] at hEnds
    cases hEnds

/- What is not done has been refused or has raised. -/
theorem of_not_done
    (hNotDone :
      (executeStatement session below db statement).2 ≠ .done) :
    (executeStatement session below db statement).2 =
        .refused ∨
      (executeStatement session below db statement).2 =
        .raised := by
  cases hOutcome :
      (executeStatement session below db statement).2 with
  | done => exact absurd hOutcome hNotDone
  | refused => exact .inl rfl
  | raised => exact .inr rfl

/- The transactions of other sessions, but for the mark on
   the default one's. -/
theorem activeIn_executeStatement
    {other : String}
    (hOther : other ≠ session)
    (hUnmarked :
      (executeStatement session below db statement).2 =
          .raised →
        other ≠ defaultSession ∨
          isUsableIn db.manager defaultSession = false) :
    (executeStatement session below db
        statement).1.manager.activeIn other =
      db.manager.activeIn other := by
  have hReading := reading_keeps db session
  have hKeeps : Keeps session db.manager
      (dispatch session below (reading session db)
        statement).1.manager :=
    hReading.trans (dispatch_keeps statement)
  rcases executeStatement_cases db session below
    statement with
      ⟨_, _, hResult⟩ | ⟨_, ⟨_, hResult⟩ | ⟨_, hResult⟩⟩
  · rw [hResult]
    exact hReading.others other hOther
  · rw [hResult]
    exact hKeeps.others other hOther
  · rw [hResult]
    rcases hUnmarked (by rw [hResult]) with
      hNamed | hUnusable
    · exact ((aside_markFailed defaultSession _).others other
        hNamed).trans (hKeeps.others other hOther)
    · by_cases hHere : other = defaultSession
      · have hSame := hKeeps.others other hOther
        refine Eq.trans ?_ hSame
        apply activeIn_markFailed_unusable
        unfold isUsableIn at hUnusable ⊢
        rw [← hHere] at hUnusable ⊢
        rw [hSame]
        exact hUnusable
      · exact ((aside_markFailed defaultSession _).others
          other hHere).trans (hKeeps.others other hOther)

end Outcomes

/- `COMMIT` in a failed transaction is a `ROLLBACK`. -/
theorem commit_rolls_back
    (below : Below ι ρ τ)
    (hFailed : db.manager.isFailedIn session = true) :
    executeStatement session below db .commit =
        executeStatement session below db .rollback ∧
      (executeStatement session below db .commit).2 = .done ∧
      (executeStatement session below db
        .commit).1.manager.activeIn session = none := by
  have hState : (reading session db).manager.isFailedIn
      session = true := by
    rw [isFailedIn_iff, stateIn_reading]
    exact isFailedIn_iff.mp hFailed
  have hSame : dispatch session below (reading session db)
      .commit = dispatch session below (reading session db)
        .rollback := by
    unfold dispatch
    simp only
    unfold commit
    rw [if_pos hState]
  have hOpen :
      stateIn (reading session db).manager session ≠
        none := by
    rw [isFailedIn_iff.mp hState]
    simp
  have hDone : (dispatch session below
      (reading session db) .rollback).2 = true :=
    ends_done rfl hOpen
  change (rollback session below
    (reading session db)).2 = true at hDone
  have hGone : (rollback session below
      (reading session db)).1.manager.activeIn session =
        none := by
    unfold rollback at hDone ⊢
    split
    · rename_i hNone
      exact hNone
    · rw [Transaction.activeIn_retire, if_pos rfl]
  have hResult : ∀ statement : SqlStatement ρ τ,
      statement.ends = true →
      dispatch session below (reading session db) statement =
        rollback session below (reading session db) →
      executeStatement session below db statement =
        ((rollback session below (reading session db)).1,
          .done) := by
    intro statement hEnds hDispatch
    rcases executeStatement_cases db session below
      statement with
        ⟨_, hNot, _⟩ | ⟨_, ⟨_, hResult⟩ | ⟨hRaised, _⟩⟩
    · rw [hEnds] at hNot
      cases hNot
    · rw [hResult, hDispatch]
    · rw [hDispatch, hDone] at hRaised
      cases hRaised
  have hCommit := hResult .commit rfl hSame
  have hRollback := hResult .rollback rfl rfl
  rw [hCommit, hRollback]
  exact ⟨rfl, rfl, hGone⟩

/- The rule holds of a statement just when it is covered. -/
theorem failsAlone_iff
    (hReached : Reached db.manager)
    (session : String)
    (below : Below ι ρ τ)
    (statement : SqlStatement ρ τ) :
    FailsAlone db session below statement ↔
      Covered db session below statement := by
  have hOnly : db.manager.isFailedIn session = true →
      session = defaultSession := by
    intro hFailed
    by_contra hNamed
    exact hReached.unfailed session hNamed
      (isFailedIn_iff.mp hFailed)
  constructor
  · intro hAlone
    by_cases hDefault : session = defaultSession
    · exact .inl hDefault
    right
    constructor
    · intro hFailed
      by_contra hNot
      have hRefused : (executeStatement session below db
          statement).2 = .refused :=
        refused_of_failed (isFailedIn_iff.mp hFailed)
          (by simpa using hNot)
      exact hDefault (hOnly (hAlone.refusedFor hRefused))
    · intro hRaised
      have hNotDone :
          (executeStatement session below db statement).2 ≠
            .done := by
        rw [hRaised]
        exact Outcome.noConfusion
      constructor
      · by_contra hUsable
        have hFails := (hAlone.fails hNotDone
          (by simpa using hUsable)).1
        exact (executeStatement_reached hReached session
          below statement).unfailed session hDefault
            (isFailedIn_iff.mp hFails)
      · by_contra hUsable
        have hActive : stateIn db.manager defaultSession =
            some .active :=
          isUsableIn_iff.mp (by simpa using hUsable)
        have hKept := hAlone.nobodyElse hNotDone
          defaultSession (Ne.symm hDefault)
        have hKeeps : Keeps session db.manager
            (dispatch session below (reading session db)
              statement).1.manager :=
          (reading_keeps db session).trans
            (dispatch_keeps statement)
        have hBefore := hKeeps.others defaultSession
          (Ne.symm hDefault)
        have hMarked : stateIn ((dispatch session below
            (reading session db)
              statement).1.manager.markFailed defaultSession)
            defaultSession = some .failed := by
          apply stateIn_markFailed
          unfold stateIn
          rw [hBefore]
          change stateIn db.manager defaultSession ≠ none
          simp [hActive]
        rw [(of_raised hRaised).2] at hKept
        unfold stateIn at hMarked hActive
        simp only at hKept
        rw [hKept, hActive] at hMarked
        cases hMarked
  · intro hCovered
    have hUnmarked : ∀ other, other ≠ session →
        (executeStatement session below db statement).2 =
            .raised →
          other ≠ defaultSession ∨
            isUsableIn db.manager defaultSession =
              false := by
      intro other hOther hRaised
      rcases hCovered with hDefault | ⟨_, hUnusable⟩
      · rw [hDefault] at hOther
        exact .inl hOther
      · exact .inr (hUnusable hRaised).2
    constructor
    · intro result hNotDone hUsable
      rcases of_not_done hNotDone with hRefused | hRaised
      · rcases of_refused hRefused with ⟨hState, hEnds, _⟩
        rcases hCovered with hDefault | ⟨hAllowed, _⟩
        · rw [hDefault, isUsableIn_iff, hState] at hUsable
          cases hUsable
        · rw [hAllowed (isFailedIn_iff.mpr hState)] at hEnds
          cases hEnds
      · rcases hCovered with hDefault | ⟨_, hUnusable⟩
        · subst hDefault
          rcases of_raised hRaised with ⟨hDone, hResult⟩
          have hSpares := raised_spares hReached.sound
            (isUsableIn_iff.mp hUsable) hDone
          rw [isFailedIn_iff]
          change stateIn (executeStatement _ below db
            statement).1.manager _ = _ ∧ ∀ other, _ →
              Spared db (executeStatement _ below db
                statement).1 other
          rw [hResult]
          exact hSpares
        · rw [(hUnusable hRaised).1] at hUsable
          cases hUsable
    · intro result hNotDone other hOther
      exact activeIn_executeStatement hOther
        (hUnmarked other hOther)
    · intro hRefused
      rcases of_refused hRefused with ⟨hState, hEnds, _⟩
      rcases hCovered with hDefault | ⟨hAllowed, _⟩
      · rw [hDefault]
        exact isFailedIn_iff.mpr hState
      · rw [hAllowed (isFailedIn_iff.mpr hState)] at hEnds
        cases hEnds
    · intro hFailed hEnds
      have hState := isFailedIn_iff.mp hFailed
      rw [hOnly hFailed] at hState
      exact refused_of_failed hState hEnds
    · exact fun hFailed => commit_rolls_back below hFailed
    · intro other hFailed
      have hState := isFailedIn_iff.mp hFailed
      by_cases hOther : other = session
      · subst hOther
        cases hEnds : statement.ends with
        | true => exact .inr ⟨rfl, rfl⟩
        | false =>
          left
          have hSame := hOnly hFailed
          rw [hSame] at hState
          have hRefused : (executeStatement other below db
              statement).2 = .refused :=
            refused_of_failed hState hEnds
          rw [(of_refused hRefused).2.2, isFailedIn_iff,
            stateIn_reading]
          exact isFailedIn_iff.mp hFailed
      · left
        have hSame := activeIn_executeStatement hOther
          (hUnmarked other hOther)
        unfold TransactionManager.isFailedIn at hFailed ⊢
        rw [hSame]
        exact hFailed

/-
  In a run from a database just opened, a failed statement
  fails its own transaction and nobody else's just as long
  as every statement is covered.
-/
theorem fails_alone_iff
    {frozenXid : Nat}
    (hOpened : db.manager = TransactionManager.create frozenXid)
    (events : List (Event ι ρ τ)) :
    Throughout FailsAlone db events ↔
      Throughout Covered db events := by
  have hReached : Reached db.manager := by
    rw [hOpened]
    exact ⟨Transaction.create_sound frozenXid,
      fun session _ => by simp [stateIn,
        TransactionManager.activeIn,
        TransactionManager.create]⟩
  clear hOpened
  induction events generalizing db with
  | nil => exact Iff.rfl
  | cons event rest ih =>
    have hRest := ih (step_reached hReached event)
    unfold Throughout
    refine and_congr ?_ hRest
    constructor
    · intro hEach session below statement hEvent
      exact (failsAlone_iff hReached session below
        statement).mp (hEach session below statement hEvent)
    · intro hEach session below statement hEvent
      exact (failsAlone_iff hReached session below
        statement).mpr
          (hEach session below statement hEvent)

end Alone

--
-- Two Sessions
--

/- A database just opened, with no table yet. -/
def sharedDb :
    Db Library.Struct.Bytes Library.Struct.Bytes Unit where
  manager := TransactionManager.create 1
  locks := LockManager.create
  tables := fun _ => none
  pending := fun _ => none

/- Storage that has nothing to decide. -/
def idle :
    Below Library.Struct.Bytes Library.Struct.Bytes Unit where
  pages := []
  captured := []
  restored := fun _ => none

/- The default session and one more open a transaction. -/
def bothOpen : List (Event Library.Struct.Bytes
    Library.Struct.Bytes Unit) :=
  [ .begins "default" false .readCommitted,
    .begins "b" false .readCommitted ]

theorem fails_alone_in_default :
    Throughout FailsAlone sharedDb
      (bothOpen ++ [.statement "default" idle (.read true)]) := by
  refine (fails_alone_iff rfl _).mpr ⟨?_, ?_, ?_, trivial⟩
  · intro session below statement hEvent
    cases hEvent
  · intro session below statement hEvent
    cases hEvent
  · intro session below statement hEvent
    cases hEvent
    exact .inl rfl

/-
  A statement of `b` raises: the transaction of `b` goes on
  as if nothing had happened, and the next statement of the
  default session is refused.
-/
theorem failure_dooms_default :
    let db := bothOpen.foldl step sharedDb
    let result := executeStatement "b" idle db (.read true)
    result.2 = .raised ∧
      result.1.manager.isFailedIn "b" = false ∧
      (executeStatement "default" idle result.1
        (.read false)).2 = .refused ∧
      ¬ Throughout FailsAlone sharedDb
        (bothOpen ++ [.statement "b" idle (.read true)]) := by
  refine ⟨by decide, by decide, by decide, ?_⟩
  intro hAlone
  have hRule := hAlone.2.2.1 "b" idle (.read true) rfl
  have hFails := hRule.fails (by decide) (by decide)
  exact absurd hFails.1 (by decide)

end Executor

end ChenDB
