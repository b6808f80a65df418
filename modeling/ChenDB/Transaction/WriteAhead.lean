import ChenDB.Transaction.Opening
import ChenDB.Wal.Trace

/-
  The write-ahead rule over whole runs of an open engine.
-/

--
-- Runs
--

namespace ChenDB

namespace Database

open Library.StateExcept
open Storage
open Wal (LogRecord WriteAheadLog)

variable {π : Type}

/-
  An engine opened on stored files, and the calls made on it
  while it is open, by any session, whether they return or
  raise. A meta page that is read has a valid page size.
-/
inductive Served : Engine π → Prop where
  | opened
      (installs : Bool)
      {options stored engine final} :
      Pager.opening options stored = .ok engine →
      validatePageSize engine.pageSize = .ok () →
      (boot (!stored.pages.isEmpty) installs).run engine =
        .ok () final →
      Served final
  | returned
      (session : String)
      {engine call final} :
      Served engine →
      engine.closed = false →
      (inSession session (perform call)).run engine =
        .ok () final →
      Served final
  | raised
      (session : String)
      {engine call raised final} :
      Served engine →
      engine.closed = false →
      (inSession session (perform call)).run engine =
        .error raised final →
      Served final

/- The engine a call leaves behind. -/
def afterCall
    (session : String)
    (engine : Engine π)
    (call : Call π) : Engine π :=
  match (inSession session (perform call)).run engine with
  | .ok _ final => final
  | .error _ final => final

theorem served_afterCall
    (session : String)
    {engine : Engine π}
    (hServed : Served engine)
    (hOpen : engine.closed = false)
    (call : Call π) :
    Served (afterCall session engine call) := by
  unfold afterCall
  cases hRun :
      (inSession session (perform call)).run engine with
  | ok _ final => exact .returned session hServed hOpen hRun
  | error raised final =>
    exact .raised session hServed hOpen hRun

/- The engine is open whenever one of the calls is made. -/
def staysOpen
    (session : String) :
    Engine π → List (Call π) → Bool
  | _, [] => true
  | engine, call :: rest =>
    !engine.closed &&
      staysOpen session (afterCall session engine call) rest

theorem served_afterCalls
    (session : String)
    {engine : Engine π}
    {calls : List (Call π)}
    (hServed : Served engine)
    (hOpen : staysOpen session engine calls = true) :
    Served (calls.foldl (afterCall session) engine) := by
  induction calls generalizing engine with
  | nil => exact hServed
  | cons call rest ih =>
    unfold staysOpen at hOpen
    rw [Bool.and_eq_true, Bool.not_eq_true'] at hOpen
    exact ih (served_afterCall session hServed hOpen.1 call)
      hOpen.2

/- A caller may write any page. -/
def Anywhere (_ : PageId) (_ : Page π) : Prop := True

section Calls

variable {J : Core π → Prop}

theorem rests_joined
    (hStable : Stable Anywhere J)
    (session : String)
    {engine : Engine π}
    (hRests : Rests J engine) :
    Rests J { engine with session := session } := by
  refine ⟨hStable _ _ hRests.1 .joined, ?_⟩
  rcases hRests.2 with hGood | hClosed
  · exact .inl ⟨hGood.sound, hGood.staged,
      hGood.walOpen, hGood.isOpen⟩
  · exact .inr hClosed

/- A call leaves what every step keeps, whether it returns
   or raises. -/
theorem call_rests
    (hStable : Stable Anywhere J)
    (session : String)
    (call : Call π) :
    Triple (Ready J) (inSession session (perform call))
      (fun _ => Rests J) (fun _ => Rests J) := by
  unfold inSession
  refine Triple.focus fun engine hReady => ?_
  have hWithin : call.Within Anywhere := by
    cases call <;> trivial
  refine (perform_keeps hStable hWithin).weaken
    (fun _ h => ?_)
    (fun _ _ h => rests_joined hStable engine.session h)
    (fun _ _ h => rests_joined hStable engine.session h)
  have hGood := hReady.1
  rw [h]
  exact ⟨⟨hGood.sound, hGood.staged, hGood.walOpen,
    hGood.isOpen⟩, hStable _ _ hReady.2 .joined⟩

theorem ready_of_rests
    {engine : Engine π}
    (hRests : Rests J engine)
    (hOpen : engine.closed = false) : Ready J engine := by
  rcases hRests.2 with hGood | hClosed
  · exact ⟨hGood, hRests.1⟩
  · rw [hOpen] at hClosed
    cases hClosed

/- What every step keeps holds all through a run. -/
theorem served_keeps
    (hStable : Stable Anywhere J)
    (hRecoverable : Recoverable J)
    (hOpened : ∀ stored metaPage,
      validatePageSize metaPage.pageSize = .ok () →
      J (opened stored metaPage))
    (hInstalled : ∀ core highestXid, J core →
      J (installed core highestXid))
    {engine : Engine π}
    (hServed : Served engine) :
    Rests J engine := by
  induction hServed with
  | @opened installs options stored engine final hOpening
      hValid hBoot =>
    rcases opening_spec hOpening with
      ⟨metaPage, frames, hHeads, hEnough, rfl⟩
    have hBooted := (boot_spec hStable hRecoverable hEnough
      (hOpened stored metaPage hValid) installs).of_ok
        rfl hBoot
    refine ⟨?_, .inl hBooted.1⟩
    have hCore := hBooted.2
    unfold Booted at hCore
    split at hCore
    · rcases hCore with ⟨bare, hBare, hSame⟩
      rw [hSame]
      exact hInstalled bare _ hBare
    · exact hCore
  | returned session _ hOpen hRun ih =>
    exact (call_rests hStable session _).of_ok
      (ready_of_rests ih hOpen) hRun
  | raised session _ hOpen hRun ih =>
    exact (call_rests hStable session _).of_error
      (ready_of_rests ih hOpen) hRun

end Calls

--
-- The Invariant
--

/-
  The pool wrote this image while the record with its LSN
  was the first one staged: `flush_through` takes it for
  flushed.
-/
def Overtaken
    (image : PageImage π)
    (flushedLsn : Nat)
    (staged : Bool) : Prop :=
  staged = true ∧ image.lsn = flushedLsn

instance
    (image : PageImage π)
    (flushedLsn : Nat)
    (staged : Bool) :
    Decidable (Overtaken image flushedLsn staged) :=
  inferInstanceAs (Decidable (_ ∧ _))

/- The record of the image was in the file by then. -/
def Follows
    (moment : Moment π)
    (pageId : PageId)
    (image : PageImage π) : Prop :=
  ∃ record ∈ moment.records, record.lsn = image.lsn ∧
    record.pageId = pageId ∧ record.afterImage = image

/- No write of the pool went ahead of its record. -/
def NoneOvertaken (history : List (Moment π)) : Prop :=
  ∀ moment ∈ history, ∀ pageId image flushedLsn staged,
    moment.event = .wroteBack pageId image flushedLsn staged →
    ¬ Overtaken image flushedLsn staged

/- The same, checked moment by moment. -/
def Moment.overtaken (moment : Moment π) : Bool :=
  match moment.event with
  | .wroteBack _ image flushedLsn staged =>
    decide (Overtaken image flushedLsn staged)
  | _ => false

variable {history : List (Moment π)}

theorem noneOvertaken_of
    (hHistory : history.all (fun moment =>
      !Moment.overtaken moment) = true) :
    NoneOvertaken history := by
  intro moment hMoment pageId image flushedLsn staged hEvent
  have hFalse := List.all_eq_true.mp hHistory moment hMoment
  simpa [Moment.overtaken, hEvent] using hFalse

/- A write of the pool that went ahead of nothing found its
   record in the file. -/
def Followed (history : List (Moment π)) : Prop :=
  ∀ moment ∈ history, ∀ pageId image flushedLsn staged,
    moment.event = .wroteBack pageId image flushedLsn staged →
    ¬ Overtaken image flushedLsn staged →
    Follows moment pageId image

/- What the log keeps about the images in the file. -/
def Kept
    (log : WriteAheadLog (PageImage π))
    (history : List (Moment π)) : Prop :=
  ∀ moment ∈ history, ∀ pageId image flushedLsn staged,
    moment.event = .wroteBack pageId image flushedLsn staged →
    image.lsn < log.flushedLsn ∧
      log.Traced image.lsn pageId image

structure WriteAhead (core : Core π) : Prop where
  sized : core.pageSize ≠ 0
  staged : core.files.wal.Staged
  read : core.files.wal.ReadBelow
  dirty : ∀ pageId frame,
    core.cache pageId = some frame →
    frame.dirty = true →
    core.files.wal.Traced frame.data.lsn pageId frame.data ∧
      core.files.wal.Described frame.data.lsn pageId
        frame.data
  followed : Followed core.files.history
  kept : NoneOvertaken core.files.history →
    Kept core.files.wal core.files.history

--
-- The Log Moving On
--

/- What the log says about images survives the change. -/
structure Carries
    (log log' : WriteAheadLog (PageImage π)) : Prop where
  staged : log'.Staged
  read : log'.ReadBelow
  flushed : log.flushedLsn ≤ log'.flushedLsn
  traced : ∀ lsn pageId image,
    log.Traced lsn pageId image →
    log'.Traced lsn pageId image

variable {log log' : WriteAheadLog (PageImage π)}

theorem Kept.carried
    (hCarries : Carries log log')
    (hKept : Kept log history) :
    Kept log' history := by
  intro moment hMoment pageId image flushedLsn staged hEvent
  rcases hKept moment hMoment pageId image flushedLsn staged
    hEvent with ⟨hLess, hTraced⟩
  exact ⟨Nat.lt_of_lt_of_le hLess hCarries.flushed,
    hCarries.traced _ _ _ hTraced⟩

theorem carries_flushed
    (hStaged : log.Staged)
    (hRead : log.ReadBelow) :
    Carries log log.flushed where
  staged := hStaged.flushed
  read := WriteAheadLog.readBelow_flushed hStaged hRead
  flushed := log.flushedLsn_le_flushed
  traced := fun _ _ _ h =>
    WriteAheadLog.traced_flushed hStaged h

theorem carries_stage
    (hStaged : log.Staged)
    (hRead : log.ReadBelow)
    {record : LogRecord (PageImage π)}
    (hLsn : record.lsn = log.nextLsn) :
    Carries log (log.stage record) where
  staged := hStaged.stage hLsn
  read := hRead
  flushed := Nat.le_refl _
  traced := fun _ _ _ h =>
    WriteAheadLog.traced_stage hStaged hLsn h

variable {moment : Moment π}

/- A moment the pool has no part in. -/
theorem Followed.noted
    (hFollowed : Followed history)
    (hOther : ∀ pageId image flushedLsn staged,
      moment.event ≠
        .wroteBack pageId image flushedLsn staged) :
    Followed (moment :: history) := by
  intro held hHeld pageId image flushedLsn staged hEvent
  rcases List.mem_cons.mp hHeld with rfl | hOld
  · exact absurd hEvent (hOther _ _ _ _)
  · exact hFollowed held hOld pageId image flushedLsn staged
      hEvent

theorem Kept.noted
    (hKept : NoneOvertaken history → Kept log history)
    (hOther : ∀ pageId image flushedLsn staged,
      moment.event ≠ .wroteBack pageId image flushedLsn staged)
    (hNone : NoneOvertaken (moment :: history)) :
    Kept log (moment :: history) := by
  intro held hHeld pageId image flushedLsn staged hEvent
  rcases List.mem_cons.mp hHeld with rfl | hOld
  · exact absurd hEvent (hOther _ _ _ _)
  · exact hKept
      (fun other hOther =>
        hNone other (.tail _ hOther))
      held hOld pageId image flushedLsn staged hEvent

/- Less is logged afterwards than before. -/
theorem carries_truncated
    (hStaged : log.Staged) :
    Carries log log.truncated where
  staged := hStaged.truncated
  read := by
    intro record hRecord
    cases hRecord
  flushed := Nat.le_refl _
  traced := by
    intro lsn pageId image hTraced
    refine ⟨hTraced.known, fun record hRecord hLsn => ?_⟩
    rcases List.mem_append.mp hRecord with hRead | hBuffer
    · cases hRead
    · exact hTraced.unique record
        (List.mem_append_right _ hBuffer) hLsn

theorem carries_resetAt
    (hStaged : log.Staged)
    {baseLsn : Nat}
    (hBase : log.nextLsn ≤ baseLsn) :
    Carries log (log.resetAt baseLsn) where
  staged := WriteAheadLog.Staged.resetAt baseLsn
  read := by
    intro record hRecord
    cases hRecord
  flushed := by
    have hNext := hStaged.nextLsn_eq
    change log.flushedLsn ≤ baseLsn
    omega
  traced := by
    intro lsn pageId image hTraced
    have hLess := hTraced.lsn_lt hStaged
    refine ⟨.inl (Nat.lt_of_lt_of_le hLess hBase), ?_⟩
    intro record hRecord
    cases hRecord

/- A change of the log that keeps its records. -/
theorem carries_same
    (hStaged : log'.Staged)
    (hRead : log.ReadBelow)
    (hBase : log'.baseLsn = log.baseLsn)
    (hFile : log'.file = log.file)
    (hBuffer : log'.buffer = log.buffer)
    (hFlushed : log'.flushedLsn = log.flushedLsn) :
    Carries log log' := by
  have hReadable : log'.readable = log.readable := by
    unfold WriteAheadLog.readable
    rw [hBase, hFile]
  refine ⟨hStaged, ?_, by omega, ?_⟩
  · unfold WriteAheadLog.ReadBelow
    rw [hReadable, hFlushed]
    exact hRead
  · intro lsn pageId image hTraced
    refine ⟨?_, ?_⟩
    · rw [hFlushed, hBuffer]
      exact hTraced.known
    · rw [hReadable, hBuffer]
      exact hTraced.unique

--
-- Steps
--

/- A step in which the pool writes nothing. -/
theorem WriteAhead.moved
    {core core' : Core π}
    (hCore : WriteAhead core)
    (hSize : core'.pageSize = core.pageSize)
    (hCarries : Carries core.files.wal core'.files.wal)
    (hDirty : ∀ pageId frame,
      core'.cache pageId = some frame →
      frame.dirty = true →
      core.cache pageId = some frame ∧
        (core.files.wal.Described frame.data.lsn pageId
            frame.data →
          core'.files.wal.Described frame.data.lsn pageId
            frame.data))
    (hHistory : core'.files.history = core.files.history ∨
      ∃ moment,
        core'.files.history = moment :: core.files.history ∧
        ∀ pageId image flushedLsn staged,
          moment.event ≠
            .wroteBack pageId image flushedLsn staged) :
    WriteAhead core' where
  sized := by
    rw [hSize]
    exact hCore.sized
  staged := hCarries.staged
  read := hCarries.read
  dirty := by
    intro pageId frame hFrame hFlag
    rcases hDirty pageId frame hFrame hFlag with
      ⟨hOld, hDescribed⟩
    rcases hCore.dirty pageId frame hOld hFlag with
      ⟨hTraced, hHeld⟩
    exact ⟨hCarries.traced _ _ _ hTraced, hDescribed hHeld⟩
  followed := by
    rcases hHistory with hSame | ⟨moment, hNew, hOther⟩
    · rw [hSame]
      exact hCore.followed
    · rw [hNew]
      exact hCore.followed.noted hOther
  kept := by
    rcases hHistory with hSame | ⟨moment, hNew, hOther⟩
    · rw [hSame]
      exact fun hNone => (hCore.kept hNone).carried hCarries
    · rw [hNew]
      intro hNone
      exact Kept.carried hCarries
        (Kept.noted hCore.kept hOther hNone)

theorem Carries.refl
    (hStaged : log.Staged)
    (hRead : log.ReadBelow) : Carries log log :=
  carries_same hStaged hRead rfl rfl rfl rfl

variable {core : Core π} {pageId : PageId}

/- The pool writes a dirty page back. -/
theorem WriteAhead.writtenBack
    (hCore : WriteAhead core)
    {image : PageImage π}
    (hHit : core.cache pageId = some ⟨pageId, image, true⟩) :
    WriteAhead { core with
      cache := Function.update core.cache pageId
        (some ⟨pageId, image, false⟩)
      files := core.files.writtenBack core.pageSize pageId
        image } := by
  rcases hCore.dirty pageId _ hHit rfl with
    ⟨hTraced, hDescribed⟩
  simp only at hTraced hDescribed
  have hStaged := hCore.staged
  let log := core.files.wal
  let log' := if image.lsn > log.flushedLsn then
    log.flushed else log
  have hCarries : Carries log log' := by
    unfold log'
    split
    · exact carries_flushed hStaged hCore.read
    · exact Carries.refl hStaged hCore.read
  have hKeeps : ∀ lsn other held,
      log.Described lsn other held →
      log'.Described lsn other held := by
    intro lsn other held hHeld
    unfold log'
    split
    · exact WriteAheadLog.described_flushed hHeld
    · exact hHeld
  -- the first staged record is the one that can be missed
  have hFirst : ¬ image.lsn > log.flushedLsn →
      ∀ record ∈ log.buffer, record.lsn = image.lsn →
        Overtaken image log.flushedLsn
          (!log.buffer.isEmpty) := by
    intro hBelow record hRecord hLsn
    have hStart := hStaged.flushedLsn_le hRecord
    refine ⟨?_, ?_⟩
    · cases hBuffer : log.buffer with
      | nil =>
        rw [hBuffer] at hRecord
        cases hRecord
      | cons first rest => rfl
    · change log.flushedLsn ≤ record.lsn at hStart
      omega
  refine ⟨hCore.sized, hCarries.staged, hCarries.read,
    ?_, ?_, ?_⟩
  · intro other frame hFrame hFlag
    simp only at hFrame
    by_cases hSame : other = pageId
    · rw [hSame, Function.update_self, Option.some.injEq]
        at hFrame
      rw [← hFrame] at hFlag
      cases hFlag
    · rw [Function.update_of_ne hSame] at hFrame
      rcases hCore.dirty other frame hFrame hFlag with
        ⟨hOther, hHeld⟩
      exact ⟨hCarries.traced _ _ _ hOther, hKeeps _ _ _ hHeld⟩
  · intro moment hMoment other held flushedLsn staged hEvent
      hAsked
    rcases List.mem_cons.mp hMoment with rfl | hOld
    · cases hEvent
      rcases hDescribed with ⟨record, hRecord, hSame⟩
      refine ⟨record, ?_, hSame⟩
      change record ∈ log'.file
      unfold log'
      split
      · rw [WriteAheadLog.flushed_file]
        exact hRecord
      · rename_i hBelow
        rcases List.mem_append.mp hRecord with hFile | hBuffer
        · exact hFile
        · exact absurd
            (hFirst hBelow record hBuffer hSame.1) hAsked
    · exact (hCore.followed.noted
        (fun _ _ _ _ => by simp)) moment hOld other held
          flushedLsn staged hEvent hAsked
  · intro hNone moment hMoment other held flushedLsn staged
      hEvent
    have hAsked := hNone moment hMoment other held flushedLsn
      staged hEvent
    rcases List.mem_cons.mp hMoment with rfl | hOld
    · cases hEvent
      refine ⟨?_, hCarries.traced _ _ _ hTraced⟩
      change image.lsn < log'.flushedLsn
      unfold log'
      split
      · have hLess := hTraced.lsn_lt hStaged
        rw [hStaged.nextLsn_eq] at hLess
        rw [WriteAheadLog.flushed_flushedLsn]
        exact hLess
      · rename_i hBelow
        rcases hTraced.known with hFlushed | ⟨record, hMem, hLsn⟩
        · exact hFlushed
        · exact absurd (hFirst hBelow record hMem hLsn)
            hAsked
    · have hEarlier : Kept log' (⟨.logFlushed,
          core.files.pages, log'.file⟩ ::
            core.files.history) := by
        refine Kept.carried hCarries
          (Kept.noted hCore.kept (fun _ _ _ _ => by simp) ?_)
        exact fun other hOther =>
          hNone other (.tail _ hOther)
      exact hEarlier moment hOld other held flushedLsn staged
        hEvent

/- A page is logged and buffered. -/
theorem WriteAhead.logged
    (hCore : WriteAhead core)
    (pageId : PageId)
    (transactionId : Nat)
    (before : PageImage π)
    {raw : PageImage π}
    (hLength : Wal.byteLength raw = core.pageSize) :
    WriteAhead
      (core.logged pageId transactionId before raw) := by
  have hStaged := hCore.staged
  have hRaw : raw ≠ .empty := by
    rintro rfl
    exact hCore.sized hLength.symm
  have hNew := WriteAheadLog.updateRecord_traced
    transactionId pageId before raw.stamp hStaged hCore.read
  have hImage : (core.files.wal.updateRecord transactionId
      pageId before raw.stamp).afterImage =
        raw.stamp (core.files.wal.updateRecord transactionId
          pageId before raw.stamp).lsn :=
    WriteAheadLog.updateRecord_afterImage _ _ _ _
  simp only [hImage] at hNew
  refine ⟨hCore.sized, hStaged.updated _ _ _ _, ?_, ?_,
    hCore.followed, ?_⟩
  · intro record hRecord
    change record ∈ (core.files.wal.updated transactionId
      pageId before raw.stamp).readable at hRecord
    unfold WriteAheadLog.readable at hRecord
    rw [WriteAheadLog.updated_baseLsn,
      WriteAheadLog.updated_file] at hRecord
    have hLess := hCore.read record hRecord
    change record.lsn < (core.files.wal.updated transactionId
      pageId before raw.stamp).flushedLsn
    rw [WriteAheadLog.updated_flushedLsn]
    exact hLess
  · intro other frame hFrame hFlag
    simp only [Core.logged] at hFrame
    by_cases hSame : other = pageId
    · rw [hSame, Function.update_self, Option.some.injEq]
        at hFrame
      subst hFrame
      rw [hSame, PageImage.lsn_stamp hRaw]
      exact hNew
    · rw [Function.update_of_ne hSame] at hFrame
      rcases hCore.dirty other frame hFrame hFlag with
        ⟨hTraced, hDescribed⟩
      have hBoth := WriteAheadLog.traced_updated
        transactionId pageId before raw.stamp hStaged
        (.inl hSame) hTraced
      exact ⟨hBoth.1, hBoth.2 hDescribed⟩
  · intro hNone moment hMoment other image flushedLsn staged
      hEvent
    rcases hCore.kept hNone moment hMoment other image
      flushedLsn staged hEvent with ⟨hLess, hTraced⟩
    refine ⟨?_, (WriteAheadLog.traced_updated transactionId
      pageId before raw.stamp hStaged (.inr hLess)
      hTraced).1⟩
    change image.lsn < (core.files.wal.updated transactionId
      pageId before raw.stamp).flushedLsn
    rw [WriteAheadLog.updated_flushedLsn]
    exact hLess

variable {core' : Core π}

/- A step in which log and moments stay as they are. -/
theorem WriteAhead.still
    (hCore : WriteAhead core)
    (hSize : core'.pageSize = core.pageSize)
    (hFiles : core'.files = core.files)
    (hCache : ∀ pageId frame,
      core'.cache pageId = some frame →
      frame.dirty = true →
      core.cache pageId = some frame) :
    WriteAhead core' := by
  refine hCore.moved hSize ?_ ?_ (.inl (by rw [hFiles]))
  · rw [hFiles]
    exact Carries.refl hCore.staged hCore.read
  · intro pageId frame hFrame hFlag
    refine ⟨hCache pageId frame hFrame hFlag, ?_⟩
    rw [hFiles]
    exact fun h => h

theorem WriteAhead.quiet
    (hCore : WriteAhead core)
    (hQuiet : core.Quiet core') : WriteAhead core' := by
  cases hQuiet with
  | @load pageId image hMiss hPage =>
    refine hCore.still rfl rfl fun other frame hFrame hFlag => ?_
    simp only at hFrame
    by_cases hSame : other = pageId
    · rw [hSame, Function.update_self, Option.some.injEq]
        at hFrame
      rw [← hFrame] at hFlag
      cases hFlag
    · rwa [Function.update_of_ne hSame] at hFrame
  | @drop pageId image hHit =>
    refine hCore.still rfl rfl fun other frame hFrame _ => ?_
    simp only at hFrame
    by_cases hSame : other = pageId
    · simp [hSame] at hFrame
    · rwa [Function.update_of_ne hSame] at hFrame
  | writeBack hHit => exact hCore.writtenBack hHit
  | clear _ =>
    exact hCore.still rfl rfl fun _ _ hFrame _ =>
      nomatch hFrame

variable {reason : String} {transactionId : Nat}
variable {before : PageImage π}

/- What the hook answers is what a captured write goes by. -/
theorem Core.Answers.of_intends
    (hIntends : core.Intends pageId reason core'
      transactionId before) :
    core.Answers pageId reason true core' transactionId
      before := by
  unfold Core.Answers
  rw [if_pos rfl]
  exact hIntends

theorem WriteAhead.answers
    {capture : Bool}
    (hCore : WriteAhead core)
    (hAnswers : core.Answers pageId reason capture core'
      transactionId before) :
    WriteAhead core' := by
  unfold Core.Answers at hAnswers
  split at hAnswers
  · cases hAnswers with
    | outside _ => exact hCore
    | again _ _ _ => exact hCore
    | first _ _ _ _ =>
      exact hCore.still rfl rfl fun _ _ h _ => h
  · rw [hAnswers.1]
    exact hCore

/- The meta page goes past the pool and past the log. -/
theorem WriteAhead.metaWritten
    (hCore : WriteAhead core)
    (checkpointLsn : Nat) :
    WriteAhead (core.metaWritten checkpointLsn) := by
  refine hCore.moved rfl
    (Carries.refl hCore.staged hCore.read)
    (fun pageId frame hFrame _ => ⟨?_, fun h => h⟩)
    (.inr ⟨_, rfl, fun _ _ _ _ => by simp⟩)
  simp only [Core.metaWritten] at hFrame
  by_cases hSame : pageId = metaPageId
  · simp [hSame] at hFrame
  · rwa [Function.update_of_ne hSame] at hFrame

theorem writeAhead_stable :
    Stable Anywhere (WriteAhead (π := π)) := by
  intro core core' hCore hStep
  have hStaged := hCore.staged
  have hRead := hCore.read
  cases hStep with
  | quiet hQuiet => exact hCore.quiet hQuiet
  | intended hIntends =>
    have hAnswers := Core.Answers.of_intends hIntends
    exact hCore.answers hAnswers
  | changed reason capture hAnswers _ hLength =>
    refine (hCore.answers hAnswers).logged _ _ _ ?_
    rw [hLength, hAnswers.pageSize]
  | ended recordType transactionId _ =>
    exact hCore.moved rfl (carries_stage hStaged hRead rfl)
      (fun _ _ h _ =>
        ⟨h, WriteAheadLog.described_stage⟩) (.inl rfl)
  | forgot transactionId =>
    exact hCore.moved rfl
      (carries_same (hStaged.forget transactionId) hRead
        rfl rfl rfl rfl)
      (fun _ _ h _ => ⟨h, fun hHeld => hHeld⟩) (.inl rfl)
  | flushed =>
    exact hCore.moved rfl (carries_flushed hStaged hRead)
      (fun _ _ h _ =>
        ⟨h, WriteAheadLog.described_flushed⟩)
      (.inr ⟨_, rfl, fun _ _ _ _ => by simp⟩)
  | checkpointed hClean _ _ =>
    have hCut : WriteAhead { core with
        files := { core.files with
          wal := core.files.wal.truncated }.note
            .logTruncated } := by
      refine hCore.moved rfl (carries_truncated hStaged)
        (fun pageId frame hFrame hFlag => ?_)
        (.inr ⟨_, rfl, fun _ _ _ _ => by simp⟩)
      rw [hClean pageId frame hFrame] at hFlag
      cases hFlag
    exact hCut.metaWritten _
  | shut hEmpty =>
    exact hCore.moved rfl
      (carries_same
        ⟨hStaged.bytes, hStaged.run, hStaged.tail⟩ hRead
        rfl rfl rfl rfl)
      (fun _ _ h _ => ⟨h, fun hHeld => hHeld⟩) (.inl rfl)
  | _ => exact hCore.still rfl rfl fun _ _ h _ => h

/- Nothing is dirty while nothing is cached. -/
theorem not_dirty
    (hUncached : core.Uncached)
    {frame : Frame (PageImage π)}
    {P : Prop}
    (hFrame : core.cache pageId = some frame) : P := by
  rw [hUncached] at hFrame
  cases hFrame

theorem writeAhead_recoverable :
    Recoverable (WriteAhead (π := π)) := by
  intro core core' hCore hStep
  have hStaged := hCore.staged
  have hRead := hCore.read
  cases hStep with
  | recovered hUncached _ _ _ _ =>
    exact hCore.moved rfl (Carries.refl hStaged hRead)
      (fun _ _ h _ => not_dirty hUncached h)
      (.inr ⟨_, rfl, fun _ _ _ _ => by simp⟩)
  | compensated hUncached _ _ _ =>
    exact hCore.moved rfl (carries_stage hStaged hRead rfl)
      (fun _ _ h _ => not_dirty hUncached h) (.inl rfl)
  | aborted transactionId hUncached =>
    have hStage : Carries core.files.wal
        (core.files.wal.stage (core.files.wal.endRecord
          .abort transactionId)) :=
      carries_stage hStaged hRead rfl
    exact hCore.moved rfl
      ⟨hStage.staged.forget transactionId, hStage.read,
        hStage.flushed, fun lsn pageId image h =>
          ⟨(hStage.traced lsn pageId image h).known,
            (hStage.traced lsn pageId image h).unique⟩⟩
      (fun _ _ h _ => not_dirty hUncached h) (.inl rfl)
  | flushed hUncached =>
    exact hCore.moved rfl (carries_flushed hStaged hRead)
      (fun _ _ h _ => not_dirty hUncached h)
      (.inr ⟨_, rfl, fun _ _ _ _ => by simp⟩)
  | @restarted image metaPage baseLsn hUncached _ _ hBase =>
    have hLoaded : WriteAhead
        { core with metaPage := metaPage } :=
      hCore.still rfl rfl fun _ _ h _ => h
    have hWritten := hLoaded.metaWritten baseLsn
    refine hWritten.moved rfl
      (carries_resetAt hStaged hBase)
      (fun pageId frame hFrame _ => ?_)
      (.inr ⟨_, rfl, fun _ _ _ _ => by simp⟩)
    change Function.update core.cache metaPageId none
      pageId = some frame at hFrame
    rw [hUncached] at hFrame
    by_cases hSame : pageId = metaPageId
    · simp [hSame] at hFrame
    · rw [Function.update_of_ne hSame] at hFrame
      cases hFrame

theorem writeAhead_opened
    (stored : Pager.Stored π)
    {metaPage : MetaPage}
    (hValid : validatePageSize metaPage.pageSize = .ok ()) :
    WriteAhead (opened stored metaPage) where
  sized := by
    have hSize := pageSize_bounds hValid
    change metaPage.pageSize ≠ 0
    omega
  staged := WriteAheadLog.openFile_staged _ _
  read := WriteAheadLog.openFile_readBelow _ _
  dirty := fun _ _ hFrame => nomatch hFrame
  followed := by
    intro moment hMoment pageId image flushedLsn staged hEvent
    rcases List.mem_singleton.mp hMoment with rfl
    cases hEvent
  kept := by
    intro _ moment hMoment pageId image flushedLsn staged
      hEvent
    rcases List.mem_singleton.mp hMoment with rfl
    cases hEvent

theorem served_writeAhead
    {engine : Engine π}
    (hServed : Served engine) :
    WriteAhead engine.core :=
  (served_keeps writeAhead_stable writeAhead_recoverable
    (fun stored _ hValid => writeAhead_opened stored hValid)
    (fun _ _ hCore => hCore.still rfl rfl fun _ _ h _ => h)
    hServed).1

--
-- The Rule
--

/- A new database with two frames of small pages. -/
def newOptions : Pager.Options where
  path := "pages.db"
  databaseId := "pages"
  pageSize := 256
  verifyChecksums := true
  bufferPoolFrames := 2

def newDatabase : Engine Bytes :=
  let engine := Pager.engineOver newOptions ⟨[], []⟩
    (MetaPage.create 256) (BufferPool.ofFrames 256 2)
  match (boot false true).run engine with
  | .ok _ final => final
  | .error _ final => final

theorem newDatabase_served : Served newDatabase :=
  @Served.opened Bytes true newOptions ⟨[], []⟩ _ _ rfl rfl
    rfl

/- Two pages are allocated and everything is flushed. -/
def flushedDatabase : Engine Bytes :=
  [.allocatePage .heap, .allocatePage .heap,
    .sync].foldl (afterCall "default") newDatabase

theorem flushedDatabase_served : Served flushedDatabase :=
  served_afterCalls "default" newDatabase_served
    (by decide +kernel)

def flaggedPage (flags : Nat) : Page Bytes :=
  { Page.blank .heap 256 with flags := flags }

/- Page 1 is written, and leaves the pool. -/
def evictedDatabase : Engine Bytes :=
  [.writePage 1 (flaggedPage 1), .readPage 2,
    .readRaw 0].foldl (afterCall "default") flushedDatabase

theorem evictedDatabase_served : Served evictedDatabase :=
  served_afterCalls "default" flushedDatabase_served
    (by decide +kernel)

/- The image of page 1 that left the pool. -/
def evictedImage : PageImage Bytes :=
  .slotted { flaggedPage 1 with lsn := 1500 }

/- Page 1 leaves the pool once its record is in the file, and
   that of page 2 is still staged. -/
def committedDatabase : Engine Bytes :=
  [.allocatePage .heap, .sync, .allocatePage .heap, .sync,
    .writePage 1 (flaggedPage 1), .logCommit 1,
    .writePage 2 (flaggedPage 1), .readRaw 0].foldl
      (afterCall "default") newDatabase

theorem committedDatabase_served : Served committedDatabase :=
  served_afterCalls "default" newDatabase_served
    (by decide +kernel)

theorem committedDatabase_event :
    (committedDatabase.files.history.head
        (by decide +kernel)).event =
      .wroteBack 1 evictedImage 1844 true := by
  decide +kernel

variable {engine : Engine π}

/-
  When the pool wrote a page, the record of that image was
  in the log file already, unless it was the first record
  still staged.
-/
theorem page_follows_record
    (hServed : Served engine)
    {moment : Moment π}
    (hMoment : moment ∈ engine.files.history)
    {pageId : PageId}
    {image : PageImage π}
    {flushedLsn : Nat}
    {staged : Bool}
    (hEvent : moment.event =
      .wroteBack pageId image flushedLsn staged)
    (hAsked : ¬ Overtaken image flushedLsn staged) :
    ∃ record ∈ moment.records, record.lsn = image.lsn ∧
      record.pageId = pageId ∧ record.afterImage = image :=
  (served_writeAhead hServed).followed moment hMoment pageId
    image flushedLsn staged hEvent hAsked

theorem page_follows_record_committed :
    ∃ moment ∈ committedDatabase.files.history,
      moment.event = .wroteBack 1 evictedImage 1844 true ∧
      ∃ record ∈ moment.records, record.lsn = 1500 ∧
        record.pageId = 1 ∧ record.afterImage = evictedImage :=
  ⟨_, List.head_mem _, committedDatabase_event,
    page_follows_record committedDatabase_served
      (List.head_mem _) committedDatabase_event (by decide)⟩

/- Page 1 is in the file, its record still in memory. -/
theorem page_before_record :
    Served evictedDatabase ∧
      ∃ moment ∈ evictedDatabase.files.history,
        moment.event = .wroteBack 1 evictedImage 1500 true ∧
        evictedImage.lsn = 1500 ∧
        (∀ record ∈ moment.records,
          record.lsn ≠ evictedImage.lsn) ∧
        ∃ record ∈ evictedDatabase.files.wal.buffer,
          record.lsn = evictedImage.lsn := by
  refine ⟨evictedDatabase_served,
    evictedDatabase.files.history.head (by decide +kernel),
    List.head_mem _, by decide +kernel, rfl,
    by decide +kernel, by decide +kernel⟩

/-
  As long as no page overtakes its record, the record of an
  image the pool wrote is never replaced, no later change is
  given its LSN, and the record that has it holds the image.
-/
theorem record_outlives_page
    (hServed : Served engine)
    (hNone : NoneOvertaken engine.files.history)
    {moment : Moment π}
    (hMoment : moment ∈ engine.files.history)
    {pageId : PageId}
    {image : PageImage π}
    {flushedLsn : Nat}
    {staged : Bool}
    (hEvent : moment.event =
      .wroteBack pageId image flushedLsn staged) :
    (∀ transactionId changed tail,
      engine.files.wal.superseded transactionId changed =
        some tail →
      tail.lsn ≠ image.lsn) ∧
    (∀ transactionId changed before afterFor,
      image.lsn < (engine.files.wal.updateRecord
        transactionId changed before afterFor).lsn) ∧
    ∀ record ∈ engine.core.readable,
      record.lsn = image.lsn →
      record.pageId = pageId ∧
        record.afterImage = image := by
  have hCore := served_writeAhead hServed
  have hStaged : engine.files.wal.Staged := hCore.staged
  rcases hCore.kept hNone moment hMoment pageId image
    flushedLsn staged hEvent with ⟨hLess, hTraced⟩
  change image.lsn < engine.files.wal.flushedLsn at hLess
  refine ⟨?_, ?_, ?_⟩
  · intro transactionId changed tail hTail
    have hStart := hStaged.flushedLsn_le
      (WriteAheadLog.tail_mem_buffer hStaged
        (hStaged.superseded hTail).1)
    omega
  · intro transactionId changed before afterFor
    have hStart := WriteAheadLog.flushedLsn_le_updateRecord
      transactionId changed before afterFor hStaged
    omega
  · intro record hRecord hLsn
    exact hTraced.unique record
      (List.mem_append_left _ hRecord) hLsn

theorem record_outlives_page_committed :
    (∀ transactionId changed tail,
      committedDatabase.files.wal.superseded transactionId
        changed = some tail →
      tail.lsn ≠ 1500) ∧
    ∀ record ∈ committedDatabase.core.readable,
      record.lsn = 1500 →
      record.pageId = 1 ∧ record.afterImage = evictedImage := by
  have hNone : NoneOvertaken committedDatabase.files.history :=
    noneOvertaken_of (by decide +kernel)
  have hOutlives := record_outlives_page
    committedDatabase_served hNone (List.head_mem _)
    committedDatabase_event
  exact ⟨hOutlives.1, hOutlives.2.2⟩

/-
  Page 1 is in the file under an LSN; its next change takes
  the place of the record that had it.
-/
theorem record_replaced_under_page :
    let changed := afterCall "default" evictedDatabase
      (.writePage 1 (flaggedPage 2))
    Served changed ∧
      changed.files.pages[1]? = some evictedImage ∧
      (∃ moment ∈ changed.files.history,
        moment.event = .wroteBack 1 evictedImage 1500 true) ∧
      ∃ record ∈ changed.files.wal.buffer,
        record.lsn = evictedImage.lsn ∧
          record.pageId = 1 ∧
          record.afterImage ≠ evictedImage := by
  intro changed
  refine ⟨served_afterCall "default" evictedDatabase_served
    (by decide +kernel) _, by decide +kernel, ?_,
    by decide +kernel⟩
  exact ⟨changed.files.history.head (by decide +kernel),
    List.head_mem _, by decide +kernel⟩

end Database

end ChenDB
