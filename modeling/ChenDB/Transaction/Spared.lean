import ChenDB.Storage.Shown
import ChenDB.Transaction.Interleaved
import ChenDB.Transaction.Monotone
import ChenDB.Transaction.Sessions
import ChenDB.Wal.Analysis

/-
  Rolling back alone: while no two open transactions have
  changed the same page, a rollback takes nothing back that
  another transaction wrote.
-/

--
-- Images in the Log
--

namespace ChenDB

namespace Database

open Library.StateExcept
open Mvcc (Version deleted)
open Storage
open Transaction (IsolationLevel OpenTransaction
  TransactionManager UndoLog UndoRecord)
open Wal (LogRecord RecordType WriteAheadLog noTransaction)

section Log

variable {π : Type} {log : WriteAheadLog (PageImage π)}

/- The log has an image to put back for the transaction. -/
def Undoes
    (log : WriteAheadLog (PageImage π))
    (transactionId : Nat)
    (pageId : PageId)
    (image : PageImage π) : Prop :=
  ∃ record ∈ log.readable ++ log.buffer,
    record.transactionId = transactionId ∧
      record.hasUndo = true ∧ record.pageId = pageId ∧
      record.beforeImage = image

variable {transactionId other : Nat} {pageId changed : PageId}
variable {image before : PageImage π}

theorem Undoes.of_flushed
    (hUndoes : Undoes log.flushed transactionId pageId
      image) :
    Undoes log transactionId pageId image := by
  rcases hUndoes with ⟨record, hRecord, hRest⟩
  rw [WriteAheadLog.flushed_buffer, List.append_nil]
    at hRecord
  exact ⟨record, List.mem_append.mpr
    (WriteAheadLog.mem_readable_flushed hRecord), hRest⟩

theorem Undoes.of_stage
    {record : LogRecord (PageImage π)}
    (hUndoes : Undoes (log.stage record) transactionId pageId
      image) :
    Undoes log transactionId pageId image ∨
      record.transactionId = transactionId ∧
        record.hasUndo = true ∧ record.pageId = pageId ∧
        record.beforeImage = image := by
  rcases hUndoes with ⟨held, hHeld, hRest⟩
  have hSplit : held ∈ log.readable ++ log.buffer ∨
      held = record := by
    rcases List.mem_append.mp hHeld with hFile | hBuffer
    · exact .inl (List.mem_append_left _ hFile)
    · rcases List.mem_append.mp hBuffer with hOld | hNew
      · exact .inl (List.mem_append_right _ hOld)
      · exact .inr (List.mem_singleton.mp hNew)
  rcases hSplit with hOld | rfl
  · exact .inl ⟨held, hOld, hRest⟩
  · exact .inr hRest

/- A record without an image adds none. -/
theorem Undoes.of_endRecord
    {recordType : RecordType}
    (hUndoes : Undoes
      (log.stage (log.endRecord recordType other))
      transactionId pageId image) :
    Undoes log transactionId pageId image := by
  rcases hUndoes.of_stage with hOld | ⟨_, hUndo, _⟩
  · exact hOld
  · simp [LogRecord.hasUndo, WriteAheadLog.endRecord,
      WriteAheadLog.nextRecord] at hUndo

/- A change adds the image it is logged with, and keeps the
   one of a record it takes the place of. -/
theorem Undoes.of_updated
    (hStaged : log.Staged)
    {afterFor : Nat → PageImage π}
    (hUndoes : Undoes
      (log.updated other changed before afterFor)
      transactionId pageId image) :
    Undoes log transactionId pageId image ∨
      other = transactionId ∧ changed = pageId ∧
        before = image ∧
        Wal.byteLength before ≠ 0 := by
  revert hUndoes
  unfold WriteAheadLog.updated WriteAheadLog.updateRecord
  cases hTail : log.superseded other changed with
  | none =>
    intro hUndoes
    rcases hUndoes.of_stage with
      hOld | ⟨hId, hUndo, hPage, hImage⟩
    · exact .inl hOld
    · exact .inr ⟨hId, hPage, hImage, of_decide_eq_true hUndo⟩
  | some tail =>
    rcases hStaged.superseded hTail with
      ⟨hMem, hLast, _, hPage, hOwner⟩
    have hOldTail : tail ∈ log.readable ++ log.buffer :=
      List.mem_append_right _
        (List.mem_of_getLast? hLast)
    rintro ⟨held, hHeld, hId, hUndo, hChanged, hImage⟩
    rcases List.mem_append.mp hHeld with hFile | hBuffer
    · exact .inl ⟨held, List.mem_append_left _ hFile,
        hId, hUndo, hChanged, hImage⟩
    · rcases List.mem_append.mp hBuffer with hOld | hNew
      · exact .inl ⟨held, List.mem_append_right _
          (List.dropLast_subset _ hOld), hId, hUndo,
          hChanged, hImage⟩
      · rcases List.mem_singleton.mp hNew with rfl
        exact .inl ⟨tail, hOldTail, hOwner.trans hId,
          hUndo, hPage.trans hChanged, hImage⟩

end Log

--
-- The Invariant
--

variable {ρ : Type}

/- An image that a rollback of the transaction writes. -/
inductive Source
    (core : Core (Record ρ))
    (transaction : OpenTransaction (PageImage (Record ρ)))
    (pageId : PageId)
    (image : PageImage (Record ρ)) : Prop where
  | kept {record} :
      record ∈ transaction.undo.records →
      record.pageId = pageId →
      record.beforeImage = image →
      Source core transaction pageId image
  | logged :
      Undoes core.files.wal transaction.transactionId pageId
        image →
      Source core transaction pageId image

/- Read as a meta page, the image covers these pages. -/
def Counts
    (allocated : Allocated)
    (image : PageImage (Record ρ)) : Prop :=
  ∀ page, image.asMeta = .ok page →
    ∀ entry ∈ allocated, entry.2 < page.pageCount

/- Every version of the page that is foreign to the
   transaction is in the image too. -/
def Holds
    (transactionId : Nat)
    (image now : PageImage (Record ρ)) : Prop :=
  ∀ slotId version,
    versionAt now slotId = some version →
    Foreign transactionId version.header →
    ∃ kept, versionAt image slotId = some kept ∧
      Survives transactionId version kept

/-
  What holds while the open transactions keep to pages of
  their own: the images one of them would put back are of
  pages it captured, one for each, and lack nothing that is
  foreign to it.
-/
structure Separate
    (allocated : Allocated)
    (core : Core (Record ρ)) : Prop where
  issued : ∀ transactionId pageId image,
    Undoes core.files.wal transactionId pageId image →
    transactionId < core.transactions.nextId
  counted : ∀ image,
    core.view metaPageId = some image →
    Counts allocated image
  live : ∀ entry ∈ allocated, entry.2 < core.metaPage.pageCount
  captured : ∀ transaction ∈ core.transactions.running,
    ∀ pageId image, Source core transaction pageId image →
      transaction.undo.has pageId = true
  unique : ∀ transaction ∈ core.transactions.running,
    ∀ pageId first second,
      Source core transaction pageId first →
      Source core transaction pageId second →
      first = second
  covered : ∀ transaction ∈ core.transactions.running,
    ∀ image, Source core transaction metaPageId image →
      Counts (allocated.without transaction.transactionId)
        image
  holds : ∀ transaction ∈ core.transactions.running,
    ∀ pageId image now,
      Source core transaction pageId image →
      core.view pageId = some now →
      Holds transaction.transactionId image now

section Images

variable {image now : PageImage (Record ρ)}

@[simp] theorem versionAt_stamp
    (image : PageImage (Record ρ))
    (lsn slotId : Nat) :
    versionAt (image.stamp lsn) slotId =
      versionAt image slotId := by
  cases image with
  | zeros size =>
    simp [versionAt, PageImage.stamp, Page.ofZeros, Page.read]
  | _ => rfl

/- The versions of a page do not depend on its LSN. -/
theorem versionAt_of_content
    (hContent : now.content = image.content)
    (slotId : Nat) :
    versionAt now slotId = versionAt image slotId := by
  have hSame := congrArg (versionAt · slotId) hContent
  simpa [PageImage.content] using hSame

theorem asMeta_stamp
    {lsn : Nat}
    {page : MetaPage}
    (hMeta : (image.stamp lsn).asMeta = .ok page) :
    ∃ held, image.asMeta = .ok held ∧
      held.pageCount = page.pageCount := by
  have hImage := asMeta_eq hMeta
  cases image with
  | metaPage held =>
    have hSame := PageImage.metaPage.inj hImage
    refine ⟨held, ?_, by rw [← hSame]⟩
    unfold PageImage.stamp PageImage.asMeta at hMeta
    unfold PageImage.asMeta
    simp only at hMeta ⊢
    split at hMeta
    · cases hMeta
    · rename_i hCount
      exact if_neg hCount
  | empty => nomatch hImage
  | zeros size => nomatch hImage
  | slotted page => nomatch hImage

variable {allocated : Allocated}

theorem Counts.stamp
    (hCounts : Counts allocated image)
    (lsn : Nat) : Counts allocated (image.stamp lsn) := by
  intro page hMeta entry hEntry
  rcases asMeta_stamp hMeta with ⟨held, hHeld, hCount⟩
  rw [← hCount]
  exact hCounts held hHeld entry hEntry

theorem Counts.mono
    {fewer : Allocated}
    (hCounts : Counts allocated image)
    (hFewer : ∀ entry ∈ fewer, entry ∈ allocated) :
    Counts fewer image :=
  fun page hMeta entry hEntry =>
    hCounts page hMeta entry (hFewer entry hEntry)

theorem Survives.refl
    (transactionId : Nat)
    (version : Version ρ) :
    Survives transactionId version version :=
  ⟨rfl, rfl, fun _ _ => rfl⟩

variable {transactionId : Nat}

theorem Survives.foreign
    {version kept : Version ρ}
    (hSurvives : Survives transactionId version kept)
    (hForeign : Foreign transactionId version.header) :
    Foreign transactionId kept.header := by
  rcases hForeign with hMaker | ⟨hDeleted, hOther⟩
  · exact .inl (by rwa [hSurvives.xmin])
  · have hSame := hSurvives.xmax hDeleted hOther
    refine .inr ⟨?_, by rwa [hSame]⟩
    unfold deleted at hDeleted ⊢
    rwa [hSame]

theorem Survives.trans
    {first second third : Version ρ}
    (hFirst : Survives transactionId first second)
    (hSecond : Survives transactionId second third) :
    Survives transactionId first third where
  row := hSecond.row.trans hFirst.row
  xmin := hSecond.xmin.trans hFirst.xmin
  xmax := by
    intro hDeleted hOther
    have hSame := hFirst.xmax hDeleted hOther
    have hStill : deleted second.header = true := by
      unfold deleted at hDeleted ⊢
      rwa [hSame]
    rw [← hSame] at hOther ⊢
    exact hSecond.xmax hStill hOther

theorem holds_refl
    (transactionId : Nat)
    (image : PageImage (Record ρ)) :
    Holds transactionId image image :=
  fun _ version hVersion _ =>
    ⟨version, hVersion, .refl _ _⟩

/- A page without versions lacks none. -/
theorem holds_of_none
    (hNone : ∀ slotId, versionAt now slotId = none) :
    Holds transactionId image now := by
  intro slotId version hVersion
  rw [hNone slotId] at hVersion
  cases hVersion

theorem Holds.stamp
    (hHolds : Holds transactionId image now)
    (lsn : Nat) :
    Holds transactionId image (now.stamp lsn) := by
  intro slotId version hVersion
  rw [versionAt_stamp] at hVersion
  exact hHolds slotId version hVersion

end Images

--
-- What the Pool Does
--

section Steps

variable {allocated : Allocated} {core core' : Core (Record ρ)}

variable {transactionId : Nat} {pageId : PageId}
variable {image : PageImage (Record ρ)}

theorem undoes_quiet
    (hQuiet : core.Quiet core')
    (hUndoes : Undoes core'.files.wal transactionId pageId
      image) :
    Undoes core.files.wal transactionId pageId image := by
  cases hQuiet with
  | load _ _ => exact hUndoes
  | drop _ => exact hUndoes
  | clear _ => exact hUndoes
  | writeBack _ =>
    unfold Files.writtenBack Files.note at hUndoes
    simp only at hUndoes
    split at hUndoes
    · exact hUndoes.of_flushed
    · exact hUndoes

theorem quiet_transactions
    (hQuiet : core.Quiet core') :
    core'.transactions = core.transactions := by
  cases hQuiet <;> rfl

theorem Source.mono
    {transaction : OpenTransaction (PageImage (Record ρ))}
    (hLog : ∀ transactionId pageId image,
      Undoes core'.files.wal transactionId pageId image →
      Undoes core.files.wal transactionId pageId image)
    (hSource : Source core' transaction pageId image) :
    Source core transaction pageId image := by
  cases hSource with
  | kept hRecord hPage hImage =>
    exact .kept hRecord hPage hImage
  | logged hUndoes => exact .logged (hLog _ _ _ hUndoes)

/- A state with no more to put back, that shows the same;
   what is open was open, or has just begun. -/
theorem Separate.still
    (hSeparate : Separate allocated core)
    (hNext : core.transactions.nextId ≤
      core'.transactions.nextId)
    (hRunning : ∀ transaction ∈ core'.transactions.running,
      (∃ old ∈ core.transactions.running,
        old.undo = transaction.undo ∧
          old.transactionId = transaction.transactionId) ∨
      transaction.undo.records = [] ∧
        core.transactions.nextId ≤ transaction.transactionId)
    (hLog : ∀ transactionId pageId image,
      Undoes core'.files.wal transactionId pageId image →
      Undoes core.files.wal transactionId pageId image)
    (hView : ∀ pageId image,
      core'.view pageId = some image →
      core.view pageId = some image ∨
        ∃ size, image = .zeros size)
    (hLive : ∀ entry ∈ allocated,
      entry.2 < core'.metaPage.pageCount) :
    Separate allocated core' := by
  -- only what was open has something to put back
  have hOld : ∀ transaction ∈ core'.transactions.running,
      ∀ pageId image,
      Source core' transaction pageId image →
      ∃ old ∈ core.transactions.running,
        old.undo = transaction.undo ∧
          old.transactionId = transaction.transactionId ∧
          ∀ pageId image,
            Source core' transaction pageId image →
            Source core old pageId image := by
    intro transaction hMem pageId image hSource
    rcases hRunning transaction hMem with
      ⟨old, hOldMem, hUndo, hId⟩ | ⟨hNone, hLate⟩
    · refine ⟨old, hOldMem, hUndo, hId, ?_⟩
      intro other held hHeld
      cases Source.mono hLog hHeld with
      | kept hRecord hPage hImage =>
        exact .kept (hUndo ▸ hRecord) hPage hImage
      | logged hUndoes => exact .logged (hId ▸ hUndoes)
    · exfalso
      cases Source.mono hLog hSource with
      | kept hRecord _ _ =>
        rw [hNone] at hRecord
        cases hRecord
      | logged hUndoes =>
        have hIssued := hSeparate.issued _ _ _ hUndoes
        omega
  refine ⟨?_, ?_, hLive, ?_, ?_, ?_, ?_⟩
  · intro transactionId pageId image hUndoes
    have hIssued := hSeparate.issued _ _ _
      (hLog _ _ _ hUndoes)
    omega
  · intro image hImage
    rcases hView _ _ hImage with hSame | ⟨size, rfl⟩
    · exact hSeparate.counted image hSame
    · intro page hMeta
      nomatch hMeta
  · intro transaction hMem pageId image hSource
    rcases hOld transaction hMem pageId image hSource with
      ⟨old, hOldMem, hUndo, _, hFrom⟩
    rw [← hUndo]
    exact hSeparate.captured old hOldMem pageId image
      (hFrom _ _ hSource)
  · intro transaction hMem pageId first second hFirst hSecond
    rcases hOld transaction hMem pageId first hFirst with
      ⟨old, hOldMem, _, _, hFrom⟩
    exact hSeparate.unique old hOldMem pageId _ _
      (hFrom _ _ hFirst) (hFrom _ _ hSecond)
  · intro transaction hMem image hSource
    rcases hOld transaction hMem _ image hSource with
      ⟨old, hOldMem, _, hId, hFrom⟩
    rw [← hId]
    exact hSeparate.covered old hOldMem image
      (hFrom _ _ hSource)
  · intro transaction hMem pageId image now hSource hNow
    rcases hOld transaction hMem pageId image hSource with
      ⟨old, hOldMem, _, hId, hFrom⟩
    rcases hView _ _ hNow with hSame | ⟨size, rfl⟩
    · rw [← hId]
      exact hSeparate.holds old hOldMem pageId image now
        (hFrom _ _ hSource) hSame
    · exact holds_of_none fun _ => rfl

theorem Separate.quiet
    (hSeparate : Separate allocated core)
    (hClean : core.Clean)
    (hQuiet : core.Quiet core') :
    Separate allocated core' := by
  have hSame := quiet_transactions hQuiet
  have hMeta : core'.metaPage = core.metaPage := by
    cases hQuiet <;> rfl
  refine hSeparate.still
    (Nat.le_of_eq
      (congrArg TransactionManager.nextId hSame.symm)) ?_
    (fun _ _ _ => undoes_quiet hQuiet)
    (fun _ _ => hQuiet.view_from hClean) ?_
  · intro transaction hMem
    exact .inl ⟨transaction, hSame ▸ hMem, rfl, rfl⟩
  · rw [hMeta]
    exact hSeparate.live

--
-- What the Hook Does
--

variable {reason : String}

theorem has_capture
    {ι : Type} [Wal.ByteImage ι]
    {undo : UndoLog ι}
    {other : PageId}
    {image : ι} :
    (undo.capture pageId image reason).has other = true ↔
      other = pageId ∨ undo.has other = true := by
  unfold UndoLog.capture UndoLog.has
  split
  · rename_i hHas
    constructor
    · exact .inr
    · rintro (rfl | hOther)
      · exact decide_eq_true hHas
      · exact hOther
  · split <;> simp

variable {session : String}

/- Who is open once a page was captured, and with which undo
   log. -/
theorem running_captureIn
    {ι : Type} [Wal.ByteImage ι]
    {manager : TransactionManager ι}
    {image : ι}
    {transaction : OpenTransaction ι}
    (hMem : transaction ∈ (manager.captureIn session pageId
      image reason).running) :
    ∃ old ∈ manager.running,
      old.transactionId = transaction.transactionId ∧
        (old.session ≠ session ∧
            old.undo = transaction.undo ∨
          old.session = session ∧
            transaction.undo =
              old.undo.capture pageId image reason) := by
  rcases List.mem_map.mp hMem with ⟨old, hOld, hSame⟩
  refine ⟨old, hOld, ?_⟩
  split at hSame
  · rename_i hSession
    rw [← hSame]
    exact ⟨rfl, .inr ⟨hSession, rfl⟩⟩
  · rename_i hSession
    rw [← hSame]
    exact ⟨rfl, .inl ⟨hSession, rfl⟩⟩

/- Captures never bring transactions apart again. -/
theorem Apart.of_captureIn
    {ι : Type} [Wal.ByteImage ι]
    {manager : TransactionManager ι}
    {image : ι}
    (hApart : Apart (manager.captureIn session pageId image
      reason)) : Apart manager := by
  intro first hFirst second hSecond hOther changed hHas
  have hLater : ∀ old ∈ manager.running, ∃ transaction ∈
      (manager.captureIn session pageId image
        reason).running,
      transaction.session = old.session ∧
        (old.undo.has changed = true →
          transaction.undo.has changed = true) := by
    intro old hOld
    refine ⟨_, List.mem_map_of_mem hOld, ?_⟩
    split
    · exact ⟨rfl, fun h => has_capture.mpr (.inr h)⟩
    · exact ⟨rfl, id⟩
  rcases hLater first hFirst with
    ⟨first', hFirst', hSession, hGrows⟩
  rcases hLater second hSecond with
    ⟨second', hSecond', hSession', hGrows'⟩
  have hFree := hApart first' hFirst' second' hSecond'
    (by rwa [hSession, hSession']) changed (hGrows hHas)
  rw [Bool.eq_false_iff] at hFree ⊢
  exact fun h => hFree (hGrows' h)

/- What a change is filed under: with an image, it is the
   only one its transaction has of the page. -/
def Filed
    (allocated : Allocated)
    (core : Core (Record ρ))
    (transactionId : Nat)
    (pageId : PageId)
    (before : PageImage (Record ρ)) : Prop :=
  before ≠ .empty →
    ∃ transaction ∈ core.transactions.running,
      transaction.transactionId = transactionId ∧
        transaction.undo.has pageId = true ∧
        (∀ image, Source core transaction pageId image →
          image = before) ∧
        (pageId = metaPageId →
          Counts (allocated.without transactionId) before) ∧
        ∀ now, core.view pageId = some now →
          Holds transactionId before now

theorem mem_without
    {entry : Nat × PageId}
    (hEntry : entry ∈ allocated.without transactionId) :
    entry ∈ allocated ∧ entry.1 ≠ transactionId := by
  rcases List.mem_filter.mp hEntry with ⟨hMem, hOther⟩
  exact ⟨hMem, of_decide_eq_true hOther⟩

theorem Separate.captures
    (hSeparate : Separate allocated core)
    (reason : String)
    {active : OpenTransaction (PageImage (Record ρ))}
    (hActive : core.transactions.activeIn core.session =
      some active)
    (hNew : active.undo.has pageId = false)
    (hView : core.view pageId = some image) :
    Separate allocated { core with
      transactions := core.transactions.captureIn
        core.session pageId image reason } := by
  have hOnly : ∀ old ∈ core.transactions.running,
      old.session = core.session → old = active := by
    intro old hOld hSession
    have hSame := Transaction.activeIn_eq_some.mpr
      ⟨hOld, hSession⟩
    rw [hActive] at hSame
    exact (Option.some.inj hSame).symm
  have hNone : ∀ held,
      ¬ Source core active pageId held := by
    intro held hSource
    have hHas := hSeparate.captured active
      (mem_of_activeIn hActive) pageId held hSource
    rw [hNew] at hHas
    cases hHas
  -- what there is to put back was there, or is this image
  have hSources : ∀ transaction ∈
      (core.transactions.captureIn core.session pageId image
        reason).running,
      ∃ old ∈ core.transactions.running,
        old.transactionId = transaction.transactionId ∧
        (∀ other, old.undo.has other = true →
          transaction.undo.has other = true) ∧
        ∀ other held,
          Source { core with
            transactions := core.transactions.captureIn
              core.session pageId image reason }
            transaction other held →
          Source core old other held ∨
            other = pageId ∧ held = image ∧
              old = active ∧
              transaction.undo.has pageId = true := by
    intro transaction hMem
    rcases running_captureIn hMem with
      ⟨old, hOld, hId, ⟨_, hUndo⟩ | ⟨hSession, hUndo⟩⟩
    · refine ⟨old, hOld, hId, fun other h => hUndo ▸ h, ?_⟩
      intro other held hSource
      cases hSource with
      | kept hRecord hPage hImage =>
        exact .inl (.kept (hUndo ▸ hRecord) hPage hImage)
      | logged hUndoes =>
        exact .inl (.logged (hId ▸ hUndoes))
    · refine ⟨old, hOld, hId, fun other h => ?_, ?_⟩
      · rw [hUndo]
        exact has_capture.mpr (.inr h)
      · intro other held hSource
        cases hSource with
        | kept hRecord hPage hImage =>
          rw [hUndo] at hRecord
          rcases mem_captured hRecord with hHeld | hThis
          · exact .inl (.kept hHeld hPage hImage)
          · refine .inr ⟨hPage.symm.trans hThis.1,
              hImage.symm.trans hThis.2,
              hOnly old hOld hSession, ?_⟩
            rw [hUndo]
            exact has_capture.mpr (.inl rfl)
        | logged hUndoes =>
          exact .inl (.logged (hId ▸ hUndoes))
  refine ⟨hSeparate.issued, hSeparate.counted,
    hSeparate.live, ?_, ?_, ?_, ?_⟩
  · intro transaction hMem other held hSource
    rcases hSources transaction hMem with
      ⟨old, hOld, _, hGrows, hFrom⟩
    rcases hFrom other held hSource with hBefore | hThis
    · exact hGrows other
        (hSeparate.captured old hOld other held hBefore)
    · rw [hThis.1]
      exact hThis.2.2.2
  · intro transaction hMem other first second hFirst hSecond
    rcases hSources transaction hMem with
      ⟨old, hOld, _, _, hFrom⟩
    rcases hFrom other first hFirst with hOne | hOne
    · rcases hFrom other second hSecond with hTwo | hTwo
      · exact hSeparate.unique old hOld other _ _ hOne hTwo
      · rw [hTwo.1, hTwo.2.2.1] at hOne
        exact absurd hOne (hNone _)
    · rcases hFrom other second hSecond with hTwo | hTwo
      · rw [hOne.1, hOne.2.2.1] at hTwo
        exact absurd hTwo (hNone _)
      · rw [hOne.2.1, hTwo.2.1]
  · intro transaction hMem held hSource
    rcases hSources transaction hMem with
      ⟨old, hOld, hId, _, hFrom⟩
    rcases hFrom metaPageId held hSource with
      hBefore | hThis
    · rw [← hId]
      exact hSeparate.covered old hOld held hBefore
    · rw [hThis.2.1]
      refine (hSeparate.counted image ?_).mono
        fun entry hEntry => (mem_without hEntry).1
      rw [hThis.1]
      exact hView
  · intro transaction hMem other held now hSource hNow
    rcases hSources transaction hMem with
      ⟨old, hOld, hId, _, hFrom⟩
    rcases hFrom other held hSource with hBefore | hThis
    · rw [← hId]
      exact hSeparate.holds old hOld other held now hBefore
        hNow
    · have hSame : some now = some image := by
        rw [← hView, ← hThis.1]
        exact hNow.symm
      rw [hThis.2.1, Option.some.inj hSame]
      exact holds_refl _ _

variable {before : PageImage (Record ρ)}

theorem Separate.intends
    (hSeparate : Separate allocated core)
    (hIntends : core.Intends pageId reason core'
      transactionId before) :
    Separate allocated core' ∧
      Filed allocated core' transactionId pageId before := by
  cases hIntends with
  | outside _ => exact ⟨hSeparate, fun h => absurd rfl h⟩
  | again _ _ _ => exact ⟨hSeparate, fun h => absurd rfl h⟩
  | @first active _ _ hActive hNew hView =>
    have hAfter := hSeparate.captures reason
      hActive hNew hView
    refine ⟨hAfter, fun _ => ?_⟩
    have hMem := mem_of_activeIn hActive
    have hSession := (Transaction.activeIn_eq_some.mp hActive).2
    refine ⟨_, List.mem_map_of_mem hMem, ?_⟩
    simp only [hSession, ↓reduceIte]
    refine ⟨trivial, has_capture.mpr (.inl rfl), ?_, ?_, ?_⟩
    · intro held hSource
      have hHas : ∀ other,
          Source core active pageId other → False := by
        intro other hOther
        have hOld := hSeparate.captured active hMem pageId
          other hOther
        rw [hNew] at hOld
        cases hOld
      cases hSource with
      | kept hRecord hPage hImage =>
        rcases mem_captured hRecord with hOld | hThis
        · exact (hHas held
            (.kept hOld hPage hImage)).elim
        · exact hImage.symm.trans hThis.2
      | logged hUndoes =>
        exact (hHas held (.logged hUndoes)).elim
    · rintro rfl
      exact (hSeparate.counted _ hView).mono
        fun entry hEntry => (mem_without hEntry).1
    · intro now hNow
      have hSame := hView.symm.trans hNow
      rw [← Option.some.inj hSame]
      exact holds_refl _ _

--
-- What a Write Does
--

theorem view_logged
    (core : Core (Record ρ))
    (pageId : PageId)
    (transactionId : Nat)
    (before raw : PageImage (Record ρ))
    (other : PageId) :
    ∃ lsn, (core.logged pageId transactionId before
        raw).view other =
      if other = pageId then some (raw.stamp lsn)
      else core.view other := by
  refine ⟨(core.changeRecord pageId transactionId before
    raw).lsn, ?_⟩
  by_cases hSame : other = pageId
  · subst hSame
    simp [Core.logged, Core.view]
  · simp [Core.logged, Core.view, hSame]

theorem pageCount_logged
    (core : Core (Record ρ))
    (pageId : PageId)
    (transactionId : Nat)
    (before raw : PageImage (Record ρ)) :
    (core.logged pageId transactionId before
        raw).metaPage.pageCount =
      core.metaPage.pageCount := by
  unfold Core.logged
  simp only
  split <;> rfl

/-
  A page is written: every image that may be put back over it
  lacks nothing foreign that is on it now, and on page 0 the
  count goes on covering what was allocated.
-/
theorem Separate.logged
    (hSeparate : Separate allocated core)
    (hStaged : core.files.wal.Staged)
    {raw : PageImage (Record ρ)}
    (hFiled : Filed allocated core transactionId pageId
      before)
    (hRaw : ∀ transaction ∈ core.transactions.running,
      ∀ image, transaction.undo.has pageId = true →
      (∀ now, core.view pageId = some now →
        Holds transaction.transactionId image now) →
      (Source core transaction pageId image ∨
        before ≠ .empty ∧ image = before) →
      Holds transaction.transactionId image raw)
    (hCounts : pageId = metaPageId → Counts allocated raw) :
    Separate allocated
      (core.logged pageId transactionId before raw) := by
  -- what there is to put back was there, or is filed now
  have hLog : ∀ owner other image,
      Undoes (core.logged pageId transactionId before
        raw).files.wal owner other image →
      Undoes core.files.wal owner other image ∨
        transactionId = owner ∧ pageId = other ∧
          before = image ∧ before ≠ .empty := by
    intro owner other image hUndoes
    rcases Undoes.of_updated hStaged hUndoes with
      hOld | ⟨hOwner, hPage, hImage, hLength⟩
    · exact .inl hOld
    · refine .inr ⟨hOwner, hPage, hImage, ?_⟩
      rintro rfl
      exact hLength rfl
  have hSources : ∀ transaction ∈ core.transactions.running,
      ∀ other image,
      Source (core.logged pageId transactionId before raw)
        transaction other image →
      Source core transaction other image ∨
        pageId = other ∧ before = image ∧ before ≠ .empty ∧
          transaction.transactionId = transactionId ∧
          transaction.undo.has pageId = true ∧
          (∀ image, Source core transaction pageId image →
            image = before) ∧
          (pageId = metaPageId →
            Counts (allocated.without transactionId)
              before) ∧
          ∀ now, core.view pageId = some now →
            Holds transactionId before now := by
    intro transaction hMem other image hSource
    cases hSource with
    | kept hRecord hPage hImage =>
      exact .inl (.kept hRecord hPage hImage)
    | logged hUndoes =>
      rcases hLog _ _ _ hUndoes with
        hOld | ⟨hOwner, hPage, hImage, hSome⟩
      · exact .inl (.logged hOld)
      · rcases hFiled hSome with
          ⟨filed, hFiledMem, hId, hRest⟩
        have hSame : transaction = filed :=
          List.inj_on_of_nodup_map core.transactions.ids
            hMem hFiledMem (hOwner.symm.trans hId.symm)
        subst hSame
        exact .inr ⟨hPage, hImage, hSome, hId, hRest⟩
  refine ⟨?_, ?_, ?_, ?_, ?_, ?_, ?_⟩
  · intro owner other image hUndoes
    rcases hLog _ _ _ hUndoes with
      hOld | ⟨hOwner, _, _, hSome⟩
    · exact hSeparate.issued _ _ _ hOld
    · rcases hFiled hSome with ⟨filed, hMem, hId, _⟩
      rw [← hOwner, ← hId]
      exact (core.transactions.assigned filed hMem).2
  · intro image hImage
    rcases view_logged core pageId transactionId before raw
      metaPageId with ⟨lsn, hView⟩
    rw [hView] at hImage
    split at hImage
    · rename_i hPage
      rw [← Option.some.inj hImage]
      exact (hCounts hPage.symm).stamp lsn
    · exact hSeparate.counted image hImage
  · rw [pageCount_logged]
    exact hSeparate.live
  · intro transaction hMem other image hSource
    rcases hSources transaction hMem other image hSource with
      hOld | ⟨hPage, _, _, _, hHas, _⟩
    · exact hSeparate.captured _ hMem other image hOld
    · rw [← hPage]
      exact hHas
  · intro transaction hMem other first second hFirst hSecond
    rcases hSources transaction hMem other first hFirst with
      hOne | ⟨hPage, hOne, _, _, _, hOnly, _⟩
    · rcases hSources transaction hMem other second hSecond
        with hTwo | ⟨hPage, hTwo, _, _, _, hOnly, _⟩
      · exact hSeparate.unique _ hMem other _ _ hOne hTwo
      · rw [← hPage] at hOne
        exact (hOnly first hOne).trans hTwo
    · rcases hSources transaction hMem other second hSecond
        with hTwo | ⟨_, hTwo, _⟩
      · rw [← hPage] at hTwo
        exact hOne.symm.trans (hOnly second hTwo).symm
      · exact hOne.symm.trans hTwo
  · intro transaction hMem image hSource
    rcases hSources transaction hMem metaPageId image hSource
      with hOld | ⟨hPage, hImage, _, hId, _, _, hCovers, _⟩
    · exact hSeparate.covered _ hMem image hOld
    · rw [← hImage, hId]
      exact hCovers hPage
  · intro transaction hMem other image now hSource hNow
    rcases view_logged core pageId transactionId before raw
      other with ⟨lsn, hView⟩
    rw [hView] at hNow
    rcases hSources transaction hMem other image hSource with
      hOld | ⟨hPage, hImage, hSome, hId, hHas, _, _, hHolds⟩
    · split at hNow
      · rename_i hPage
        subst hPage
        rw [← Option.some.inj hNow]
        exact (hRaw transaction hMem image
          (hSeparate.captured _ hMem other image hOld)
          (fun now hBefore => hSeparate.holds _ hMem other
            image now hOld hBefore) (.inl hOld)).stamp lsn
      · exact hSeparate.holds _ hMem other image now hOld
          hNow
    · rw [if_pos hPage.symm] at hNow
      rw [← Option.some.inj hNow]
      refine (hRaw transaction hMem image hHas ?_
        (.inr ⟨hSome, hImage.symm⟩)).stamp lsn
      rw [hId, ← hImage]
      exact hHolds

end Steps

--
-- Work
--

/- As long as the open transactions are apart, what they
   would put back is separate. -/
structure Intact
    (allocated : Allocated)
    (core : Core (Record ρ)) : Prop where
  staged : core.files.wal.Staged
  clean : core.Clean
  watching : core.watching = true
  separate : Apart core.transactions → Separate allocated core

/- The session has this transaction open. -/
def Writing (xid : Nat) (core : Core (Record ρ)) : Prop :=
  (core.transactions.activeIn core.session).map
    OpenTransaction.transactionId = some xid

/- Each foreign version of the image is on the page. -/
def Derived
    (xid : Nat)
    (pageId : PageId)
    (raw : PageImage (Record ρ))
    (core : Core (Record ρ)) : Prop :=
  ∀ slotId version,
    versionAt raw slotId = some version →
    Foreign xid version.header →
    ∃ now kept, core.view pageId = some now ∧
      versionAt now slotId = some kept ∧
      Survives xid version kept

section Work

variable {allocated : Allocated} {xid : Nat}
variable {core core' : Core (Record ρ)}

theorem Intact.quiet
    (hIntact : Intact allocated core)
    (hQuiet : core.Quiet core') : Intact allocated core' := by
  refine ⟨?_, hQuiet.clean hIntact.clean, ?_,
    fun hApart => ?_⟩
  · cases hQuiet with
    | writeBack _ =>
      exact Files.writtenBack_staged hIntact.staged _ _ _
    | _ => exact hIntact.staged
  · cases hQuiet <;> exact hIntact.watching
  · rw [quiet_transactions hQuiet] at hApart
    exact (hIntact.separate hApart).quiet hIntact.clean
      hQuiet

theorem intact_calm :
    Calm (fun core : Core (Record ρ) =>
      Intact allocated core) :=
  fun _ _ hIntact hQuiet => hIntact.quiet hQuiet

theorem writing_quiet
    (hWriting : Writing xid core)
    (hQuiet : core.Quiet core') : Writing xid core' := by
  cases hQuiet <;> exact hWriting

variable {pageId : PageId} {reason : String}
variable {transactionId : Nat} {before : PageImage (Record ρ)}

/- What the hook does to who is open. -/
theorem writing_intends
    (hWatching : core.watching = true)
    (hWriting : Writing xid core)
    (hIntends : core.Intends pageId reason core'
      transactionId before) :
    Writing xid core' ∧ core'.watching = true ∧
      core'.files = core.files ∧
      (∀ other, core'.view other = core.view other) ∧
      core'.cache = core.cache ∧
      (Apart core'.transactions → Apart core.transactions) ∧
      ∃ transaction ∈ core'.transactions.running,
        transaction.session = core'.session ∧
          transaction.transactionId = xid ∧
          transaction.undo.has pageId = true := by
  unfold Writing at hWriting
  cases hIntends with
  | outside hIdle =>
    rcases hIdle with hIdle | hNone
    · rw [hWatching] at hIdle
      cases hIdle
    · rw [hNone] at hWriting
      cases hWriting
  | @again active _ hActive hHas =>
    refine ⟨hWriting, hWatching, rfl, fun _ => rfl, rfl,
      id, active, ?_⟩
    rw [hActive] at hWriting
    rcases Transaction.activeIn_eq_some.mp hActive with
      ⟨hMem, hSession⟩
    exact ⟨hMem, hSession, Option.some.inj hWriting, hHas⟩
  | @first active _ _ hActive hNew hView =>
    rcases Transaction.activeIn_eq_some.mp hActive with
      ⟨hMem, hSession⟩
    rw [hActive] at hWriting
    refine ⟨?_, hWatching, rfl, fun _ => rfl, rfl,
      Apart.of_captureIn, _, List.mem_map_of_mem hMem, ?_⟩
    · unfold Writing TransactionManager.captureIn
      simp only
      rw [Transaction.activeIn_updateIn, hActive]
      simpa using hWriting
    · simp only [hSession, ↓reduceIte]
      exact ⟨trivial, Option.some.inj hWriting,
        has_capture.mpr (.inl rfl)⟩

/- A captured write of an image made from what is there. -/
theorem Intact.written
    (hIntact : Intact allocated core)
    (hWriting : Writing xid core)
    {raw : PageImage (Record ρ)}
    (hDerived : Derived xid pageId raw core)
    (hIntends : core.Intends pageId reason core'
      transactionId before)
    (hCounts : Separate allocated core →
      pageId = metaPageId → Counts allocated raw) :
    Intact allocated
      (core'.logged pageId transactionId before raw) := by
  rcases writing_intends hIntact.watching hWriting hIntends
    with ⟨_, hWatching, hFiles, hView, hCache, hApartBefore,
      owner, hOwner, hSession, hId, hHas⟩
  have hStaged : core'.files.wal.Staged := by
    rw [hFiles]
    exact hIntact.staged
  have hClean : core'.Clean := by
    unfold Core.Clean
    rw [hCache, hFiles]
    exact hIntact.clean
  refine ⟨hStaged.updated _ _ _ _, hClean.logged _ _ _ _,
    hWatching, fun hApart => ?_⟩
  have hSeparate := hIntact.separate (hApartBefore hApart)
  rcases hSeparate.intends hIntends with ⟨hAfter, hFiled⟩
  refine hAfter.logged hStaged hFiled ?_ (hCounts hSeparate)
  intro transaction hMem image hPage hHolds _
  -- only the writer has captured the page
  have hSame : transaction.session = owner.session := by
    by_contra hOther
    have hFree := hApart transaction hMem owner hOwner hOther
      pageId hPage
    rw [hHas] at hFree
    cases hFree
  have hWriter : transaction = owner :=
    List.inj_on_of_nodup_map core'.transactions.sessions
      hMem hOwner hSame
  subst hWriter
  rw [hId] at hHolds ⊢
  intro slotId version hVersion hForeign
  rcases hDerived slotId version hVersion hForeign with
    ⟨now, kept, hNow, hKept, hSurvives⟩
  rw [← hView pageId] at hNow
  rcases hHolds now hNow slotId kept hKept
      (hSurvives.foreign hForeign) with
    ⟨held, hHeld, hStill⟩
  exact ⟨held, hHeld, hSurvives.trans hStill⟩

variable {page : Page (Record ρ)}

/- A blank page may go anywhere. -/
theorem Intact.blanked
    (hIntact : Intact allocated core)
    (pageId : PageId)
    (hBlank : ∀ slotId,
      versionAt (.slotted page) slotId = none) :
    Intact allocated (core.logged pageId noTransaction .empty
      (.slotted page)) := by
  refine ⟨hIntact.staged.updated _ _ _ _,
    hIntact.clean.logged _ _ _ _, hIntact.watching,
    fun hApart => ?_⟩
  refine (hIntact.separate hApart).logged hIntact.staged
    (fun h => absurd rfl h) ?_ ?_
  · intro _ _ _ _ _ _
    exact holds_of_none hBlank
  · intro _ held hMeta
    nomatch hMeta

/- What a session at work keeps. -/
def Working
    (allocated : Allocated)
    (xid : Nat)
    (core : Core (Record ρ)) : Prop :=
  Intact allocated core ∧ Writing xid core

theorem working_calm :
    Calm (fun core : Core (Record ρ) =>
      Working allocated xid core) :=
  fun _ _ hWorking hQuiet =>
    ⟨hWorking.1.quiet hQuiet, writing_quiet hWorking.2 hQuiet⟩

/- The meta page changes while it is only in memory. -/
theorem Working.edited
    (hWorking : Working allocated xid core)
    {metaPage : MetaPage}
    (hCount : core.metaPage.pageCount ≤ metaPage.pageCount) :
    Working allocated xid
      { core with metaPage := metaPage } := by
  rcases hWorking with ⟨hIntact, hWriting⟩
  refine ⟨⟨hIntact.staged, hIntact.clean, hIntact.watching,
    fun hApart => ?_⟩, hWriting⟩
  have hSeparate := hIntact.separate hApart
  refine hSeparate.still (Nat.le_refl _)
    (fun transaction hMem =>
      .inl ⟨transaction, hMem, rfl, rfl⟩)
    (fun _ _ _ h => h) (fun _ _ h => .inl h) ?_
  intro entry hEntry
  exact Nat.lt_of_lt_of_le (hSeparate.live entry hEntry)
    hCount

theorem editMeta_working
    (f : MetaPage → MetaPage)
    (hCount : ∀ page, page.pageCount ≤ (f page).pageCount) :
    Triple (Ready (Working (ρ := ρ) allocated xid))
      (Pager.editMeta f)
      (fun _ => Ready (Working (ρ := ρ) allocated xid))
      (fun _ => Ready (Working (ρ := ρ) allocated xid)) := by
  refine Triple.modify fun engine hReady => ?_
  rcases hReady with ⟨hGood, hWorking⟩
  exact ⟨⟨hGood.sound, hGood.staged, hGood.walOpen,
    hGood.isOpen⟩, hWorking.edited (hCount _)⟩

theorem versionAt_fromBytes
    {image : PageImage (Record ρ)}
    {verifyChecksum validate : Bool}
    (hPage : Page.fromBytes pageId image verifyChecksum
      validate = .ok page)
    (slotId : Nat) :
    versionAt (.slotted page) slotId =
      versionAt image slotId := by
  have hChecked : ∀ decoded : Page (Record ρ),
      (if validate then do
          decoded.validateHeader pageId
          pure decoded
        else pure decoded) = Except.ok page →
      page = decoded := by
    intro decoded hDone
    split at hDone
    · rcases ok_of_bind hDone with ⟨_, _, hPure⟩
      exact (Except.ok.inj hPure).symm
    · exact (Except.ok.inj hDone).symm
  unfold Page.fromBytes at hPage
  cases image with
  | slotted held =>
    simp only [pure_bind] at hPage
    rw [hChecked held hPage]
  | zeros size =>
    simp only [pure_bind] at hPage
    split at hPage
    · cases hPage
    · rw [hChecked _ hPage]
      simp [versionAt, Page.ofZeros, Page.read]
  | empty => cases hPage
  | metaPage held => cases hPage

/- What is read is what the page shows. -/
theorem readPage_working (pageId : PageId) :
    Triple (Ready (Working (ρ := ρ) allocated xid))
      (Pager.readPage pageId)
      (fun page => Ready fun core =>
        Working allocated xid core ∧
          ∃ now, core.view pageId = some now ∧
            ∀ slotId, versionAt (.slotted page) slotId =
              versionAt now slotId)
      (fun _ => Ready (Working (ρ := ρ) allocated xid)) := by
  unfold Pager.readPage
  refine Pager.ensureOpen_keeps.bind fun _ => ?_
  refine Triple.ite (fun _ => Triple.throw fun _ h => h)
    fun _ => ?_
  refine (Pager.checkPageId_keeps pageId).bind fun _ => ?_
  refine Triple.read fun engine hReady => ?_
  refine Triple.bind
    ((Pager.fetch_spec working_calm pageId).pre
      (fun _ h => h ▸ hReady)) fun found => ?_
  refine (Pager.fromExcept_keeps _).weaken (fun _ h => h)
    ?_ (fun _ _ h => h.1)
  rintro page current ⟨⟨⟨hGood, hWorking⟩, hView⟩, hPage⟩
  exact ⟨hGood, hWorking, found.1, hView,
    versionAt_fromBytes hPage⟩

/- A page made from what is there may be written. -/
theorem writePage_working
    (xid : Nat)
    (pageId : PageId)
    (page : Page (Record ρ)) :
    Triple
      (Ready fun core => Working allocated xid core ∧
        Derived xid pageId (.slotted page) core)
      (Pager.writePage pageId page)
      (fun _ => Ready (Intact (ρ := ρ) allocated))
      (fun _ => Ready (Intact (ρ := ρ) allocated)) := by
  have hCalm : Calm fun core : Core (Record ρ) =>
      Working allocated xid core ∧
        Derived xid pageId (.slotted page) core := by
    intro core core' hCore hQuiet
    rcases hCore with ⟨hWorking, hDerived⟩
    refine ⟨working_calm _ _ hWorking hQuiet, ?_⟩
    intro slotId version hVersion hForeign
    rcases hDerived slotId version hVersion hForeign with
      ⟨now, kept, hNow, hKept⟩
    exact ⟨now, kept, hQuiet.view_of hWorking.1.clean _ _
      hNow, hKept⟩
  unfold Pager.writePage
  refine Triple.weaken (E := fun _ => Ready fun core =>
      Working allocated xid core ∧
        Derived xid pageId (.slotted page) core) ?_
    (fun _ h => h) (fun _ _ h => h)
    (fun _ _ h => ⟨h.1, h.2.1.1⟩)
  refine Pager.ensureOpen_keeps.bind fun _ => ?_
  refine Triple.ite (fun _ => Triple.throw fun _ h => h)
    fun hOther => ?_
  refine (Pager.checkPageId_keeps pageId).bind fun _ => ?_
  refine Pager.writeAt_spec hCalm intact_calm pageId _ _ true
    ?_
  intro core core' transactionId before hCore hAnswers _
  exact hCore.1.1.written hCore.1.2 hCore.2 hAnswers
    fun _ h => absurd h hOther

theorem writerXid_working :
    Triple (Ready (Working (ρ := ρ) allocated xid)) writerXid
      (fun answer engine =>
        Ready (Working allocated xid) engine ∧ answer = xid)
      (fun _ => Ready (Working allocated xid)) := by
  unfold writerXid
  refine Triple.read fun engine hReady => ?_
  have hWriting := hReady.2.2
  unfold Writing at hWriting
  cases hActive :
      engine.transactions.activeIn engine.session with
  | none =>
    change (engine.transactions.activeIn
      engine.session).map _ = _ at hWriting
    rw [hActive] at hWriting
    cases hWriting
  | some transaction =>
    change (engine.transactions.activeIn
      engine.session).map _ = _ at hWriting
    rw [hActive] at hWriting
    refine Triple.pure fun current hSame => ?_
    rw [hSame]
    exact ⟨hReady, Option.some.inj hWriting⟩

/- The versions that are on the page already, and those that
   are the writer's own. -/
theorem derived_of_read
    {written : Page (Record ρ)}
    {now : PageImage (Record ρ)}
    (hView : core.view pageId = some now)
    (hRead : ∀ slotId, versionAt (.slotted page) slotId =
      versionAt now slotId)
    (hWritten : ∀ slotId version,
      versionAt (.slotted written) slotId = some version →
      Foreign xid version.header →
      ∃ kept, versionAt (.slotted page) slotId = some kept ∧
        Survives xid version kept) :
    Derived xid pageId (.slotted written) core := by
  intro slotId version hVersion hForeign
  rcases hWritten slotId version hVersion hForeign with
    ⟨kept, hKept, hSurvives⟩
  rw [hRead] at hKept
  exact ⟨now, kept, hView, hKept, hSurvives⟩

section Rows

variable [Payload ρ]

theorem place_working
    (pageId : PageId)
    (row : ρ) :
    Triple (Ready (Working allocated xid))
      (place pageId row)
      (fun _ => Ready (Intact (ρ := ρ) allocated))
      (fun _ => Ready (Intact (ρ := ρ) allocated)) := by
  have hRaise : ∀ engine : Engine (Record ρ),
      Ready (Working allocated xid) engine →
        Ready (Intact allocated) engine :=
    fun _ h => ⟨h.1, h.2.1⟩
  unfold place
  refine Triple.bind (writerXid_working.raises
    (fun _ _ h => hRaise _ h))
    fun answer => ?_
  refine Triple.assume fun hAnswer => ?_
  subst hAnswer
  refine Triple.bind ((readPage_working pageId).raises
    (fun _ _ h => hRaise _ h))
    fun page => ?_
  refine Triple.bind ((Pager.fromExcept_keeps _).raises
    (fun _ _ h => ⟨h.1, h.2.1.1⟩)) fun outcome => ?_
  refine Triple.start fun engine hEngine => ?_
  rcases hEngine with
    ⟨⟨hGood, hWorking, now, hView, hRead⟩, hPlace⟩
  rcases outcome with ⟨placed, slot⟩
  rcases HeapFile.place_spec hPlace with
    ⟨slotId, rfl, _, hPlaced⟩ | ⟨rfl, _⟩
  · simp only
    refine (writePage_working answer pageId placed).pre ?_
    rintro current rfl
    refine ⟨hGood, hWorking, derived_of_read hView hRead ?_⟩
    intro other version hVersion hForeign
    unfold versionAt at hVersion
    simp only [hPlaced] at hVersion
    split at hVersion
    · -- the new version is the writer's
      have hNew := Option.some.inj hVersion
      rw [← hNew] at hForeign
      rcases hForeign with hMaker | hDeleter
      · exact absurd rfl hMaker
      · exact absurd hDeleter.1 (by simp [deleted])
    · exact ⟨version, hVersion, .refl _ _⟩
  · simp only
    refine Triple.pure fun current hSame => ?_
    rw [hSame]
    exact ⟨hGood, hWorking.1⟩

theorem stamp_working (recordId : RecordId) :
    Triple (Ready (Working allocated xid))
      (stamp recordId)
      (fun _ => Ready (Intact (ρ := ρ) allocated))
      (fun _ => Ready (Intact (ρ := ρ) allocated)) := by
  have hRaise : ∀ engine : Engine (Record ρ),
      Ready (Working allocated xid) engine →
        Ready (Intact allocated) engine :=
    fun _ h => ⟨h.1, h.2.1⟩
  unfold stamp
  refine Triple.bind (writerXid_working.raises
    (fun _ _ h => hRaise _ h))
    fun answer => ?_
  refine Triple.assume fun hAnswer => ?_
  subst hAnswer
  refine Triple.bind ((readPage_working _).raises
    (fun _ _ h => hRaise _ h))
    fun page => ?_
  cases hHere : (page.read recordId.slotId).bind
      Record.asVersion with
  | none => exact Triple.pure fun _ h => ⟨h.1, h.2.1.1⟩
  | some held =>
    simp only
    refine Triple.ite
      (fun _ => Triple.pure fun _ h => ⟨h.1, h.2.1.1⟩)
      fun hAlive => ?_
    refine Triple.bind ((Pager.fromExcept_keeps _).raises
      (fun _ _ h => ⟨h.1, h.2.1.1⟩)) fun outcome => ?_
    refine Triple.start fun engine hEngine => ?_
    rcases hEngine with
      ⟨⟨hGood, hWorking, now, hView, hRead⟩, hWrite⟩
    cases outcome with
    | none =>
      refine Triple.pure fun current hSame => ?_
      rw [hSame]
      exact ⟨hGood, hWorking.1⟩
    | some written =>
      simp only
      refine (writePage_working answer _ written).pre ?_
      rintro current rfl
      refine ⟨hGood, hWorking, derived_of_read hView hRead ?_⟩
      intro other version hVersion hForeign
      have hWritten := (Page.read_overwrite hWrite).2
      unfold versionAt at hVersion
      simp only [hWritten] at hVersion
      split at hVersion
      · -- the version was alive, and is stamped now
        rename_i hOther
        have hNew := Option.some.inj hVersion
        refine ⟨held, ?_, ?_⟩
        · rw [hOther]
          exact hHere
        · rw [← hNew]
          exact ⟨rfl, rfl, fun _ h => absurd rfl h⟩
      · exact ⟨version, hVersion, .refl _ _⟩

end Rows

theorem link_working
    (pageId nextPageId : PageId) :
    Triple (Ready (Working allocated xid))
      (link pageId nextPageId)
      (fun _ => Ready (Intact (ρ := ρ) allocated))
      (fun _ => Ready (Intact (ρ := ρ) allocated)) := by
  unfold link
  refine Triple.bind ((readPage_working pageId).raises
    (fun _ _ h => ⟨h.1, h.2.1⟩)) fun page => ?_
  refine (writePage_working xid pageId _).pre ?_
  rintro engine ⟨hGood, hWorking, now, hView, hRead⟩
  refine ⟨hGood, hWorking, derived_of_read hView hRead ?_⟩
  intro slotId version hVersion _
  exact ⟨version, hVersion, .refl _ _⟩

theorem keep_working
    (pageId : PageId)
    (hPlain : Plain page) :
    Triple (Ready (Working allocated xid))
      (Pager.writePage pageId page)
      (fun _ => Ready (Intact (ρ := ρ) allocated))
      (fun _ => Ready (Intact (ρ := ρ) allocated)) := by
  refine (writePage_working xid pageId page).pre ?_
  rintro engine ⟨hGood, hWorking⟩
  refine ⟨hGood, hWorking, fun slotId version hVersion => ?_⟩
  rw [hPlain slotId] at hVersion
  cases hVersion

--
-- The Meta Page
--

/- The page count is written, by this transaction. -/
structure Flushed
    (xid : Nat)
    (core : Core (Record ρ)) : Prop where
  shown : ∀ image page,
    core.view metaPageId = some image →
    image.asMeta = .ok page →
    page.pageCount = core.metaPage.pageCount
  captured : ∃ transaction ∈ core.transactions.running,
    transaction.transactionId = xid ∧
      transaction.undo.has metaPageId = true

theorem Flushed.quiet
    (hFlushed : Flushed xid core)
    (hClean : core.Clean)
    (hQuiet : core.Quiet core') : Flushed xid core' := by
  have hMeta : core'.metaPage = core.metaPage := by
    cases hQuiet <;> rfl
  refine ⟨?_, ?_⟩
  · intro image page hImage hPage
    rw [hMeta]
    rcases hQuiet.view_from hClean hImage with
      hSame | ⟨size, rfl⟩
    · exact hFlushed.shown image page hSame hPage
    · nomatch hPage
  · rw [quiet_transactions hQuiet]
    exact hFlushed.captured

/- Intact, with the page count in its place. -/
def Counted
    (allocated : Allocated)
    (xid : Nat)
    (core : Core (Record ρ)) : Prop :=
  Intact allocated core ∧ Flushed xid core

theorem counted_calm :
    Calm (fun core : Core (Record ρ) =>
      Counted allocated xid core) :=
  fun _ _ hCounted hQuiet =>
    ⟨hCounted.1.quiet hQuiet,
      hCounted.2.quiet hCounted.1.clean hQuiet⟩

theorem writeMeta_working :
    Triple (Ready (Working allocated xid))
      (Pager.writeMeta (π := Record ρ))
      (fun _ => Ready (Counted allocated xid))
      (fun _ => Ready (Intact (ρ := ρ) allocated)) := by
  unfold Pager.writeMeta
  refine Triple.read fun engine hReady => ?_
  let K : Core (Record ρ) → Prop := fun core =>
    Working allocated xid core ∧ core.metaPage = engine.metaPage
  have hCalm : Calm K := by
    intro core core' hCore hQuiet
    refine ⟨working_calm _ _ hCore.1 hQuiet, ?_⟩
    cases hQuiet <;> exact hCore.2
  refine (Pager.writeAt_spec hCalm counted_calm metaPageId
    (.metaPage engine.metaPage) _ true ?_).weaken ?_
    (fun _ _ h => h) (fun _ _ h => ⟨h.1, h.2.1.1⟩)
  · intro core core' transactionId before hCore hAnswers _
    rcases hCore with ⟨⟨hIntact, hWriting⟩, hSame⟩
    have hAsMeta : ∀ page,
        (PageImage.metaPage engine.metaPage :
          PageImage (Record ρ)).asMeta = .ok page →
        page = core.metaPage := by
      intro page hPage
      rw [hSame]
      exact (PageImage.metaPage.inj (asMeta_eq hPage)).symm
    refine ⟨hIntact.written hWriting ?_ hAnswers ?_, ?_, ?_⟩
    · intro slotId version hVersion
      cases hVersion
    · intro hSeparate _ page hPage
      rw [hAsMeta page hPage]
      exact hSeparate.live
    · intro image page hImage hPage
      rcases view_logged core' metaPageId transactionId before
        (.metaPage engine.metaPage) metaPageId with
        ⟨lsn, hView⟩
      rw [hView, if_pos rfl] at hImage
      rw [← Option.some.inj hImage] at hPage
      rcases asMeta_stamp hPage with ⟨held, hHeld, hCount⟩
      rw [pageCount_logged, ← hCount, hAsMeta held hHeld,
        Pager.answers_metaPage hAnswers]
    · rcases writing_intends hIntact.watching hWriting
        hAnswers with
        ⟨_, _, _, _, _, _, owner, hOwner, _, hId, hHas⟩
      exact ⟨owner, hOwner, hId, hHas⟩
  · rintro current rfl
    exact ⟨hReady.1, hReady.2, rfl⟩

--
-- Allocation
--

theorem takePageId_working :
    Triple (Ready (Working allocated xid))
      (Pager.takePageId (π := Record ρ))
      (fun _ => Ready (Working allocated xid))
      (fun _ => Ready (Working allocated xid)) := by
  unfold Pager.takePageId
  refine Triple.read fun engine hReady => ?_
  have hStart : ∀ current, current = engine →
      Ready (Working allocated xid) current :=
    fun _ h => h ▸ hReady
  refine Triple.ite (fun _ => ?_) fun _ => ?_
  · unfold Pager.readFree
    refine Triple.bind
      (Q := fun _ => Ready (Working allocated xid)) ?_
      fun freed => ?_
    · refine Triple.read fun current hCurrent => ?_
      refine Triple.bind
        ((Pager.fetch_spec working_calm _).pre
          (fun _ h => h ▸ hStart _ hCurrent)) fun found => ?_
      exact (Pager.fromExcept_keeps _).weaken
        (fun _ h => h.1) (fun _ _ h => h.1) (fun _ _ h => h)
    · exact (editMeta_working (fun page =>
        { page with freeListHead := freed.nextPageId })
        fun _ => Nat.le_refl _).bind
          fun _ => Triple.pure fun _ h => h
  · refine Triple.bind
      (Q := fun _ => Ready (Working allocated xid)) ?_
      fun _ => Triple.pure fun _ h => h
    refine Triple.modify fun current hCurrent => ?_
    rw [hCurrent]
    rcases hReady with ⟨hGood, hWorking⟩
    exact ⟨⟨hGood.sound, hGood.staged, hGood.walOpen,
      hGood.isOpen⟩, hWorking.edited (Nat.le_succ _)⟩

/- The hook called by hand captures and writes nothing. -/
theorem captureByHand_working
    {K : Core (Record ρ) → Prop}
    (hCalm : Calm fun core => Working allocated xid core ∧
      K core)
    (hKeeps : ∀ core core' pageId reason transactionId
        before,
      K core → Core.Intends core pageId reason core'
        transactionId before → K core')
    (pageId : PageId)
    (reason : String)
    (needed : Bool) :
    Triple (Ready fun core => Working allocated xid core ∧
        K core)
      (Pager.captureByHand pageId reason needed)
      (fun _ => Ready fun core =>
        Working allocated xid core ∧ K core)
      (fun _ => Ready fun core =>
        Working allocated xid core ∧ K core) := by
  unfold Pager.captureByHand
  refine Triple.ite (fun _ => ?_) fun _ =>
    Triple.pure fun _ h => h
  have hHook := Pager.beforeWrite_spec
    (fun _ _ core => Working allocated xid core ∧ K core)
    hCalm pageId reason ?_
  · exact hHook.bind fun _ => Triple.pure fun _ h => h
  intro core core' transactionId before hCore hIntends
  rcases hCore with ⟨⟨hIntact, hWriting⟩, hK⟩
  rcases writing_intends hIntact.watching hWriting hIntends
    with ⟨hStill, hWatching, hFiles, _, hCache, hBefore, _⟩
  refine ⟨⟨⟨?_, ?_, hWatching, fun hApart => ?_⟩, hStill⟩,
    hKeeps _ _ _ _ _ _ hK hIntends⟩
  · rw [hFiles]
    exact hIntact.staged
  · unfold Core.Clean
    rw [hCache, hFiles]
    exact hIntact.clean
  · exact ((hIntact.separate (hBefore hApart)).intends
      hIntends).1

theorem allocatePage_working (pageType : PageType) :
    Triple (Ready (Working allocated xid))
      (Pager.allocatePage (π := Record ρ) pageType)
      (fun _ => Ready (Counted allocated xid))
      (fun _ => Ready (Intact (ρ := ρ) allocated)) := by
  unfold Pager.allocatePage
  refine Triple.bind (Q := fun _ =>
    Ready (Working allocated xid)) ?_ fun _ => ?_
  · exact Pager.ensureOpen_keeps.raises
      (fun _ _ h => ⟨h.1, h.2.1⟩)
  refine Triple.bind (takePageId_working.raises
    (fun _ _ h => ⟨h.1, h.2.1⟩)) fun taken => ?_
  refine Triple.read fun engine hReady => ?_
  let K : Core (Record ρ) → Prop := fun core =>
    core.pageSize = engine.pageSize
  have hCalm : Calm fun core =>
      Working allocated xid core ∧ K core := by
    intro core core' hCore hQuiet
    exact ⟨working_calm _ _ hCore.1 hQuiet,
      hQuiet.pageSize.trans hCore.2⟩
  refine Triple.weaken (P := Ready fun core =>
      Working allocated xid core ∧ K core) ?_
    (fun _ h => h ▸ ⟨hReady.1, hReady.2, rfl⟩)
    (fun _ _ h => h) (fun _ _ h => h)
  refine Pager.create_bind pageType engine.pageSize ?_
    fun _ _ h => ⟨h.1, h.2.1.1⟩
  refine Triple.bind
    ((captureByHand_working hCalm ?_ taken.1 _ _).raises
      (fun _ _ h => ⟨h.1, h.2.1.1⟩)) fun _ => ?_
  · intro core core' _ _ _ _ hK hIntends
    cases hIntends <;> exact hK
  refine Triple.bind
    (Q := fun _ => Ready (Working allocated xid)) ?_
    fun _ => ?_
  · refine (Pager.overwriteAt_spec working_calm taken.1
      (.slotted (Page.blank pageType engine.pageSize))
      _).weaken ?_ (fun _ _ h => h) (fun _ _ h => h.elim)
    rintro current ⟨hGood, ⟨hIntact, hWriting⟩, hSize⟩
    refine ⟨hGood, hSize.symm, hIntact.blanked _ ?_, ?_⟩
    · intro slotId
      unfold versionAt
      simp only
      rw [HeapFile.read_create]
      rfl
    · exact hWriting
  · exact writeMeta_working.bind fun _ =>
      Triple.pure fun _ h => h

/- A page the count covers is the transaction's own. -/
theorem Counted.granted
    (hCounted : Counted allocated xid core)
    (hCovered : pageId < core.metaPage.pageCount) :
    Intact ((xid, pageId) :: allocated) core := by
  rcases hCounted with ⟨hIntact, hShown, owner, hOwner, hId,
    hHas⟩
  refine ⟨hIntact.staged, hIntact.clean, hIntact.watching,
    fun hApart => ?_⟩
  have hSeparate := hIntact.separate hApart
  refine ⟨hSeparate.issued, ?_, ?_, hSeparate.captured,
    hSeparate.unique, ?_, hSeparate.holds⟩
  · intro image hImage page hPage entry hEntry
    rcases List.mem_cons.mp hEntry with rfl | hOld
    · rw [hShown image page hImage hPage]
      exact hCovered
    · exact hSeparate.counted image hImage page hPage entry
        hOld
  · intro entry hEntry
    rcases List.mem_cons.mp hEntry with rfl | hOld
    · exact hCovered
    · exact hSeparate.live entry hOld
  · intro transaction hMem image hSource page hPage entry
      hEntry
    rcases mem_without hEntry with ⟨hMember, hOther⟩
    rcases List.mem_cons.mp hMember with rfl | hOld
    · -- nobody else has captured the meta page
      have hSame : transaction.session = owner.session := by
        by_contra hApartHere
        have hFree := hApart transaction hMem owner hOwner
          hApartHere metaPageId (hSeparate.captured _ hMem _
            _ hSource)
        rw [hHas] at hFree
        cases hFree
      have hWriter : transaction = owner :=
        List.inj_on_of_nodup_map core.transactions.sessions
          hMem hOwner hSame
      rw [hWriter] at hOther
      exact absurd hId.symm hOther
    · exact hSeparate.covered _ hMem image hSource page hPage
        entry (List.mem_filter.mpr
          ⟨hOld, decide_eq_true hOther⟩)

/- Whatever piece of work a session does. -/
theorem perform_working [Payload ρ] (work : Work ρ) :
    Triple (Ready (Working allocated xid)) work.perform
      (fun result engine => Ready
        (Intact (granted xid engine result ++ allocated))
        engine)
      (fun _ => Ready (Intact allocated)) := by
  have hPlain : ∀ {α : Type} {program : EngineM (Record ρ) α},
      Triple (Ready (Working allocated xid)) program
        (fun _ => Ready (Intact allocated))
        (fun _ => Ready (Intact allocated)) →
      Triple (Ready (Working allocated xid))
        (do
          let _ ← program
          return none)
        (fun result engine => Ready
          (Intact (granted xid engine result ++ allocated))
          engine)
        (fun _ => Ready (Intact allocated)) :=
    fun hProgram => hProgram.bind fun _ =>
      Triple.pure fun _ h => h
  cases work with
  | read pageId =>
    exact hPlain ((readPage_working pageId).weaken
      (fun _ h => h) (fun _ _ h => ⟨h.1, h.2.1.1⟩)
      (fun _ _ h => ⟨h.1, h.2.1⟩))
  | place pageId row => exact hPlain (place_working pageId row)
  | stamp recordId => exact hPlain (stamp_working recordId)
  | link pageId nextPageId =>
    exact hPlain (link_working pageId nextPageId)
  | keep pageId page plain =>
    exact hPlain (keep_working pageId plain)
  | allocate pageType =>
    refine (allocatePage_working pageType).bind
      fun taken => Triple.pure fun engine hReady => ?_
    rcases hReady with ⟨hGood, hCounted⟩
    refine ⟨hGood, ?_⟩
    unfold granted
    simp only
    split
    · rename_i hCovered
      exact hCounted.granted hCovered
    · exact hCounted.1
  | editMeta pages =>
    exact hPlain ((editMeta_working pages.install
      fun _ => Nat.le_refl _).weaken (fun _ h => h)
        (fun _ _ h => ⟨h.1, h.2.1⟩)
        (fun _ _ h => ⟨h.1, h.2.1⟩))
  | flushMeta =>
    exact hPlain (writeMeta_working.post
      (fun _ _ h => ⟨h.1, h.2.1⟩))

end Work

--
-- Beginning and Committing
--

section Control

variable {allocated : Allocated}

/- What is open after a call was open, or has just begun. -/
theorem open_begin
    {ι : Type}
    {manager manager' : TransactionManager ι}
    {implicit : Bool}
    {session : String}
    {isolation : IsolationLevel}
    (hBegin : manager.begin implicit session isolation =
      .ok manager') :
    manager.nextId ≤ manager'.nextId ∧
      (Apart manager' → Apart manager) ∧
      ∀ transaction ∈ manager'.running,
        (∃ old ∈ manager.running,
          old.undo = transaction.undo ∧
            old.transactionId = transaction.transactionId) ∨
        transaction.undo.records = [] ∧
          manager.nextId ≤ transaction.transactionId := by
  unfold TransactionManager.begin at hBegin
  split at hBegin
  · split at hBegin
    · cases hBegin
      exact ⟨Nat.le_refl _, id, fun transaction hMem =>
        .inl ⟨transaction, hMem, rfl, rfl⟩⟩
    · split at hBegin
      · cases hBegin
      · cases hBegin
        -- the implicit transaction becomes the user's
        refine ⟨Nat.le_refl _, ?_, ?_⟩
        · intro hApart first hFirst second hSecond hOther
            pageId hHas
          have hFree := hApart _ (List.mem_map_of_mem hFirst)
            _ (List.mem_map_of_mem hSecond)
          specialize hFree (by split <;> split <;> exact hOther)
            pageId (by split <;> exact hHas)
          revert hFree
          split <;> exact id
        · intro transaction hMem
          rcases Transaction.running_updateIn hMem with
            ⟨old, hOld, rfl | rfl⟩
          · exact .inl ⟨old, hOld, rfl, rfl⟩
          · exact .inl ⟨_, hOld, rfl, rfl⟩
  · cases hBegin
    refine ⟨Nat.le_succ _, ?_, ?_⟩
    · intro hApart first hFirst second hSecond
      exact hApart first (List.mem_append_left _ hFirst)
        second (List.mem_append_left _ hSecond)
    · intro transaction hMem
      rcases List.mem_append.mp hMem with hOld | hNew
      · exact .inl ⟨transaction, hOld, rfl, rfl⟩
      · rw [List.mem_singleton.mp hNew]
        exact .inr ⟨rfl, Nat.le_refl _⟩

theorem begin_intact
    (implicit : Bool)
    (isolation : IsolationLevel) :
    Triple (Ready (Intact (ρ := ρ) allocated))
      (begin implicit isolation)
      (fun _ => Ready (Intact allocated))
      (fun _ => Ready (Intact allocated)) := by
  unfold begin
  refine ensureOpen_keeps.bind fun _ => ?_
  refine Triple.read fun engine hReady => ?_
  refine Triple.bind
    ((Pager.fromExcept_keeps (P := fun current =>
      current = engine) _).raises (fun _ _ h => h ▸ hReady))
    fun manager => ?_
  refine Triple.modify fun current hCurrent => ?_
  rcases hCurrent with ⟨rfl, hBegin⟩
  rcases hReady with ⟨hGood, hIntact⟩
  rcases open_begin hBegin with ⟨hNext, hBefore, hRunning⟩
  refine ⟨⟨hGood.sound, hGood.staged, hGood.walOpen,
    hGood.isOpen⟩, hIntact.staged, hIntact.clean,
    hIntact.watching, fun hApart => ?_⟩
  have hSeparate := hIntact.separate (hBefore hApart)
  exact hSeparate.still hNext hRunning (fun _ _ _ h => h)
    (fun _ _ h => .inl h) hSeparate.live

variable {core : Core (Record ρ)}

/- A transaction ends and keeps what it wrote. -/
theorem Separate.retired
    (hSeparate : Separate allocated core)
    (session : String) :
    Separate allocated { core with
      transactions := core.transactions.retire session } := by
  refine hSeparate.still (Nat.le_refl _) ?_
    (fun _ _ _ h => h) (fun _ _ h => .inl h)
    hSeparate.live
  intro transaction hMem
  exact .inl ⟨transaction, (List.mem_filter.mp hMem).1,
    rfl, rfl⟩

/- What holds whoever is open, and what the pages show. -/
structure Settles
    (allocated : Allocated)
    (P : Core (Record ρ) → Prop)
    (core : Core (Record ρ)) : Prop where
  staged : core.files.wal.Staged
  clean : core.Clean
  watching : core.watching = true
  separate : Separate allocated core
  rest : P core

variable {P : Core (Record ρ) → Prop}

/- A log operation that adds nothing to put back. -/
theorem Settles.relogged
    (hSettles : Settles allocated P core)
    (files : Files (Record ρ))
    (hPages : files.pages = core.files.pages)
    (hStaged : files.wal.Staged)
    (hLog : ∀ transactionId pageId image,
      Undoes files.wal transactionId pageId image →
      Undoes core.files.wal transactionId pageId image)
    (hRest : P { core with files := files }) :
    Settles allocated P { core with files := files } := by
  have hView : ∀ pageId,
      ({ core with files := files } : Core (Record ρ)).view
        pageId = core.view pageId := by
    intro pageId
    unfold Core.view
    simp only [hPages]
  refine ⟨hStaged, ?_, hSettles.watching, ?_, hRest⟩
  · intro pageId frame hFrame hDirty
    simp only
    rw [hPages]
    exact hSettles.clean pageId frame hFrame hDirty
  · refine hSettles.separate.still (Nat.le_refl _)
      (fun transaction hMem =>
        .inl ⟨transaction, hMem, rfl, rfl⟩)
      hLog (fun pageId image hImage => ?_)
      hSettles.separate.live
    rw [hView] at hImage
    exact .inl hImage

theorem Settles.intact
    (hSettles : Settles allocated P core) :
    Intact allocated core :=
  ⟨hSettles.staged, hSettles.clean, hSettles.watching,
    fun _ => hSettles.separate⟩

/- A commit leaves what the others would put back alone. -/
theorem commit_intact
    (session : String) :
    Triple
      (fun engine : Engine (Record ρ) =>
        Ready (Intact allocated) engine ∧
          Apart engine.transactions ∧
          engine.session = session ∧
          engine.transactions.isFailedIn session = false)
      commit
      (fun _ => Ready (Intact allocated))
      (fun _ => Ready (Intact allocated)) := by
  unfold commit
  refine Triple.bind (Q := fun _ engine =>
    Ready (Intact allocated) engine ∧
      Apart engine.transactions ∧
      engine.session = session ∧
      engine.transactions.isFailedIn session = false) ?_
    fun _ => ?_
  · unfold ensureOpen
    refine Triple.read fun engine hEngine => ?_
    refine Triple.ite (fun _ => Triple.throw fun _ h =>
      h ▸ hEngine.1) fun _ => Triple.pure fun _ h =>
        h ▸ hEngine
  refine Triple.read fun engine hEngine => ?_
  rcases hEngine with ⟨hReady, hApart, rfl, hAlive⟩
  refine Triple.ite (fun hFailed => ?_) fun _ => ?_
  · rw [hAlive] at hFailed
    cases hFailed
  refine Triple.bind
    ((Pager.fromExcept_keeps (P := fun current =>
      current = engine) _).raises (fun _ _ h => h ▸ hReady))
    fun committed => ?_
  refine Triple.start fun current hCurrent => ?_
  rcases hCurrent with ⟨rfl, hCommit⟩
  have hManager := commit_retires hCommit
  rcases hReady with ⟨hGood, hIntact⟩
  have hSeparate := (hIntact.separate hApart).retired
    current.session
  let P : Core (Record ρ) → Prop := fun _ => True
  refine Triple.bind
    (Q := fun _ => Ready (Settles allocated P)) ?_
    fun _ => ?_
  · refine Triple.modify fun after hSame => ?_
    subst hSame
    refine ⟨⟨hGood.sound, hGood.staged, hGood.walOpen,
      hGood.isOpen⟩, hIntact.staged, hIntact.clean,
      hIntact.watching, ?_, trivial⟩
    rw [hManager]
    exact hSeparate
  unfold Pager.logCommit
  refine Triple.bind
    (Q := fun _ => Ready (Settles allocated P)) ?_
    fun _ => Triple.pure fun _ h => ⟨h.1, h.2.intact⟩
  refine Triple.bind
    (Q := fun _ => Ready (Settles allocated P)) ?_
    fun _ => Triple.pure fun _ h => h
  refine (Pager.changeLog_keeps .logFlushed
    (fun log => (log.stage (log.endRecord .commit
      committed.2.transactionId)).flushed.forget
        committed.2.transactionId)
    (fun _ hOpen => ⟨_, WriteAheadLog.commit_run hOpen _⟩)
    (fun _ h => ((h.stage rfl).flushed).forget _)
    (fun _ => WriteAheadLog.flushed_closed _)
    fun core hCore => ?_).raises (fun _ _ h => h.elim)
  refine hCore.relogged _ rfl ?_ ?_ trivial
  · exact ((hCore.staged.stage rfl).flushed).forget _
  · intro transactionId pageId image hUndoes
    have hForgot : Undoes
        (core.files.wal.stage (core.files.wal.endRecord
          .commit committed.2.transactionId)).flushed
        transactionId pageId image := hUndoes
    exact hForgot.of_flushed.of_endRecord

--
-- Rolling Back
--

/- Every page shows what it did when the rollback began, or
   an image that was put back. -/
def Shows
    (start : Core (Record ρ))
    (transaction : OpenTransaction (PageImage (Record ρ)))
    (core : Core (Record ρ)) : Prop :=
  ∀ pageId held, start.view pageId = some held →
    ∃ now, core.view pageId = some now ∧
      (now.content = held.content ∨
        ∃ image, Source start transaction pageId image ∧
          now.content = image.content)

/- A rollback under way. -/
structure Restores
    (start : Core (Record ρ))
    (transaction : OpenTransaction (PageImage (Record ρ)))
    (core : Core (Record ρ)) : Prop where
  transactions : core.transactions = start.transactions
  session : core.session = start.session
  sources : ∀ pageId image,
    Source core transaction pageId image →
    Source start transaction pageId image
  shows : Shows start transaction core

section Rollback

variable {core core' start : Core (Record ρ)}
variable {transaction :
  OpenTransaction (PageImage (Record ρ))}

theorem Separate.mono
    {fewer : Allocated}
    (hSeparate : Separate allocated core)
    (hFewer : ∀ entry ∈ fewer, entry ∈ allocated) :
    Separate fewer core where
  issued := hSeparate.issued
  counted := fun image hImage =>
    (hSeparate.counted image hImage).mono hFewer
  live := fun entry hEntry =>
    hSeparate.live entry (hFewer entry hEntry)
  captured := hSeparate.captured
  unique := hSeparate.unique
  covered := fun transaction hMem image hSource =>
    (hSeparate.covered transaction hMem image hSource).mono
      fun entry hEntry => by
        rcases mem_without hEntry with ⟨hIn, hOther⟩
        exact List.mem_filter.mpr
          ⟨hFewer entry hIn, decide_eq_true hOther⟩
  holds := hSeparate.holds

theorem shows_quiet
    (hShows : Shows start transaction core)
    (hClean : core.Clean)
    (hQuiet : core.Quiet core') :
    Shows start transaction core' := by
  intro pageId held hHeld
  rcases hShows pageId held hHeld with ⟨now, hNow, hSame⟩
  exact ⟨now, hQuiet.view_of hClean pageId now hNow, hSame⟩

theorem Restores.quiet
    (hRestores : Restores start transaction core)
    (hClean : core.Clean)
    (hQuiet : core.Quiet core') :
    Restores start transaction core' where
  transactions :=
    (quiet_transactions hQuiet).trans hRestores.transactions
  session := by
    refine Eq.trans ?_ hRestores.session
    cases hQuiet <;> rfl
  sources := fun pageId image hSource =>
    hRestores.sources pageId image
      (hSource.mono fun _ _ _ => undoes_quiet hQuiet)
  shows := shows_quiet hRestores.shows hClean hQuiet

theorem settles_calm
    {P : Core (Record ρ) → Prop}
    (hCalm : ∀ core core' : Core (Record ρ), core.Clean →
      P core → core.Quiet core' → P core') :
    Calm (Settles allocated P) := by
  intro core core' hSettles hQuiet
  have hIntact := hSettles.intact.quiet hQuiet
  exact ⟨hIntact.staged, hIntact.clean, hIntact.watching,
    hSettles.separate.quiet hSettles.clean hQuiet,
    hCalm _ _ hSettles.clean hSettles.rest hQuiet⟩

theorem restores_calm :
    Calm (Settles allocated (Restores start transaction)) :=
  settles_calm fun _ _ hClean hRestores hQuiet =>
    hRestores.quiet hClean hQuiet

section Restoring

variable
    (hStart : Separate allocated start)
    (hApart : Apart start.transactions)

include hStart hApart

/- One image is put back. -/
theorem restorePage_restores
    (hMem : transaction ∈ start.transactions.running)
    {pageId : PageId}
    {image : PageImage (Record ρ)}
    (hSource : Source start transaction pageId image) :
    Pager.Keeps
      (Settles (allocated.without transaction.transactionId)
        (Restores start transaction))
      (Pager.restorePage pageId image) := by
  unfold Pager.restorePage
  refine Pager.ensureOpen_keeps.bind fun _ => ?_
  refine Pager.writeAt_spec restores_calm restores_calm
    pageId image _ false ?_
  intro core core' transactionId before hCore hAnswers _
  rcases hAnswers with ⟨rfl, rfl, rfl⟩
  rcases hCore with
    ⟨hStaged, hClean, hWatching, hSeparate, hRestores⟩
  have hSame := hRestores.transactions
  have hLog : ∀ owner other held,
      Undoes (core'.logged pageId noTransaction .empty
        image).files.wal owner other held →
      Undoes core'.files.wal owner other held := by
    intro owner other held hUndoes
    rcases Undoes.of_updated hStaged hUndoes with
      hOld | ⟨_, _, _, hLength⟩
    · exact hOld
    · exact absurd rfl hLength
  refine ⟨hStaged.updated _ _ _ _, hClean.logged _ _ _ _,
    hWatching, ?_, ⟨hSame, hRestores.session, ?_, ?_⟩⟩
  · refine hSeparate.logged hStaged (fun h => absurd rfl h)
      ?_ ?_
    · intro other hOther held hPage _ hHeld
      -- only the transaction has captured the page
      have hOwn : other.session = transaction.session := by
        by_contra hDiffers
        have hFree := hApart other (hSame ▸ hOther)
          transaction hMem hDiffers pageId hPage
        rw [hStart.captured transaction hMem pageId image
          hSource] at hFree
        cases hFree
      have hIs : other = transaction :=
        List.inj_on_of_nodup_map start.transactions.sessions
          (hSame ▸ hOther) hMem hOwn
      subst hIs
      rcases hHeld with hHeld | ⟨hEmpty, _⟩
      · rw [hStart.unique other hMem pageId held image
          (hRestores.sources pageId held hHeld) hSource]
        exact holds_refl _ _
      · exact absurd rfl hEmpty
    · rintro rfl
      exact hStart.covered transaction hMem image hSource
  · exact fun other held hHeld =>
      hRestores.sources other held (hHeld.mono hLog)
  · intro other held hHeld
    rcases view_logged core' pageId noTransaction .empty
      image other with ⟨lsn, hView⟩
    rw [hView]
    split
    · rename_i hPage
      refine ⟨_, rfl, .inr ⟨image, hPage ▸ hSource, ?_⟩⟩
      exact PageImage.content_stamp _ _
    · exact hRestores.shows other held hHeld

theorem applyUndo_restores
    (hMem : transaction ∈ start.transactions.running)
    (records : List (UndoRecord (PageImage (Record ρ))))
    (hRecords : ∀ record ∈ records,
      record ∈ transaction.undo.records) :
    Pager.Keeps
      (Settles (allocated.without transaction.transactionId)
        (Restores start transaction))
      (applyUndo records) :=
  applyUndo_run records fun record hRecord =>
    restorePage_restores hStart hApart hMem
      (.kept (hRecords record hRecord) rfl rfl)

theorem restoreFromWal_restores
    (hMem : transaction ∈ start.transactions.running) :
    Pager.Keeps
      (Settles (allocated.without transaction.transactionId)
        (Restores start transaction))
      (restoreFromWal transaction.transactionId) := by
  refine restoreFromWal_run ?_ fun engine hReady => ?_
  · refine Pager.changeLog_keeps .logFlushed
      WriteAheadLog.flushed
      (fun _ hOpen => ⟨(), WriteAheadLog.flush_run hOpen⟩)
      (fun _ h => h.flushed) WriteAheadLog.flushed_closed
      fun core hCore => ?_
    have hRestores := hCore.rest
    refine hCore.relogged _ rfl hCore.staged.flushed
      (fun _ _ _ h => h.of_flushed) ⟨hRestores.transactions,
        hRestores.session, ?_, hRestores.shows⟩
    intro pageId image hSource
    exact hRestores.sources pageId image
      (hSource.mono fun _ _ _ h => h.of_flushed)
  · refine (restoreRecords_run engine.core.readable
      (fun record hRecord hId hUndo => ?_) []).pre
      (fun _ h => h ▸ hReady)
    exact restorePage_restores hStart hApart hMem
      (hReady.2.rest.sources _ _ (.logged ⟨record,
        List.mem_append_left _ hRecord, hId, hUndo, rfl,
        rfl⟩))

/- The pages once the transaction is gone. -/
theorem undoActive_restores
    (hActive : start.transactions.activeIn start.session =
      some transaction) :
    Triple
      (Ready (Settles
        (allocated.without transaction.transactionId)
        (Restores start transaction)))
      undoActive
      (fun returned engine => Ready (Settles
          (allocated.without transaction.transactionId)
          (Shows start transaction)) engine ∧
        returned = transaction)
      (fun _ => Ready (Settles
        (allocated.without transaction.transactionId)
        (Restores start transaction))) := by
  have hMem := mem_of_activeIn hActive
  unfold undoActive
  refine Triple.read fun engine hReady => ?_
  have hRequired : engine.transactions.requireActive
      "ROLLBACK" engine.session = .ok transaction := by
    have hSame := hReady.2.rest.transactions
    have hSession := hReady.2.rest.session
    change engine.transactions = _ at hSame
    change engine.session = _ at hSession
    unfold TransactionManager.requireActive
    rw [hSame, hSession, hActive]
  rw [hRequired]
  refine Triple.bind (Q := fun returned current =>
    current = engine ∧ returned = transaction)
    (Triple.pure fun _ h => ⟨h, rfl⟩) fun returned => ?_
  refine Triple.assume fun hReturned => ?_
  subst hReturned
  refine Triple.bind
    ((applyUndo_restores hStart hApart hMem
      returned.undo.rewind fun record hRecord => by
        simpa [UndoLog.rewind] using hRecord).pre
      (fun _ h => h ▸ hReady)) fun _ => ?_
  refine Triple.bind (Q := fun _ => Ready (Settles
    (allocated.without returned.transactionId)
    (Shows start returned)))
    (Triple.modify fun current hCurrent => ?_)
    fun _ => Triple.pure fun _ h => ⟨h, rfl⟩
  rcases hCurrent with ⟨hGood, hSettles⟩
  exact ⟨⟨hGood.sound, hGood.staged, hGood.walOpen,
    hGood.isOpen⟩, hSettles.staged, hSettles.clean,
    hSettles.watching, hSettles.separate.retired _,
    hSettles.rest.shows⟩

end Restoring

theorem restoreOverflow_restores
    (hStart : Separate allocated start)
    (hApart : Apart start.transactions)
    (hMem : transaction ∈ start.transactions.running) :
    Pager.Keeps
      (Settles (allocated.without transaction.transactionId)
        (Restores start transaction))
      (restoreOverflow (some transaction)) := by
  unfold restoreOverflow
  exact Triple.ite
    (fun _ => restoreFromWal_restores hStart hApart hMem)
    fun _ => Triple.pure fun _ h => h

end Rollback

variable {start : Core (Record ρ)}
variable {transaction : OpenTransaction (PageImage (Record ρ))}

theorem logAbort_shows
    (transactionId : Nat) :
    Triple
      (Ready (Settles allocated (Shows start transaction)))
      (Pager.logAbort transactionId)
      (fun _ => Ready
        (Settles allocated (Shows start transaction)))
      (fun _ => Ready
        (Settles allocated (Shows start transaction))) := by
  unfold Pager.logAbort
  refine Triple.bind
    (Q := fun _ => Ready
      (Settles allocated (Shows start transaction))) ?_
    fun _ => Triple.pure fun _ h => h
  refine (Pager.onLog_keeps
    (fun log => (log.stage (log.endRecord .abort
      transactionId)).forget transactionId)
    (fun _ hOpen => ⟨_, WriteAheadLog.abort_run hOpen _⟩)
    (fun _ h => (h.stage rfl).forget _) (fun _ => rfl)
    fun core hCore => ?_).raises (fun _ _ h => h.elim)
  refine hCore.relogged _ rfl ((hCore.staged.stage rfl).forget
    _) (fun _ _ _ h => ?_) hCore.rest
  exact Undoes.of_endRecord h

/- The meta page is what page 0 shows again. -/
theorem reloadMeta_shows :
    Triple
      (Ready (Settles allocated (Shows start transaction)))
      (Pager.reloadMeta (π := Record ρ))
      (fun _ => Ready
        (Settles allocated (Shows start transaction)))
      (fun _ => Ready
        (Settles allocated (Shows start transaction))) := by
  have hCalm : Calm
      (Settles allocated (Shows start transaction)) :=
    settles_calm fun _ _ hClean hShows hQuiet =>
      shows_quiet hShows hClean hQuiet
  unfold Pager.reloadMeta
  refine Triple.bind (Pager.fetch_spec hCalm metaPageId)
    fun found => ?_
  refine Triple.bind
    ((Pager.fromExcept_keeps found.1.asMeta).raises
      (fun _ _ h => h.1))
    fun page => ?_
  refine Triple.modify fun engine hEngine => ?_
  rcases hEngine with ⟨⟨⟨hGood, hSettles⟩, hView⟩, hMeta⟩
  refine ⟨⟨hGood.sound, hGood.staged, hGood.walOpen,
    hGood.isOpen⟩, hSettles.staged, hSettles.clean,
    hSettles.watching, ?_, hSettles.rest⟩
  exact hSettles.separate.still (Nat.le_refl _)
    (fun transaction hMem =>
      .inl ⟨transaction, hMem, rfl, rfl⟩)
    (fun _ _ _ h => h) (fun _ _ h => .inl h)
    (hSettles.separate.counted found.1 hView page hMeta)

/- What a rollback leaves, returning or raising. -/
theorem rollback_restores
    {engine : Engine (Record ρ)}
    (hReady : Ready (Intact allocated) engine)
    (hApart : Apart engine.transactions)
    (hActive : engine.transactions.activeIn engine.session =
      some transaction) :
    Triple (fun current => current = engine) rollback
      (fun returned final => Ready (Settles
          (allocated.without transaction.transactionId)
          (Shows engine.core transaction)) final ∧
        returned = transaction)
      (fun _ => Ready (Intact
        (allocated.without transaction.transactionId))) := by
  have hStart := hReady.2.separate hApart
  have hMem := mem_of_activeIn hActive
  have hBegin : Ready (Settles
      (allocated.without transaction.transactionId)
      (Restores engine.core transaction)) engine := by
    refine ⟨hReady.1, hReady.2.staged, hReady.2.clean,
      hReady.2.watching, ?_, rfl, rfl, fun _ _ h => h, ?_⟩
    · exact hStart.mono fun entry hEntry =>
        (mem_without hEntry).1
    · exact fun pageId held hHeld =>
        ⟨held, hHeld, .inl rfl⟩
  unfold rollback
  refine Triple.bind (Q := fun _ current =>
    current = engine) ?_ fun _ => ?_
  · unfold ensureOpen
    refine Triple.read fun current hCurrent => ?_
    refine Triple.ite (fun _ => Triple.throw fun _ h => ?_)
      fun _ => Triple.pure fun _ h => h.trans hCurrent
    rw [h, hCurrent]
    exact ⟨hBegin.1, hBegin.2.intact⟩
  refine Triple.read fun current hCurrent => ?_
  rw [hCurrent, hActive]
  refine Triple.bind
    ((restoreOverflow_restores hStart hApart hMem).weaken
      (fun _ h => h ▸ hBegin) (fun _ _ h => h)
      (fun _ _ h => ⟨h.1, h.2.intact⟩)) fun _ => ?_
  refine Triple.bind
    ((undoActive_restores hStart hApart hActive).raises
      (fun _ _ h => ⟨h.1, h.2.intact⟩)) fun returned => ?_
  refine Triple.assume fun hReturned => ?_
  refine Triple.bind ((logAbort_shows _).raises
    (fun _ _ h => ⟨h.1, h.2.intact⟩)) fun _ => ?_
  refine Triple.bind (reloadMeta_shows.raises
    (fun _ _ h => ⟨h.1, h.2.intact⟩)) fun _ => ?_
  exact Triple.pure fun _ h => ⟨h, hReturned⟩

end Control

--
-- Opening
--

/- What an opening keeps: clean frames, and nothing in the
   log to put back for ids still to be handed out. -/
structure Unissued
    (highestXid : Nat)
    (core : Core (Record ρ)) : Prop where
  staged : core.files.wal.Staged
  clean : core.Clean
  unwatched : core.watching = false
  issued : ∀ transactionId pageId image,
    Undoes core.files.wal transactionId pageId image →
    transactionId ≤ highestXid

section Opening

variable {highestXid : Nat} {core core' : Core (Record ρ)}

theorem clean_metaWritten
    (hClean : core.Clean)
    (checkpointLsn : Nat) :
    (core.metaWritten checkpointLsn).Clean := by
  intro pageId frame hFrame hDirty
  by_cases hSame : pageId = metaPageId
  · subst hSame
    simp [Core.metaWritten] at hFrame
  · simp only [Core.metaWritten,
      Function.update_of_ne hSame] at hFrame
    exact getElem?_putPage_of_some hSame
      (hClean pageId frame hFrame hDirty)

theorem Unissued.relogged
    (hUnissued : Unissued highestXid core)
    {wal : WriteAheadLog (PageImage (Record ρ))}
    (event : Option (FileEvent (Record ρ)))
    (hStaged : wal.Staged)
    (hLog : ∀ transactionId pageId image,
      Undoes wal transactionId pageId image →
      Undoes core.files.wal transactionId pageId image) :
    Unissued highestXid { core with
      files :=
        let files := { core.files with wal := wal }
        (event.map files.note).getD files } := by
  refine ⟨?_, ?_, hUnissued.unwatched,
    fun transactionId pageId image hUndoes => ?_⟩
  · cases event <;> exact hStaged
  · cases event <;> exact hUnissued.clean
  · refine hUnissued.issued transactionId pageId image
      (hLog _ _ _ ?_)
    cases event <;> exact hUndoes

variable {transactionId : Nat} {pageId : PageId}

theorem not_undoes_of_empty
    (log : WriteAheadLog (PageImage (Record ρ)))
    (hFile : log.file = [])
    (hBuffer : log.buffer = [])
    {image : PageImage (Record ρ)} :
    ¬ Undoes log transactionId pageId image := by
  rintro ⟨record, hRecord, _⟩
  unfold WriteAheadLog.readable at hRecord
  rw [hFile, hBuffer] at hRecord
  cases hRecord

/- The hook changes only who is open. -/
theorem answers_core
    {reason : String}
    {capture : Bool}
    {before : PageImage (Record ρ)}
    (hAnswers : core.Answers pageId reason capture core'
      transactionId before) :
    (∃ manager, core' = { core with
      transactions := manager }) ∧
      (core.watching = false → before = .empty) := by
  unfold Core.Answers at hAnswers
  split at hAnswers
  · cases hAnswers with
    | outside _ => exact ⟨⟨_, rfl⟩, fun _ => rfl⟩
    | again _ _ _ => exact ⟨⟨_, rfl⟩, fun _ => rfl⟩
    | first hWatching _ _ _ =>
      refine ⟨⟨_, rfl⟩, fun hIdle => ?_⟩
      rw [hWatching] at hIdle
      cases hIdle
  · exact ⟨⟨_, hAnswers.1⟩, fun _ => hAnswers.2.2⟩

theorem unissued_stable :
    Stable Anywhere
      (fun core : Core (Record ρ) =>
        Unissued highestXid core) := by
  intro core core' hCore hStep
  have hSame : ∀ {core' : Core (Record ρ)},
      core'.files = core.files → core'.cache = core.cache →
      core'.watching = core.watching →
      Unissued highestXid core' := by
    intro core' hFiles hCache hWatching
    refine ⟨?_, ?_, hWatching.trans hCore.unwatched, ?_⟩
    · rw [hFiles]
      exact hCore.staged
    · unfold Core.Clean
      rw [hFiles, hCache]
      exact hCore.clean
    · rw [hFiles]
      exact hCore.issued
  cases hStep with
  | quiet hQuiet =>
    refine ⟨?_, hQuiet.clean hCore.clean, ?_, ?_⟩
    · cases hQuiet with
      | writeBack _ =>
        exact Files.writtenBack_staged hCore.staged _ _ _
      | _ => exact hCore.staged
    · cases hQuiet <;> exact hCore.unwatched
    · intro transactionId pageId image hUndoes
      exact hCore.issued transactionId pageId image
        (undoes_quiet hQuiet hUndoes)
  | intended hIntends =>
    cases hIntends <;> exact hSame rfl rfl rfl
  | changed reason capture hAnswers _ _ =>
    rcases answers_core hAnswers with ⟨⟨_, rfl⟩, hBefore⟩
    refine ⟨hCore.staged.updated _ _ _ _,
      Core.Clean.logged hCore.clean _ _ _ _,
      hCore.unwatched, ?_⟩
    intro transactionId pageId image hUndoes
    rcases Undoes.of_updated hCore.staged hUndoes with
      hOld | ⟨_, _, _, hLength⟩
    · exact hCore.issued _ _ _ hOld
    · -- nothing is captured while no database watches
      rw [hBefore hCore.unwatched] at hLength
      exact absurd rfl hLength
  | edited _ _ _ _ => exact hSame rfl rfl rfl
  | reloaded _ _ => exact hSame rfl rfl rfl
  | ended recordType transactionId _ =>
    exact hCore.relogged none (hCore.staged.stage rfl)
      fun _ _ _ h => h.of_endRecord
  | forgot transactionId =>
    exact hCore.relogged none (hCore.staged.forget _)
      fun _ _ _ h => h
  | flushed =>
    exact hCore.relogged (some .logFlushed)
      hCore.staged.flushed fun _ _ _ h => h.of_flushed
  | stamped _ _ => exact hSame rfl rfl rfl
  | checkpointed _ hEmpty _ =>
    refine ⟨hCore.staged.truncated,
      clean_metaWritten hCore.clean _, hCore.unwatched, ?_⟩
    intro transactionId pageId image hUndoes
    exact (not_undoes_of_empty core.files.wal.truncated rfl
      hEmpty hUndoes).elim
  | shut _ =>
    exact hCore.relogged none
      ⟨hCore.staged.bytes, hCore.staged.run,
        hCore.staged.tail⟩ fun _ _ _ h => h
  | managed _ => exact hSame rfl rfl rfl
  | joined => exact hSame rfl rfl rfl

theorem unissued_recoverable :
    Recoverable
      (fun core : Core (Record ρ) =>
        Unissued highestXid core) := by
  intro core core' hCore hStep
  have hCleared : ∀ {core : Core (Record ρ)},
      core.Uncached → core.Clean := by
    intro core hUncached pageId frame hFrame
    rw [hUncached] at hFrame
    cases hFrame
  cases hStep with
  | recovered hUncached _ _ _ _ =>
    exact ⟨hCore.staged, hCleared hUncached,
      hCore.unwatched, hCore.issued⟩
  | compensated hUncached _ _ _ =>
    refine hCore.relogged none (hCore.staged.stage rfl)
      fun _ _ _ h => ?_
    rcases h.of_stage with hOld | ⟨_, hUndo, _⟩
    · exact hOld
    · simp [LogRecord.hasUndo,
        WriteAheadLog.nextRecord, Wal.byteLength] at hUndo
  | aborted transactionId hUncached =>
    exact hCore.relogged none
      ((hCore.staged.stage rfl).forget _)
      fun _ _ _ h => Undoes.of_endRecord h
  | flushed hUncached =>
    exact hCore.relogged (some .logFlushed)
      hCore.staged.flushed fun _ _ _ h => h.of_flushed
  | restarted hUncached _ _ _ =>
    refine ⟨WriteAheadLog.Staged.resetAt _, ?_,
      hCore.unwatched, ?_⟩
    · intro pageId frame hFrame
      unfold Core.Uncached at hUncached
      simp [Core.restarted, Core.metaWritten, hUncached]
        at hFrame
    · intro transactionId pageId image hUndoes
      exact (not_undoes_of_empty _ rfl rfl hUndoes).elim

end Opening

/- A database that has just been opened is intact. -/
theorem opened_intact
    {options : Pager.Options}
    {stored : Pager.Stored (Record ρ)}
    {engine : Engine (Record ρ)}
    (hNew : stored.pages = [] → stored.records = [])
    (hReopen : reopen options stored = some engine) :
    Ready (Intact []) engine := by
  unfold reopen at hReopen
  split at hReopen
  · cases hReopen
  rename_i fresh hOpening
  split at hReopen
  · split at hReopen
    · rename_i _ final hBoot
      cases hReopen
      rcases opening_spec hOpening with
        ⟨metaPage, frames, _, hEnough, rfl⟩
      have hOpened : Unissued (loggedXid stored metaPage)
          (opened stored metaPage) := by
        refine ⟨WriteAheadLog.openFile_staged _ _, ?_, rfl, ?_⟩
        · intro pageId frame hFrame
          cases hFrame
        · rintro transactionId pageId image
            ⟨record, hRecord, hId, _⟩
          rw [← hId]
          have hRead : record ∈ (WriteAheadLog.scan
              metaPage.checkpointLsn 0 stored.records).1 := by
            rcases List.mem_append.mp hRecord with
              hFile | hBuffer
            · exact hFile
            · cases hBuffer
          unfold loggedXid
          split
          · rename_i hNone
            rw [hNew hNone] at hRead
            cases hRead
          · exact Wal.transactionId_le_highestXid hRead
      have hBooted := (boot_spec unissued_stable
        unissued_recoverable hEnough hOpened true).of_ok rfl
          hBoot
      rcases hBooted with ⟨hGood, bare, hBare, hCore⟩
      refine ⟨hGood, ?_⟩
      rw [hCore]
      refine ⟨hBare.staged, hBare.clean, rfl, fun _ => ?_⟩
      refine ⟨?_, ?_, ?_, ?_, ?_, ?_, ?_⟩
      · intro transactionId pageId image hUndoes
        have hIssued := hBare.issued _ _ _ hUndoes
        simp only [installed, TransactionManager.create]
        omega
      · intro image _ page _ entry hEntry
        cases hEntry
      · intro entry hEntry
        cases hEntry
      all_goals
        intro transaction hMem
        cases hMem
    · cases hReopen
  · cases hReopen

--
-- Runs
--

section Runs

variable {allocated : Allocated}

variable {α : Type} {engine : Engine (Record ρ)}
variable {session : String} {program : EngineM (Record ρ) α}

/- A call made for a session, from what it does in one. -/
theorem inSession_intact
    {Q : α → Engine (Record ρ) → Prop}
    {E : EngineError → Engine (Record ρ) → Prop}
    (hProgram : Triple
      (fun current => current =
        { engine with session := session }) program Q E)
    (hLeave : ∀ value final, Q value final →
      Q value { final with session := engine.session })
    (hRaise : ∀ raised final, E raised final →
      E raised { final with session := engine.session }) :
    Triple (fun current => current = engine)
      (inSession session program) Q E := by
  refine Triple.focus fun current hCurrent => ?_
  subst hCurrent
  exact hProgram.weaken (fun _ h => h)
    (fun value final h => hLeave value final h)
    (fun raised final h => hRaise raised final h)

theorem Separate.joined
    {core : Core (Record ρ)}
    (hSeparate : Separate allocated core)
    (session : String) :
    Separate allocated { core with session := session } :=
  hSeparate.still (Nat.le_refl _)
    (fun transaction hMem =>
      .inl ⟨transaction, hMem, rfl, rfl⟩)
    (fun _ _ _ h => h) (fun _ _ h => .inl h)
    hSeparate.live

theorem ready_joined
    (hReady : Ready (Intact allocated) engine)
    (session : String) :
    Ready (Intact allocated)
      { engine with session := session } := by
  rcases hReady with ⟨hGood, hIntact⟩
  exact ⟨⟨hGood.sound, hGood.staged, hGood.walOpen,
    hGood.isOpen⟩, hIntact.staged, hIntact.clean,
    hIntact.watching, fun hApart =>
      (hIntact.separate hApart).joined session⟩

/- What a call leaves, whether it returned or raised. -/
theorem ready_after
    {P : Engine (Record ρ) → Prop}
    (hProgram : Triple (fun current => current = engine)
      (inSession session program) (fun _ => P)
      (fun _ => P)) :
    P (after session program engine) := by
  have h := hProgram engine rfl
  unfold after
  cases hRun : (inSession session program).run engine with
  | ok value final =>
    rw [hRun] at h
    exact h
  | error raised final =>
    rw [hRun] at h
    exact h

theorem perform_intact [Payload ρ]
    {transaction : OpenTransaction (PageImage (Record ρ))}
    (hReady : Ready (Intact allocated) engine)
    (hActive : engine.transactions.activeIn session =
      some transaction)
    (work : Work ρ) :
    Triple (fun current => current = engine)
      (inSession session work.perform)
      (fun result final => Ready (Intact
        (granted transaction.transactionId final result ++
          allocated)) final)
      (fun _ => Ready (Intact allocated)) := by
  refine inSession_intact ((perform_working work).pre
    (fun current hCurrent => ?_)) ?_ ?_
  · rw [hCurrent]
    have hJoined := ready_joined hReady session
    refine ⟨hJoined.1, hJoined.2, ?_⟩
    change (engine.transactions.activeIn session).map _ = _
    rw [hActive]
    rfl
  · intro result final hFinal
    have hGranted : granted transaction.transactionId
        { final with session := engine.session } result =
        granted transaction.transactionId final result := by
      cases result <;> rfl
    rw [hGranted]
    exact ready_joined hFinal engine.session
  · exact fun _ _ h => ready_joined h engine.session

/- Through every run the engine stays intact. -/
theorem interleaved_intact [Payload ρ]
    (hRun : Interleaved
      (fun engine => Apart engine.transactions) engine
      allocated) :
    Ready (Intact allocated) engine := by
  induction hRun with
  | opened hNew hReopen => exact opened_intact hNew hReopen
  | worked session work _ _ hActive hDone ih =>
    exact (perform_intact ih hActive work).of_ok rfl hDone
  | failed session work _ _ hActive hRaised ih =>
    exact (perform_intact ih hActive work).of_error rfl
      hRaised
  | began session implicit isolation _ _ ih =>
    refine ready_after (inSession_intact
      ((begin_intact implicit isolation).pre
        (fun _ h => h ▸ ready_joined ih session)) ?_ ?_)
    · exact fun _ _ h => ready_joined h _
    · exact fun _ _ h => ready_joined h _
  | committed session _ hApart hAlive ih =>
    refine ready_after (inSession_intact
      ((commit_intact session).pre (fun _ hSame => ?_)) ?_ ?_)
    · rw [hSame]
      exact ⟨ready_joined ih session, hApart, rfl, hAlive⟩
    · exact fun _ _ h => ready_joined h _
    · exact fun _ _ h => ready_joined h _
  | @rolledBack session engine _ transaction _ hApart hActive
      ih =>
    refine ready_after (inSession_intact
      ((rollback_restores (ready_joined ih session) hApart
        hActive).post
        (fun _ _ h => ⟨h.1.1, h.1.2.intact⟩)) ?_ ?_)
    · exact fun _ _ h => ready_joined h _
    · exact fun _ _ h => ready_joined h _

end Runs

--
-- What a Rollback Leaves of the Others
--

/- While no two open transactions have changed the same page,
   a rollback takes back nothing of the others. -/
theorem rollback_spares [Payload ρ]
    {engine final : Engine (Record ρ)}
    {allocated : Allocated}
    {session : String}
    {transaction : OpenTransaction (PageImage (Record ρ))}
    (hRun : Interleaved
      (fun engine => Apart engine.transactions) engine
      allocated)
    (hApart : Apart engine.transactions)
    (hActive : engine.transactions.activeIn session =
      some transaction)
    (hRollback : (inSession session rollback).run engine =
      .ok transaction final) :
    Spared transaction.transactionId allocated engine
      final := by
  have hReady := interleaved_intact hRun
  have hStart := hReady.2.separate hApart
  have hLeft := (inSession_intact
    (Q := fun returned current => Ready (Settles
        (allocated.without transaction.transactionId)
        (Shows { engine with session := session }.core
          transaction)) current ∧ returned = transaction)
    (rollback_restores (ready_joined hReady session) hApart
      hActive) ?_ ?_).of_ok rfl hRollback
  · rcases hLeft with ⟨⟨_, hSettles⟩, _⟩
    refine ⟨?_, ?_⟩
    · intro pageId image slotId version hView hVersion
        hForeign
      rcases hSettles.rest pageId image hView with
        ⟨now, hNow, hSame | ⟨saved, hSource, hSame⟩⟩
      · refine ⟨now, version, hNow, ?_, .refl _ _⟩
        rw [versionAt_of_content hSame]
        exact hVersion
      · -- the image put back has the version too
        have hHeld : Source engine.core transaction pageId
            saved := by
          cases hSource with
          | kept hRecord hPage hImage =>
            exact .kept hRecord hPage hImage
          | logged hUndoes => exact .logged hUndoes
        rcases hStart.holds transaction
            (mem_of_activeIn hActive) pageId saved image hHeld
            hView slotId version hVersion hForeign with
          ⟨kept, hKept, hSurvives⟩
        refine ⟨now, kept, hNow, ?_, hSurvives⟩
        rw [versionAt_of_content hSame]
        exact hKept
    · intro entry hEntry hOther
      exact hSettles.separate.live entry
        (List.mem_filter.mpr
          ⟨hEntry, decide_eq_true hOther⟩)
  · rintro returned current ⟨⟨hGood, hSettles⟩, hSame⟩
    exact ⟨⟨⟨hGood.sound, hGood.staged, hGood.walOpen,
      hGood.isOpen⟩, hSettles.staged, hSettles.clean,
      hSettles.watching, hSettles.separate.joined _,
      hSettles.rest⟩, hSame⟩
  · exact fun _ _ h => ready_joined h _

/- A page with a row of each session in it. -/
def besideTurns : List (Turn Bytes) :=
  [.begin "default", .work "default" (.allocate .heap),
    .work "default" (.allocate .heap), .commit "default",
    .begin "a", .work "a" (.place 1 [1]),
    .begin "b", .work "b" (.place 2 [2])]

/- The row in slot 0 of page 2 outlives the other session. -/
theorem rollback_spares_beside :
    ∃ engine allocated transaction final image,
      Interleaved (ρ := Bytes)
        (fun engine => Apart engine.transactions) engine
        allocated ∧
      (inSession "a" rollback).run engine =
        .ok transaction final ∧
      engine.core.view 2 = some image ∧
      versionAt image 0 = some ⟨⟨3, 0⟩, [2]⟩ ∧
      Spared transaction.transactionId allocated engine
        final := by
  have hComputed : (reopen newOptions ⟨[], []⟩).any
      (fun engine => (besideTurns.foldlM (Turn.take
        fun engine => Apart engine.transactions)
          (engine, [])).any fun state =>
        decide (Apart state.1.transactions) &&
        ((state.1.core.view 2).bind fun image =>
          versionAt image 0) == some ⟨⟨3, 0⟩, [2]⟩ &&
        (state.1.transactions.activeIn "a").any
          fun transaction =>
          match (inSession "a" rollback).run state.1 with
          | .ok returned _ => decide (returned = transaction)
          | .error _ _ => false) = true := by
    decide +kernel
  rcases (Option.any_eq_true _ _).mp hComputed with
    ⟨opened, hOpened, hLater⟩
  rcases (Option.any_eq_true _ _).mp hLater with
    ⟨⟨engine, allocated⟩, hTurns, hHolds⟩
  rw [Bool.and_eq_true, Bool.and_eq_true] at hHolds
  rcases hHolds with ⟨⟨hApart, hRow⟩, hRolled⟩
  rcases (Option.any_eq_true _ _).mp hRolled with
    ⟨transaction, hActive, hEnds⟩
  rcases Option.bind_eq_some_iff.mp (beq_iff_eq.mp hRow) with
    ⟨image, hView, hVersion⟩
  have hRun : Interleaved
      (fun engine => Apart engine.transactions) engine
      allocated :=
    Interleaved.turns besideTurns
      (.opened (fun _ => rfl) hOpened) hTurns
  cases hRollback :
      (inSession "a" rollback).run engine with
  | error raised final =>
    simp only [hRollback] at hEnds
    cases hEnds
  | ok returned final =>
    simp only [hRollback, decide_eq_true_eq] at hEnds
    subst hEnds
    exact ⟨engine, allocated, returned, final, image, hRun,
      hRollback, hView, hVersion, rollback_spares hRun
        (of_decide_eq_true hApart) hActive hRollback⟩

/- Two sessions put a row each on the same page, and the one
   that has not committed rolls back. -/
def sharedTurns : List (Turn Bytes) :=
  [.begin "default", .work "default" (.allocate .heap),
    .commit "default", .begin "a", .work "a" (.place 1 [1]),
    .begin "b", .work "b" (.place 1 [2]), .commit "b"]

/- The committed row in slot 1 of the page is gone. -/
theorem rollback_takes_others :
    ∃ engine allocated transaction final image,
      Interleaved (ρ := Bytes) (fun _ => True) engine
        allocated ∧
      engine.transactions.activeIn "a" = some transaction ∧
      (inSession "a" rollback).run engine =
        .ok transaction final ∧
      engine.core.view 1 = some image ∧
      versionAt image 1 = some ⟨⟨3, 0⟩, [2]⟩ ∧
      3 ∉ engine.transactions.runningIds ∧
      ¬ Spared transaction.transactionId allocated engine
        final := by
  have hComputed : (reopen newOptions ⟨[], []⟩).any
      (fun engine => (sharedTurns.foldlM (Turn.take
        fun _ => True) (engine, [])).any fun state =>
        ((state.1.core.view 1).bind fun image =>
          versionAt image 1) == some ⟨⟨3, 0⟩, [2]⟩ &&
        decide (3 ∉ state.1.transactions.runningIds) &&
        (state.1.transactions.activeIn "a").any
          fun transaction =>
          decide (transaction.transactionId = 2) &&
          match (inSession "a" rollback).run state.1 with
          | .ok returned final =>
            decide (returned = transaction) &&
            ((final.core.view 1).bind fun image =>
              versionAt image 1) == none
          | .error _ _ => false) = true := by
    decide +kernel
  rcases (Option.any_eq_true _ _).mp hComputed with
    ⟨opened, hOpened, hLater⟩
  rcases (Option.any_eq_true _ _).mp hLater with
    ⟨⟨engine, allocated⟩, hTurns, hHolds⟩
  rw [Bool.and_eq_true, Bool.and_eq_true] at hHolds
  rcases hHolds with ⟨⟨hRow, hEnded⟩, hRolled⟩
  rcases (Option.any_eq_true _ _).mp hRolled with
    ⟨transaction, hActive, hEnds⟩
  rcases Option.bind_eq_some_iff.mp (beq_iff_eq.mp hRow) with
    ⟨image, hView, hVersion⟩
  have hRun : Interleaved (fun _ => True) engine allocated :=
    Interleaved.turns sharedTurns
      (.opened (fun _ => rfl) hOpened) hTurns
  rw [Bool.and_eq_true, decide_eq_true_eq] at hEnds
  rcases hEnds with ⟨hOwn, hEnds⟩
  cases hRollback :
      (inSession "a" rollback).run engine with
  | error raised final =>
    simp only [hRollback] at hEnds
    cases hEnds
  | ok returned final =>
    simp only [hRollback, Bool.and_eq_true,
      decide_eq_true_eq] at hEnds
    rcases hEnds with ⟨rfl, hGone⟩
    refine ⟨engine, allocated, returned, final, image,
      hRun, hActive, hRollback, hView, hVersion,
      of_decide_eq_true hEnded, fun hSpared => ?_⟩
    have hForeign : Foreign returned.transactionId
        ⟨3, 0⟩ := by
      rw [hOwn]
      exact .inl (by decide)
    rcases hSpared.versions 1 image 1 _ hView hVersion
        hForeign with ⟨now, kept, hNow, hKept, _⟩
    rw [hNow] at hGone
    rw [Option.bind_some, hKept] at hGone
    cases hGone

end Database

end ChenDB
