import ChenDB.Storage.Reopen

/-
  Recovery over a database file in which a crash has left a
  page part old and part new. Redo asks only for the LSN in
  the page's first bytes, so a page whose new header reached
  the disk without the rest is taken for current.
-/

--
-- Pages on Disk
--

namespace ChenDB

namespace Storage

open Library Library.StateExcept Library.Struct Wal

/- The LSN in the bytes of a page. -/
def diskLsn (pageId : PageId) (raw : Bytes) : Nat :=
  if pageId = metaPageId then readMetaLsn raw
  else readLsn raw

/- The stored checksum is that of the bytes it covers. -/
def Intact (pageId : PageId) (raw : Bytes) : Prop :=
  if pageId = metaPageId then
    decode (slice raw 84 88) = crc32 (raw.take 84)
  else decode (slice raw 0 4) = crc32 (raw.drop 4)

instance (pageId : PageId) (raw : Bytes) :
    Decidable (Intact pageId raw) := by
  unfold Intact
  infer_instance

/- The bytes of a page in the file. -/
def Reopening.pageAt
    (pager : Reopening)
    (pageId : PageId) : Bytes :=
  slice pager.data (pageId * pager.pageSize)
    ((pageId + 1) * pager.pageSize)

/- The log is open and the file reaches past the page, which
   holds these bytes. -/
structure HoldsPage
    (pageSize : Nat)
    (pageId : PageId)
    (stored : Option Bytes)
    (pager : Reopening) : Prop where
  isOpen : pager.wal.log.closed = false
  size : pager.pageSize = pageSize
  there : (pageId + 1) * pageSize ≤ pager.data.length
  bytes : some (pager.pageAt pageId) = stored

section Callbacks

variable {pageSize : Nat} {pageId other : PageId}
variable {stored : Option Bytes}

/- Two pages do not overlap. -/
theorem pages_apart
    (hOther : other ≠ pageId) :
    (pageId + 1) * pageSize ≤ other * pageSize ∨
      (other + 1) * pageSize ≤ pageId * pageSize := by
  rcases Nat.lt_or_gt_of_ne hOther with hLess | hMore
  · exact .inr (Nat.mul_le_mul_right _ hLess)
  · exact .inl (Nat.mul_le_mul_right _ hMore)

/- An image goes to its own page and leaves the others. -/
theorem applyRecoveredPage_holds
    {image : Bytes}
    (hWhole : image.length = pageSize) :
    Triple (HoldsPage pageSize pageId stored)
      (applyRecoveredPage other image)
      (fun _ => HoldsPage pageSize pageId
        (if other = pageId then some image else stored))
      (fun _ _ => False) := by
  intro pager hPager
  rcases hPager with ⟨hOpen, rfl, hThere, hBytes⟩
  let extended : Bytes := pager.data ++
    List.replicate ((other + 1) * pager.pageSize -
      pager.data.length) 0
  have hLength : extended.length = pager.data.length +
      ((other + 1) * pager.pageSize -
        pager.data.length) := by
    rw [List.length_append, List.length_replicate]
  have hEnd : (other + 1) * pager.pageSize =
      other * pager.pageSize + image.length := by
    rw [Nat.succ_mul, hWhole]
  have hKeep : pager.data.length ≤ extended.length := by
    rw [hLength]
    exact Nat.le_add_right _ _
  have hFits : other * pager.pageSize + image.length ≤
      extended.length := by
    rw [← hEnd, hLength]
    exact Nat.sub_le_iff_le_add'.mp (Nat.le_refl _)
  have hApplied : (applyRecoveredPage other image).run
      pager = .ok () { pager with
        data := overwriteAt extended
          (other * pager.pageSize) image } := by
    unfold applyRecoveredPage
    rw [EStateM.run_bind, EStateM.run_get]
    simp only [ne_eq, hWhole, not_true_eq_false, if_false]
    rfl
  rw [hApplied]
  refine ⟨hOpen, rfl, ?_, ?_⟩
  · rw [length_overwriteAt hFits]
    exact Nat.le_trans hThere hKeep
  · unfold Reopening.pageAt at hBytes ⊢
    by_cases hSame : other = pageId
    · subst hSame
      have hRead := slice_overwriteAt_self hFits
      rw [← hEnd] at hRead
      rw [if_pos rfl]
      exact congrArg some hRead
    · have hApart :
          (pageId + 1) * pager.pageSize ≤
              other * pager.pageSize ∨
            other * pager.pageSize + image.length ≤
              pageId * pager.pageSize := by
        rw [← hEnd]
        exact pages_apart hSame
      rw [if_neg hSame, slice_overwriteAt_of_apart hFits
        hApart, slice_append hThere]
      exact hBytes

theorem pageLsnOnDisk_holds :
    Triple (HoldsPage pageSize pageId stored)
      (pageLsnOnDisk other)
      (fun lsn pager =>
        HoldsPage pageSize pageId stored pager ∧
          (other = pageId → ∃ bytes, stored = some bytes ∧
            lsn = diskLsn pageId bytes))
      (fun _ _ => False) := by
  refine Triple.read fun pager hPager => ?_
  have hEnough : other = pageId →
      ¬ pager.data.length <
        (other + 1) * pager.pageSize := by
    rintro rfl
    rw [hPager.size]
    exact Nat.not_lt.mpr hPager.there
  refine Triple.ite (fun hShort => ?_) fun _ => ?_
  · refine Triple.pure fun current hCurrent => ?_
    rw [hCurrent]
    exact ⟨hPager, fun hSame =>
      absurd hShort (hEnough hSame)⟩
  · refine Triple.pure fun current hCurrent => ?_
    rw [hCurrent]
    refine ⟨hPager, ?_⟩
    rintro rfl
    refine ⟨_, hPager.bytes.symm, ?_⟩
    unfold diskLsn
    split
    · rfl
    · rfl

/- A call on the log leaves the page alone. -/
theorem onLog_holds
    {α : Type}
    {program : LogM Bytes α}
    (hRun : ∀ log : WriteAheadLog Bytes,
      log.closed = false →
      ∃ value final, program.run log = .ok value final ∧
        final.closed = false) :
    Triple (HoldsPage pageSize pageId stored)
      (Reopening.onLog program)
      (fun _ => HoldsPage pageSize pageId stored)
      (fun _ _ => False) := by
  intro pager hPager
  rcases hRun pager.wal.log hPager.isOpen with
    ⟨value, final, hOk, hOpen⟩
  unfold Reopening.onLog
  rw [run_focus, hOk]
  exact ⟨hOpen, hPager.size, hPager.there, hPager.bytes⟩

theorem append_holds (record : LogRecord Bytes) :
    Triple (HoldsPage pageSize pageId stored)
      (reopenEnv.append .update record.transactionId
        record.pageId record.beforeImage)
      (fun _ => HoldsPage pageSize pageId stored)
      (fun _ _ => False) := by
  refine (onLog_holds fun log hOpen => ?_).bind fun _ =>
    Triple.pure fun _ hPager => hPager
  exact ⟨_, _, WriteAheadLog.append_run hOpen _ _ _ _ _, hOpen⟩

theorem abort_holds (transactionId : Nat) :
    Triple (HoldsPage pageSize pageId stored)
      (reopenEnv.abort transactionId)
      (fun _ => HoldsPage pageSize pageId stored)
      (fun _ _ => False) := by
  refine (onLog_holds fun log hOpen => ?_).bind fun _ =>
    Triple.pure fun _ hPager => hPager
  exact ⟨_, _, WriteAheadLog.abort_run hOpen _, hOpen⟩

theorem flush_holds :
    Triple (HoldsPage pageSize pageId stored)
      reopenEnv.flush
      (fun _ => HoldsPage pageSize pageId stored)
      (fun _ _ => False) := by
  refine onLog_holds fun log hOpen => ?_
  refine ⟨_, _, WriteAheadLog.flush_run hOpen, ?_⟩
  unfold WriteAheadLog.flushed
  split
  · exact hOpen
  · exact hOpen

end Callbacks

--
-- The Passes over One Page
--

/- The images of these updates, and the before-images undo
   may restore, are whole pages. -/
def WholeImages
    (pageSize : Nat)
    (records : List (LogRecord Bytes)) : Prop :=
  ∀ record ∈ records, record.recordType = .update →
    record.afterImage.length = pageSize ∧
      (record.hasUndo → record.beforeImage.length = pageSize)

/- The updates of one page, as stamped writes. -/
def writesTo
    (pageId : PageId)
    (records : List (LogRecord Bytes)) :
    List (Versioned.Write PageId Bytes) :=
  (redoWrites records).filter (·.key = pageId)

theorem writesTo_cons
    (pageId : PageId)
    (record : LogRecord Bytes)
    (records : List (LogRecord Bytes)) :
    writesTo pageId (record :: records) =
      if record.recordType = .update ∧
          record.pageId = pageId then
        record.toWrite :: writesTo pageId records
      else writesTo pageId records := by
  unfold writesTo
  rw [redoWrites_cons]
  by_cases hUpdate : record.recordType = .update
  · by_cases hSame : record.pageId = pageId
    · simp [hUpdate, hSame, LogRecord.toWrite]
    · simp [hUpdate, hSame, LogRecord.toWrite]
  · simp [hUpdate]

section Passes

variable {pageSize : Nat} {pageId : PageId}

/-
  Redo replays on a page the updates of that page, by the
  LSN in its bytes.
-/
theorem redo_holds
    {records : List (LogRecord Bytes)}
    (hWhole : WholeImages pageSize records)
    (report : RecoveryReport)
    (store : Versioned.Store PageId Bytes) :
    Triple (HoldsPage pageSize pageId (store pageId))
      (redo reopenEnv records report)
      (fun _ => HoldsPage pageSize pageId
        (Versioned.replay (diskLsn pageId)
          (writesTo pageId records) store pageId))
      (fun _ _ => False) := by
  induction records generalizing report store with
  | nil => exact Triple.pure fun _ hPager => hPager
  | cons record records ih =>
    have hRest := ih fun later hLater =>
      hWhole later (.tail _ hLater)
    have hWrites := writesTo_cons pageId record records
    unfold redo
    refine Triple.ite (fun hOther => ?_) fun hUpdate => ?_
    · rw [if_neg fun h => hOther h.1] at hWrites
      rw [hWrites]
      exact hRest report store
    have hIsUpdate := not_not.mp hUpdate
    have hImage :=
      (hWhole record (.head _) hIsUpdate).1
    refine pageLsnOnDisk_holds.bind fun lsn => ?_
    by_cases hSame : record.pageId = pageId
    · rw [if_pos ⟨hIsUpdate, hSame⟩] at hWrites
      rw [hWrites, Versioned.replay_cons]
      refine Triple.assume fun hLsn => ?_
      rcases hLsn hSame with ⟨bytes, hStored, rfl⟩
      have hBehind :
          Versioned.Behind (diskLsn pageId)
              (store record.toWrite.key)
              record.toWrite.stamp ↔
            diskLsn pageId bytes < record.lsn := by
        have hKey : store record.toWrite.key =
            some bytes := (congrArg store hSame).trans hStored
        rw [hKey]
        simp [Versioned.Behind, LogRecord.toWrite]
      unfold Versioned.replayOne
      refine Triple.ite (fun hPast => ?_) fun hNewer => ?_
      · have hHigh := Int.ofNat_le.mp hPast
        rw [if_neg (mt hBehind.mp (Nat.not_lt.mpr hHigh))]
        exact hRest _ store
      · have hLow := Nat.not_le.mp
          (mt Int.ofNat_le.mpr hNewer)
        rw [if_pos (hBehind.mpr hLow)]
        refine (applyRecoveredPage_holds hImage).bind
          fun _ => ?_
        rw [if_pos hSame]
        have hNext := hRest
          { report with
            pagesRedone := report.pagesRedone + 1 }
          (Function.update store record.toWrite.key
            (some record.toWrite.value))
        rw [← hSame] at hNext ⊢
        rwa [show Function.update store record.toWrite.key
          (some record.toWrite.value) record.pageId =
            some record.afterImage from
          Function.update_self _ _ _] at hNext
    · rw [if_neg fun h => hSame h.2] at hWrites
      rw [hWrites]
      refine Triple.assume fun _ => ?_
      refine Triple.ite (fun _ => hRest _ store)
        fun _ => ?_
      refine (applyRecoveredPage_holds hImage).bind
        fun _ => ?_
      rw [if_neg hSame]
      exact hRest _ store

/- The page after the walk: the oldest before-image of a
   loser, or what redo left. -/
theorem undoRecords_holds
    {losers : List Nat}
    {todo : List (LogRecord Bytes)}
    (hWhole : WholeImages pageSize todo)
    (report : RecoveryReport)
    (stored : Option Bytes) :
    Triple (HoldsPage pageSize pageId stored)
      (undoRecords reopenEnv losers todo report)
      (fun _ => HoldsPage pageSize pageId
        ((restoreImage losers todo.reverse pageId).or
          stored))
      (fun _ _ => False) := by
  induction todo generalizing report stored with
  | nil => exact Triple.pure fun _ hPager => hPager
  | cons record rest ih =>
    have hRest := ih fun later hLater =>
      hWhole later (.tail _ hLater)
    rw [List.reverse_cons, restoreImage_append_singleton,
      Option.or_assoc]
    unfold undoRecords
    refine Triple.ite (fun hNeeds => ?_) fun hPassed => ?_
    · have hUndone := hNeeds
      simp only [needsUndo, decide_eq_true_eq] at hUndone
      have hImage := (hWhole record (.head _)
        hUndone.1).2 hUndone.2.2
      refine (append_holds record).bind fun _ => ?_
      refine (applyRecoveredPage_holds hImage).bind
        fun _ => ?_
      have hNext := hRest
        { report with
          pagesUndone := report.pagesUndone + 1 }
        (if record.pageId = pageId then
          some record.beforeImage else stored)
      by_cases hSame : record.pageId = pageId
      · simpa [hNeeds, hSame] using hNext
      · simpa [hSame] using hNext
    · simpa [hPassed] using hRest report stored

theorem abortAll_holds
    (ids : List Nat)
    (stored : Option Bytes) :
    Triple (HoldsPage pageSize pageId stored)
      (abortAll reopenEnv ids)
      (fun _ => HoldsPage pageSize pageId stored)
      (fun _ _ => False) := by
  induction ids with
  | nil => exact Triple.pure fun _ hPager => hPager
  | cons transactionId ids ih =>
    unfold abortAll
    exact (abort_holds transactionId).bind fun _ => ih

theorem undo_holds
    {records : List (LogRecord Bytes)}
    (hWhole : WholeImages pageSize records)
    (losers : List Nat)
    (report : RecoveryReport)
    (stored : Option Bytes) :
    Triple (HoldsPage pageSize pageId stored)
      (undo reopenEnv records losers report)
      (fun _ => HoldsPage pageSize pageId
        ((restoreImage losers records pageId).or stored))
      (fun _ _ => False) := by
  unfold undo
  refine Triple.ite (fun hNone => ?_) fun _ => ?_
  · have hEmpty : restoreImage losers records pageId =
        none := by
      unfold restoreImage
      rw [hNone, undoSaves_no_losers]
      rfl
    rw [hEmpty]
    exact Triple.pure fun _ hPager => hPager
  · have hTodo : WholeImages pageSize records.reverse :=
      fun record hMem =>
        hWhole record (List.mem_reverse.mp hMem)
    have hRestored := @undoRecords_holds pageSize pageId
      losers _ hTodo report stored
    rw [List.reverse_reverse] at hRestored
    refine hRestored.bind fun _ => ?_
    refine (abortAll_holds _ _).bind fun _ => ?_
    refine flush_holds.bind fun _ => ?_
    exact Triple.pure fun _ hPager => hPager

/- Redo, then undo, over a page that holds these bytes. -/
theorem passes_hold
    {records : List (LogRecord Bytes)}
    (hWhole : WholeImages pageSize records)
    (report : RecoveryReport)
    (bytes : Bytes) :
    Triple (HoldsPage pageSize pageId (some bytes))
      (do
        let report ← redo reopenEnv records report
        let report ← undo reopenEnv records
          (analyse records).losers report
        return { report with
          winners := sortedIds (analyse records).finished
          losers := sortedIds (analyse records).losers
        } : ReopenM RecoveryReport)
      (fun _ => HoldsPage pageSize pageId
        ((restoreImage (analyse records).losers records
          pageId).or
          (Versioned.replay (diskLsn pageId)
            (writesTo pageId records) (fun _ => some bytes)
            pageId)))
      (fun _ _ => False) := by
  have hRedone := @redo_holds pageSize pageId records hWhole
    report fun _ => some bytes
  refine hRedone.bind fun redone => ?_
  refine (undo_holds hWhole _ redone _).bind fun _ => ?_
  exact Triple.pure fun _ hPager => hPager

/-
  What recovery leaves of one page: the oldest before-image
  of a loser, or the replay of the page's updates over the
  bytes the crash left.
-/
theorem recover_page
    {pager : Reopening}
    (hOpen : pager.wal.log.closed = false)
    (hThere :
      (pageId + 1) * pager.pageSize ≤ pager.data.length)
    (hWhole :
      WholeImages pager.pageSize pager.wal.readAll.1) :
    ∃ report final,
      (recover reopenEnv).run pager = .ok report final ∧
        some (final.pageAt pageId) =
          (restoreImage
            (analyse pager.wal.readAll.1).losers
            pager.wal.readAll.1 pageId).or
            (Versioned.replay (diskLsn pageId)
              (writesTo pageId pager.wal.readAll.1)
              (fun _ => some (pager.pageAt pageId))
              pageId) := by
  have hRead := reopenEnv_readAll_run pager
  generalize pager.wal.readAll = log at hRead hWhole ⊢
  rcases log with ⟨records, torn⟩
  have hHolds : HoldsPage pager.pageSize pageId
      (some (pager.pageAt pageId)) pager :=
    ⟨hOpen, rfl, hThere, rfl⟩
  by_cases hEmpty : records = []
  · subst hEmpty
    rcases recover_of_empty hRead with ⟨report, hRun, -, -⟩
    exact ⟨report, pager, hRun, rfl⟩
  · have hPasses := @passes_hold pager.pageSize pageId records
      hWhole
      { RecoveryReport.initial with
        truncatedTail := torn
        recordsScanned := records.length
        ran := true
        highestXid := (analyse records).highestXid
        highestLsn := (analyse records).highestLsn }
      (pager.pageAt pageId) pager hHolds
    unfold recover
    rw [EStateM.run_bind, hRead]
    simp only [if_neg hEmpty]
    split at hPasses
    · rename_i report final hRun
      exact ⟨report, final, hRun, hPasses.bytes⟩
    · exact hPasses.elim

end Passes

--
-- Torn Pages
--

section Torn

variable {pager : Reopening} {pageId : PageId}

/-
  No update of the page carries an image stamped above its
  own record.
-/
def StampedAt
    (pageId : PageId)
    (records : List (LogRecord Bytes)) : Prop :=
  ∀ record ∈ records, record.recordType = .update →
    record.pageId = pageId →
      diskLsn pageId record.afterImage ≤ record.lsn

theorem writesTo_ordered
    {start : Nat}
    {records : List (LogRecord Bytes)}
    (hRun : Contiguous start records)
    (hStamped : StampedAt pageId records) :
    Versioned.Ordered (diskLsn pageId)
      (writesTo pageId records) where
  increasing :=
    List.Pairwise.filter _
      (List.pairwise_map.mpr (hRun.increasing.filter _))
  version_le := by
    intro write hMem
    rcases List.mem_filter.mp hMem with ⟨hWrite, hKey⟩
    rcases mem_redoWrites.mp hWrite with
      ⟨record, hRecord, hUpdate, rfl⟩
    exact hStamped record hRecord hUpdate
      (of_decide_eq_true hKey)

theorem lastTo_writesTo (records : List (LogRecord Bytes)) :
    Versioned.lastTo pageId (writesTo pageId records) =
      Versioned.lastTo pageId (redoWrites records) := by
  unfold Versioned.lastTo writesTo
  rw [← List.filter_reverse, List.find?_filter]
  simp

/- Recovery leaves the page as its last update had it, or
   as the undo of a loser put it back. -/
def Repaired
    (records : List (LogRecord Bytes))
    (last : Versioned.Write PageId Bytes)
    (final : Reopening) : Prop :=
  final.pageAt last.key =
    (restoreImage (analyse records).losers records
      last.key).getD last.value

/-
  A torn page with an update in the log is repaired where
  undo restores it, or where the LSN in the torn bytes is
  below that of its last update, and nowhere else.
-/
theorem torn_page_repaired_iff
    {last : Versioned.Write PageId Bytes}
    (hOpen : pager.wal.log.closed = false)
    (hThere :
      (pageId + 1) * pager.pageSize ≤ pager.data.length)
    (hWhole :
      WholeImages pager.pageSize pager.wal.readAll.1)
    (hStamped : StampedAt pageId pager.wal.readAll.1)
    (hLast : Versioned.lastTo pageId
      (redoWrites pager.wal.readAll.1) = some last)
    (hImage : Intact pageId last.value)
    (hTorn : ¬ Intact pageId (pager.pageAt pageId)) :
    ∃ report final,
      (recover reopenEnv).run pager = .ok report final ∧
        (Repaired pager.wal.readAll.1 last final ↔
          (restoreImage (analyse pager.wal.readAll.1).losers
              pager.wal.readAll.1 pageId).isSome ∨
            diskLsn pageId (pager.pageAt pageId) <
              last.stamp) := by
  have hKey := (Versioned.mem_of_lastTo hLast).2
  subst hKey
  rcases recover_page hOpen hThere hWhole with
    ⟨report, final, hRun, hPage⟩
  refine ⟨report, final, hRun, ?_⟩
  unfold Repaired
  have hOrdered : Versioned.Ordered (diskLsn last.key)
      (writesTo last.key pager.wal.readAll.1) :=
    writesTo_ordered (readAllBytes_contiguous _ _) hStamped
  rw [Versioned.replay_apply hOrdered, lastTo_writesTo,
    hLast] at hPage
  cases hRestored : restoreImage
      (analyse pager.wal.readAll.1).losers
      pager.wal.readAll.1 last.key with
  | some before =>
    rw [hRestored] at hPage
    simpa using hPage
  | none =>
    rw [hRestored] at hPage
    simp only [Option.none_or] at hPage
    have hBehind :
        Versioned.Behind (diskLsn last.key)
            (some (pager.pageAt last.key)) last.stamp ↔
          diskLsn last.key (pager.pageAt last.key) <
            last.stamp := by
      simp [Versioned.Behind]
    simp only [Option.getD_none, Option.isSome_none,
      Bool.false_eq_true, false_or]
    by_cases hOlder :
        diskLsn last.key (pager.pageAt last.key) < last.stamp
    · rw [if_pos (hBehind.mpr hOlder)] at hPage
      exact iff_of_true (Option.some.inj hPage) hOlder
    · rw [if_neg (mt hBehind.mp hOlder)] at hPage
      -- The torn bytes stay, and they are no whole image.
      have hKept : final.pageAt last.key ≠ last.value := by
        rw [Option.some.inj hPage]
        intro hSame
        exact hTorn (hSame ▸ hImage)
      exact iff_of_false hKept hOlder

end Torn

/- A page body under its checksum, as `stamp_lsn` writes. -/
def sealed (covered : Bytes) : Bytes :=
  encode 4 (crc32 covered) ++ covered

/- An empty heap page of 256 bytes, with LSN 40. -/
def olderImage : Bytes :=
  sealed (pack [(8, 40), (1, 2), (1, 0), (2, 0), (2, 24),
    (2, 256), (4, 0)] ++ List.replicate 232 0)

/- The page with a record of four bytes, with LSN 100. -/
def newerImage : Bytes :=
  sealed (pack [(8, 100), (1, 2), (1, 0), (2, 1), (2, 28),
    (2, 252), (4, 0), (2, 252), (2, 4)] ++
      List.replicate 224 0 ++ [7, 7, 7, 7])

/- The first half of one image, the second of another. -/
def halves (front back : Bytes) : Bytes :=
  front.take 128 ++ back.drop 128

/- The update that logged the newer image, committed. -/
def pageRecords : List (LogRecord Bytes) :=
  [⟨100, 0, 1, .update, 1, olderImage, newerImage⟩,
    ⟨656, 100, 1, .commit, 0, [], []⟩]

/- The files a crash left, with these bytes on page 1. -/
def crashed (page : Bytes) : Reopening where
  path := "torn.db"
  data := List.replicate 256 0 ++ page
  wal := LogFile.openAt (encodeAll pageRecords) 100
  metaPage := MetaPage.create 256
  pageSize := 256
  verifyChecksums := true

theorem pageRecords_encodable :
    ∀ record ∈ pageRecords, record.Encodable := by
  intro record hMem
  unfold pageRecords at hMem
  rcases List.mem_cons.mp hMem with rfl | hCommit
  · exact ⟨by decide, by decide, by decide, by decide,
      by decide +kernel, by decide +kernel⟩
  · rcases List.mem_singleton.mp hCommit with rfl
    exact ⟨by decide, by decide, by decide, by decide,
      by decide, by decide⟩

theorem crashed_readAll (page : Bytes) :
    (crashed page).wal.readAll = (pageRecords, false) := by
  have hRun : Contiguous 100 pageRecords :=
    ⟨rfl, by decide +kernel, trivial⟩
  have hRaw : (crashed page).wal.raw =
      encodeAll pageRecords := List.append_nil _
  unfold LogFile.readAll
  rw [hRaw]
  exact readAllBytes_encodeAll hRun pageRecords_encodable

theorem pageRecords_whole :
    WholeImages 256 pageRecords := by
  unfold WholeImages
  decide +kernel

theorem pageRecords_stamped :
    StampedAt 1 pageRecords := by
  unfold StampedAt
  decide +kernel

/- The old header is still on the page: redo repairs it. -/
theorem torn_page_repaired :
    ∃ report final,
      (recover reopenEnv).run
          (crashed (halves olderImage newerImage)) =
        .ok report final ∧
      Repaired pageRecords ⟨100, 1, newerImage⟩ final := by
  have hRead := crashed_readAll
    (halves olderImage newerImage)
  have hRepaired := @torn_page_repaired_iff
    (crashed (halves olderImage newerImage)) 1
    ⟨100, 1, newerImage⟩ rfl (by decide +kernel)
  rw [hRead] at hRepaired
  rcases hRepaired pageRecords_whole pageRecords_stamped rfl
      (by decide +kernel) (by decide +kernel) with
    ⟨report, final, hRun, hIff⟩
  exact ⟨report, final, hRun,
    hIff.mpr (.inr (by decide +kernel))⟩

/-
  The new header is on the page without the new record: the
  checksum is wrong, and recovery leaves it so.
-/
theorem torn_page_kept :
    Intact 1 olderImage ∧ Intact 1 newerImage ∧
      ¬ Intact 1 (halves newerImage olderImage) ∧
      Versioned.lastTo 1 (redoWrites pageRecords) =
        some ⟨100, 1, newerImage⟩ ∧
      ∃ report final,
        (recover reopenEnv).run
            (crashed (halves newerImage olderImage)) =
          .ok report final ∧
        ¬ Repaired pageRecords ⟨100, 1, newerImage⟩ final ∧
        final.pageAt 1 = halves newerImage olderImage := by
  refine ⟨by decide +kernel, by decide +kernel,
    by decide +kernel, rfl, ?_⟩
  have hPage := @recover_page 1
    (crashed (halves newerImage olderImage)) rfl
    (by decide +kernel)
  rw [crashed_readAll] at hPage
  rcases hPage pageRecords_whole with
    ⟨report, final, hRun, hLeft⟩
  have hKept : some (final.pageAt 1) =
      some (halves newerImage olderImage) := by
    rw [hLeft]
    decide +kernel
  have hBytes := Option.some.inj hKept
  refine ⟨report, final, hRun, ?_, hBytes⟩
  unfold Repaired
  rw [hBytes]
  decide +kernel

end Storage

end ChenDB
