import ChenDB.Wal.Stream

/-
  An image and the record that describes it: what the log
  goes on saying about an image that carries one of its
  LSNs, whatever is appended afterwards.
-/

--
-- Records and Images
--

namespace ChenDB

namespace Wal

namespace WriteAheadLog

variable {ι : Type} [ByteImage ι]

/- The records the log hands back when it is read. -/
def readable (log : WriteAheadLog ι) :
    List (LogRecord ι) :=
  (scan log.baseLsn 0 log.file).1

/- Some record, staged or written, holds the image. -/
def Described
    (log : WriteAheadLog ι)
    (lsn : Nat)
    (pageId : PageId)
    (image : ι) : Prop :=
  ∃ record ∈ log.file ++ log.buffer,
    record.lsn = lsn ∧ record.pageId = pageId ∧
      record.afterImage = image

/-
  The LSN has been handed out, and whatever record carries
  it holds the image.
-/
structure Traced
    (log : WriteAheadLog ι)
    (lsn : Nat)
    (pageId : PageId)
    (image : ι) : Prop where
  known : lsn < log.flushedLsn ∨
    ∃ record ∈ log.buffer, record.lsn = lsn
  unique : ∀ record ∈ log.readable ++ log.buffer,
    record.lsn = lsn →
    record.pageId = pageId ∧ record.afterImage = image

/- The log has flushed past every record it hands back. -/
def ReadBelow (log : WriteAheadLog ι) : Prop :=
  ∀ record ∈ log.readable, record.lsn < log.flushedLsn

variable {log : WriteAheadLog ι}
variable {lsn : Nat} {pageId : PageId} {image : ι}

/- What is read is the file up to some record. -/
theorem scan_isPrefix
    (base offset : Nat)
    (file : List (LogRecord ι)) :
    (scan base offset file).1 <+: file := by
  induction file generalizing offset with
  | nil => exact List.prefix_refl []
  | cons record rest ih =>
    unfold scan
    split
    · exact (List.prefix_cons_inj record).mpr
        (ih (offset + record.size))
    · exact List.nil_prefix

theorem totalSize_scan_le
    (base offset : Nat)
    (file : List (LogRecord ι)) :
    totalSize (scan base offset file).1 ≤
      totalSize file := by
  rcases scan_isPrefix base offset file with ⟨unread, hFile⟩
  have hSize := congrArg totalSize hFile
  rw [totalSize_append] at hSize
  omega

theorem openFile_readBelow
    (file : List (LogRecord ι))
    (baseLsn : Nat) :
    (openFile file baseLsn).ReadBelow := by
  intro record hRecord
  have hRun := scan_contiguous baseLsn 0 file
  have hLess := hRun.lsn_lt hRecord
  have hSize := totalSize_scan_le baseLsn 0 file
  simp only [openFile]
  omega

variable {record : LogRecord ι}

theorem mem_scan_append
    {base offset : Nat}
    {file later : List (LogRecord ι)}
    (hRecord :
      record ∈ (scan base offset (file ++ later)).1) :
    record ∈ (scan base offset file).1 ∨
      record ∈ later := by
  induction file generalizing offset with
  | nil =>
    exact .inr ((scan_isPrefix base offset later).subset
      hRecord)
  | cons first rest ih =>
    rw [List.cons_append] at hRecord
    unfold scan at hRecord ⊢
    split at hRecord
    · rename_i hPlaced
      rw [if_pos hPlaced]
      rcases List.mem_cons.mp hRecord with rfl | hLater
      · simp
      · rcases ih hLater with hEarly | hLate
        · exact .inl (.tail _ hEarly)
        · exact .inr hLate
    · simp at hRecord

theorem mem_readable_flushed
    (hRecord : record ∈ log.flushed.readable) :
    record ∈ log.readable ∨ record ∈ log.buffer := by
  unfold readable at hRecord ⊢
  rw [flushed_baseLsn, flushed_file] at hRecord
  exact mem_scan_append hRecord

/- A record that is staged has yet to be flushed. -/
theorem Staged.flushedLsn_le
    (hStaged : log.Staged)
    (hRecord : record ∈ log.buffer) :
    log.flushedLsn ≤ record.lsn :=
  (hStaged.run.mem_bounds hRecord).1

theorem Traced.lsn_lt
    (hStaged : log.Staged)
    (hTraced : log.Traced lsn pageId image) :
    lsn < log.nextLsn := by
  rw [hStaged.nextLsn_eq]
  rcases hTraced.known with hFlushed | ⟨record, hMem, rfl⟩
  · omega
  · exact hStaged.run.lsn_lt hMem

--
-- Flushing
--

theorem traced_flushed
    (hStaged : log.Staged)
    (hTraced : log.Traced lsn pageId image) :
    log.flushed.Traced lsn pageId image where
  known := by
    have hLess := hTraced.lsn_lt hStaged
    rw [hStaged.nextLsn_eq] at hLess
    refine .inl ?_
    rw [flushed_flushedLsn]
    exact hLess
  unique := by
    intro record hRecord hLsn
    refine hTraced.unique record ?_ hLsn
    rw [flushed_buffer, List.append_nil] at hRecord
    exact List.mem_append.mpr
      (mem_readable_flushed hRecord)

theorem described_flushed
    (hDescribed : log.Described lsn pageId image) :
    log.flushed.Described lsn pageId image := by
  rcases hDescribed with ⟨record, hRecord, hSame⟩
  refine ⟨record, ?_, hSame⟩
  rw [flushed_file, flushed_buffer, List.append_nil]
  exact hRecord

theorem readBelow_flushed
    (hStaged : log.Staged)
    (hRead : log.ReadBelow) :
    log.flushed.ReadBelow := by
  intro record hRecord
  rw [flushed_flushedLsn]
  rcases mem_readable_flushed hRecord with hOld | hNew
  · have hLess := hRead record hOld
    omega
  · exact hStaged.run.lsn_lt hNew

theorem flushedLsn_le_flushed (log : WriteAheadLog ι) :
    log.flushedLsn ≤ log.flushed.flushedLsn := by
  rw [flushed_flushedLsn]
  omega

--
-- Staging
--

theorem traced_stage
    (hStaged : log.Staged)
    (hLsn : record.lsn = log.nextLsn)
    (hTraced : log.Traced lsn pageId image) :
    (log.stage record).Traced lsn pageId image where
  known := by
    rcases hTraced.known with hFlushed | ⟨held, hMem, hHeld⟩
    · exact .inl hFlushed
    · exact .inr
        ⟨held, List.mem_append_left _ hMem, hHeld⟩
  unique := by
    intro other hOther hSame
    have hLess := hTraced.lsn_lt hStaged
    rcases List.mem_append.mp hOther with hRead | hBuffer
    · exact hTraced.unique other
        (List.mem_append_left _ hRead) hSame
    · rcases List.mem_append.mp hBuffer with hOld | hNew
      · exact hTraced.unique other
          (List.mem_append_right _ hOld) hSame
      · rw [List.mem_singleton] at hNew
        rw [hNew] at hSame
        omega

theorem described_stage
    (hDescribed : log.Described lsn pageId image) :
    (log.stage record).Described lsn pageId image := by
  rcases hDescribed with ⟨held, hHeld, hSame⟩
  refine ⟨held, ?_, hSame⟩
  unfold stage
  simp only
  rw [← List.append_assoc]
  exact List.mem_append_left _ hHeld

--
-- Coalescing
--

section ReplaceTail

variable {tail record : LogRecord ι}

theorem lsn_lt_tail
    (hStaged : log.Staged)
    (hTail : tail ∈ log.bufferTail)
    {earlier : LogRecord ι}
    (hEarlier : earlier ∈ log.buffer.dropLast) :
    earlier.lsn < tail.lsn := by
  have hRun := hStaged.run
  rw [hStaged.buffer_eq hTail] at hRun
  have hIncreasing := hRun.increasing
  rw [List.pairwise_append] at hIncreasing
  exact hIncreasing.2.2 earlier hEarlier tail (by simp)

theorem tail_mem_buffer
    (hStaged : log.Staged)
    (hTail : tail ∈ log.bufferTail) :
    tail ∈ log.buffer :=
  List.mem_of_getLast? (hStaged.tail tail hTail)

/- An image that is not the replaced record's. -/
theorem traced_replaceTail
    (hStaged : log.Staged)
    (hTail : tail ∈ log.bufferTail)
    (hLsn : record.lsn = tail.lsn)
    (hOther : lsn ≠ tail.lsn)
    (hTraced : log.Traced lsn pageId image) :
    (log.replaceTail record).Traced lsn pageId image where
  known := by
    rcases hTraced.known with hFlushed | ⟨held, hMem, hHeld⟩
    · exact .inl hFlushed
    · refine .inr ⟨held, ?_, hHeld⟩
      rw [hStaged.buffer_eq hTail] at hMem
      rcases List.mem_append.mp hMem with hEarly | hLast
      · exact List.mem_append_left _ hEarly
      · rw [List.mem_singleton] at hLast
        rw [hLast] at hHeld
        exact absurd hHeld.symm hOther
  unique := by
    intro other hMem hSame
    rcases List.mem_append.mp hMem with hRead | hBuffer
    · exact hTraced.unique other
        (List.mem_append_left _ hRead) hSame
    · rcases List.mem_append.mp hBuffer with hEarly | hNew
      · exact hTraced.unique other
          (List.mem_append_right _
            ((List.dropLast_sublist _).mem hEarly)) hSame
      · rw [List.mem_singleton] at hNew
        rw [hNew, hLsn] at hSame
        exact absurd hSame.symm hOther

theorem described_replaceTail
    (hStaged : log.Staged)
    (hTail : tail ∈ log.bufferTail)
    (hOther : lsn ≠ tail.lsn)
    (hDescribed : log.Described lsn pageId image) :
    (log.replaceTail record).Described lsn pageId
      image := by
  rcases hDescribed with ⟨held, hHeld, hSame⟩
  refine ⟨held, ?_, hSame⟩
  rw [hStaged.buffer_eq hTail] at hHeld
  rcases List.mem_append.mp hHeld with hFile | hBuffer
  · exact List.mem_append_left _ hFile
  · rcases List.mem_append.mp hBuffer with hEarly | hLast
    · exact List.mem_append_right _
        (List.mem_append_left _ hEarly)
    · rw [List.mem_singleton] at hLast
      rw [hLast] at hSame
      exact absurd hSame.1.symm hOther

end ReplaceTail

--
-- Logging a Change
--

section Updated

variable (transactionId : Nat) (changed : PageId)
variable (before : ι) (afterFor : Nat → ι)

omit [ByteImage ι] in
theorem updateRecord_pageId :
    (log.updateRecord transactionId changed before
      afterFor).pageId = changed := by
  unfold updateRecord
  split <;> rfl

omit [ByteImage ι] in
theorem updateRecord_afterImage :
    (log.updateRecord transactionId changed before
      afterFor).afterImage =
      afterFor (log.updateRecord transactionId changed
        before afterFor).lsn := by
  unfold updateRecord
  split <;> rfl

/- A change is logged past everything that was flushed. -/
theorem flushedLsn_le_updateRecord
    (hStaged : log.Staged) :
    log.flushedLsn ≤
      (log.updateRecord transactionId changed before
        afterFor).lsn := by
  unfold updateRecord
  cases hTail : log.superseded transactionId changed with
  | none =>
    simp only [nextRecord, nextLsn]
    omega
  | some tail =>
    have hLast := (hStaged.superseded hTail).1
    have hStart := hStaged.flushedLsn_le
      (tail_mem_buffer hStaged hLast)
    exact hStart

/- The image of another page, or one flushed already. -/
theorem traced_updated
    (hStaged : log.Staged)
    (hOther : pageId ≠ changed ∨ lsn < log.flushedLsn)
    (hTraced : log.Traced lsn pageId image) :
    (log.updated transactionId changed before
      afterFor).Traced lsn pageId image ∧
    (log.Described lsn pageId image →
      (log.updated transactionId changed before
        afterFor).Described lsn pageId image) := by
  unfold updated updateRecord
  cases hTail : log.superseded transactionId changed with
  | none =>
    exact ⟨traced_stage hStaged rfl hTraced, described_stage⟩
  | some tail =>
    rcases hStaged.superseded hTail with ⟨hLast, _, _, hPage, _⟩
    have hMem := tail_mem_buffer hStaged hLast
    have hApart : lsn ≠ tail.lsn := by
      intro hSame
      rcases hOther with hPages | hFlushed
      · have hHeld := hTraced.unique tail
          (List.mem_append_right _ hMem) hSame.symm
        exact hPages (hHeld.1.symm.trans hPage)
      · have hStart := hStaged.flushedLsn_le hMem
        omega
    exact ⟨traced_replaceTail hStaged hLast rfl hApart
      hTraced, described_replaceTail hStaged hLast hApart⟩

/- The image that was just logged. -/
theorem updateRecord_traced
    (hStaged : log.Staged)
    (hRead : log.ReadBelow) :
    let record := log.updateRecord transactionId changed
      before afterFor
    (log.updated transactionId changed before
      afterFor).Traced record.lsn changed
        record.afterImage ∧
    (log.updated transactionId changed before
      afterFor).Described record.lsn changed
        record.afterImage := by
  intro record
  have hPage : record.pageId = changed :=
    updateRecord_pageId transactionId changed before afterFor
  have hFlushed : log.flushedLsn ≤ record.lsn :=
    flushedLsn_le_updateRecord transactionId changed before
      afterFor hStaged
  -- the buffer ends in the record, and no other has its LSN
  have hBuffer : ∃ earlier,
      (log.updated transactionId changed before
        afterFor).buffer = earlier ++ [record] ∧
      ∀ other ∈ earlier, other.lsn < record.lsn := by
    unfold updated
    revert record
    unfold updateRecord
    cases hTail : log.superseded transactionId changed with
    | none =>
      intro record _ _
      refine ⟨log.buffer, rfl, fun other hOther => ?_⟩
      have hLess := hStaged.run.lsn_lt hOther
      rw [← hStaged.nextLsn_eq] at hLess
      exact hLess
    | some tail =>
      intro record _ _
      refine ⟨log.buffer.dropLast, rfl,
        fun other hOther => ?_⟩
      exact lsn_lt_tail hStaged
        (hStaged.superseded hTail).1 hOther
  rcases hBuffer with ⟨earlier, hBuffer, hEarlier⟩
  have hMem : record ∈ (log.updated transactionId changed
      before afterFor).buffer := by
    rw [hBuffer]
    simp
  refine ⟨⟨.inr ⟨record, hMem, rfl⟩, ?_⟩,
    ⟨record, List.mem_append_right _ hMem, rfl, hPage, rfl⟩⟩
  intro other hOther hSame
  rcases List.mem_append.mp hOther with hOld | hNew
  · unfold readable at hOld
    rw [updated_baseLsn, updated_file] at hOld
    have hLess := hRead other hOld
    omega
  · rw [hBuffer] at hNew
    rcases List.mem_append.mp hNew with hEarly | hLast
    · have hLess := hEarlier other hEarly
      omega
    · rw [List.mem_singleton] at hLast
      rw [hLast]
      exact ⟨hPage, rfl⟩

end Updated

end WriteAheadLog

end Wal

end ChenDB
