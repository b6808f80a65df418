import ChenDB.Library.Versioned
import ChenDB.Wal.Recovery
import ChenDB.Wal.Stream

/-
  What the passes of recovery compute, as functions of the
  records: who finished, which writes redo replays and
  which before-images undo puts back.
-/

--
-- Winners and Losers
--

namespace ChenDB

namespace Wal

open Library

variable {ι : Type} [ByteImage ι]

/- A COMMIT or an ABORT. -/
def LogRecord.finishes (record : LogRecord ι) : Bool :=
  record.recordType = .commit ∨ record.recordType = .abort

/- The records hold something of this transaction. -/
def Seen
    (records : List (LogRecord ι))
    (transactionId : Nat) : Prop :=
  transactionId ≠ noTransaction ∧
    ∃ record ∈ records, record.transactionId = transactionId

/- The records hold its COMMIT or its ABORT. -/
def Finished
    (records : List (LogRecord ι))
    (transactionId : Nat) : Prop :=
  ∃ record ∈ records, record.finishes ∧
    record.transactionId = transactionId

section Analysis

omit [ByteImage ι]

theorem seen_append_singleton
    (records : List (LogRecord ι))
    (record : LogRecord ι)
    (t : Nat) :
    Seen (records ++ [record]) t ↔
      Seen records t ∨
        (t ≠ noTransaction ∧ record.transactionId = t) := by
  unfold Seen
  simp only [List.mem_append, List.mem_singleton]
  constructor
  · rintro ⟨hReal, found, hOld | rfl, hId⟩
    · exact .inl ⟨hReal, found, hOld, hId⟩
    · exact .inr ⟨hReal, hId⟩
  · rintro (⟨hReal, found, hOld, hId⟩ | ⟨hReal, hId⟩)
    · exact ⟨hReal, found, .inl hOld, hId⟩
    · exact ⟨hReal, record, .inr rfl, hId⟩

theorem finished_append
    (older newer : List (LogRecord ι))
    (t : Nat) :
    Finished (older ++ newer) t ↔
      Finished older t ∨ Finished newer t := by
  unfold Finished
  simp only [List.mem_append]
  constructor
  · rintro ⟨found, hOld | hNew, hRest⟩
    · exact .inl ⟨found, hOld, hRest⟩
    · exact .inr ⟨found, hNew, hRest⟩
  · rintro (⟨found, hOld, hRest⟩ | ⟨found, hNew, hRest⟩)
    · exact ⟨found, .inl hOld, hRest⟩
    · exact ⟨found, .inr hNew, hRest⟩

theorem finished_singleton
    (record : LogRecord ι)
    (t : Nat) :
    Finished [record] t ↔
      record.finishes ∧ record.transactionId = t := by
  simp [Finished]

end Analysis

theorem analyse_append_singleton
    (records : List (LogRecord ι))
    (record : LogRecord ι) :
    analyse (records ++ [record]) =
      analyseRecord (analyse records) record := by
  unfold analyse
  rw [List.foldl_append]
  rfl

theorem mem_analyse_seen
    (records : List (LogRecord ι))
    (t : Nat) :
    t ∈ (analyse records).seen ↔ Seen records t := by
  induction records using List.reverseRecOn with
  | nil => simp [analyse, Seen]
  | append_singleton records record ih =>
    rw [analyse_append_singleton, seen_append_singleton, ← ih]
    unfold analyseRecord
    by_cases hReal :
        record.transactionId = noTransaction
    · simp only [hReal, ne_eq, not_true, if_false]
      constructor
      · exact .inl
      · rintro (hOld | ⟨hNe, hEq⟩)
        · exact hOld
        · exact absurd hEq.symm hNe
    · simp only [ne_eq, hReal, not_false_iff, if_true,
        List.mem_insert_iff]
      constructor
      · rintro (rfl | hOld)
        · exact .inr ⟨hReal, rfl⟩
        · exact .inl hOld
      · rintro (hOld | ⟨-, rfl⟩)
        · exact .inr hOld
        · exact .inl rfl

theorem mem_analyse_finished
    (records : List (LogRecord ι))
    (t : Nat) :
    t ∈ (analyse records).finished ↔
      Finished records t := by
  induction records using List.reverseRecOn with
  | nil => simp [analyse, Finished]
  | append_singleton records record ih =>
    rw [analyse_append_singleton, finished_append,
      finished_singleton, ← ih]
    unfold analyseRecord LogRecord.finishes
    by_cases hEnds :
        record.recordType = .commit ∨ record.recordType = .abort
    · simp only [hEnds, if_true, List.mem_insert_iff,
        decide_true, true_and]
      rw [eq_comm, or_comm]
    · simp [hEnds]

/- A loser has left records and no COMMIT or ABORT. -/
theorem mem_losers_iff
    (records : List (LogRecord ι))
    (t : Nat) :
    t ∈ (analyse records).losers ↔
      Seen records t ∧ ¬ Finished records t := by
  unfold Analysis.losers
  simp [mem_analyse_seen, mem_analyse_finished]

/- The analysis counts a transaction once. -/
theorem losers_nodup (records : List (LogRecord ι)) :
    (analyse records).losers.Nodup := by
  have hSeen : (analyse records).seen.Nodup := by
    induction records using List.reverseRecOn with
    | nil => simp [analyse]
    | append_singleton records record ih =>
      rw [analyse_append_singleton]
      unfold analyseRecord
      split
      · exact ih.insert
      · exact ih
  exact hSeen.filter _

theorem mem_sortedIds
    (ids : List Nat)
    (t : Nat) :
    t ∈ sortedIds ids ↔ t ∈ ids := by
  unfold sortedIds
  exact List.mem_insertionSort (· ≤ ·)

variable {records : List (LogRecord ι)}

/- No id of the log is above the highest one. -/
theorem transactionId_le_highestXid
    {record : LogRecord ι}
    (hMem : record ∈ records) :
    record.transactionId ≤
      (analyse records).highestXid := by
  induction records using List.reverseRecOn with
  | nil => cases hMem
  | append_singleton records newest ih =>
    rw [analyse_append_singleton]
    simp only [analyseRecord]
    rcases List.mem_append.mp hMem with hOld | hNew
    · have hBound := ih hOld
      split
      · exact hBound.trans (Nat.le_max_left _ _)
      · exact hBound
    · rw [List.mem_singleton.mp hNew]
      by_cases hReal :
          newest.transactionId = noTransaction
      · rw [hReal]
        exact Nat.zero_le _
      · simp only [ne_eq, hReal, not_false_iff, if_true]
        exact Nat.le_max_right _ _

--
-- The Writes Redo Replays
--

/- An update as a stamped write of its page. -/
def LogRecord.toWrite
    (record : LogRecord ι) :
    Versioned.Write PageId ι where
  stamp := record.lsn
  key := record.pageId
  value := record.afterImage

/- The updates of a log, as stamped writes. -/
def redoWrites
    (records : List (LogRecord ι)) :
    List (Versioned.Write PageId ι) :=
  (records.filter (·.recordType = .update)).map
    LogRecord.toWrite

section RedoWrites

omit [ByteImage ι]

theorem redoWrites_cons
    (record : LogRecord ι)
    (records : List (LogRecord ι)) :
    redoWrites (record :: records) =
      if record.recordType = .update then
        record.toWrite :: redoWrites records
      else redoWrites records := by
  by_cases hUpdate : record.recordType = .update
  · simp [redoWrites, hUpdate]
  · simp [redoWrites, hUpdate]

theorem redoWrites_append
    (older newer : List (LogRecord ι)) :
    redoWrites (older ++ newer) =
      redoWrites older ++ redoWrites newer := by
  simp [redoWrites]

theorem mem_redoWrites
    {records : List (LogRecord ι)}
    {write : Versioned.Write PageId ι} :
    write ∈ redoWrites records ↔
      ∃ record ∈ records, record.recordType = .update ∧
        record.toWrite = write := by
  simp [redoWrites, and_assoc]

end RedoWrites

/-
  No after-image is stamped above its record: an update
  carries its own LSN, a restore the LSN it had before.
-/
def Stamped
    (lsnOf : ι → Nat)
    (records : List (LogRecord ι)) : Prop :=
  ∀ record ∈ records, record.recordType = .update →
    lsnOf record.afterImage ≤ record.lsn

theorem redoWrites_ordered
    {lsnOf : ι → Nat}
    {start : Nat}
    (hRun : Contiguous start records)
    (hStamped : Stamped lsnOf records) :
    Versioned.Ordered lsnOf (redoWrites records) where
  increasing := by
    refine List.pairwise_map.mpr ?_
    exact hRun.increasing.filter _
  version_le := by
    intro write hMem
    rcases mem_redoWrites.mp hMem with
      ⟨record, hRecord, hUpdate, rfl⟩
    exact hStamped record hRecord hUpdate

--
-- The Images Undo Restores
--

/- The images undo restores, oldest record first. -/
def undoSaves
    (losers : List Nat)
    (records : List (LogRecord ι)) :
    List (PageId × ι) :=
  (records.filter (needsUndo losers)).map fun record =>
    (record.pageId, record.beforeImage)

/- The image undo leaves on a page, if it restores it. -/
def restoreImage
    (losers : List Nat)
    (records : List (LogRecord ι))
    (pageId : PageId) : Option ι :=
  (undoSaves losers records).lookup pageId

theorem undoSaves_append
    (losers : List Nat)
    (older newer : List (LogRecord ι)) :
    undoSaves losers (older ++ newer) =
      undoSaves losers older ++
        undoSaves losers newer := by
  simp [undoSaves]

/- A newer record only matters where no older one saved. -/
theorem restoreImage_append_singleton
    (losers : List Nat)
    (records : List (LogRecord ι))
    (record : LogRecord ι)
    (pageId : PageId) :
    restoreImage losers (records ++ [record]) pageId =
      (restoreImage losers records pageId).or
        (if needsUndo losers record ∧
            record.pageId = pageId then
          some record.beforeImage
        else none) := by
  unfold restoreImage
  rw [undoSaves_append, List.lookup_append]
  congr 1
  by_cases hNeeds : needsUndo losers record
  · by_cases hPage : record.pageId = pageId
    · subst hPage
      simp [undoSaves, hNeeds]
    · have hBeq : (pageId == record.pageId) = false := by
        simpa using Ne.symm hPage
      simp [undoSaves, hNeeds, hPage, List.lookup_cons, hBeq]
  · simp [undoSaves, hNeeds]

variable {losers : List Nat}

/- Undo looks at the set of losers, not at their order. -/
theorem undoSaves_congr
    {losers' : List Nat}
    (hSame : ∀ t, t ∈ losers ↔ t ∈ losers')
    (records : List (LogRecord ι)) :
    undoSaves losers records =
      undoSaves losers' records := by
  unfold undoSaves needsUndo
  simp only [hSame]

theorem undoSaves_no_losers
    (records : List (LogRecord ι)) :
    undoSaves [] records = [] := by
  unfold undoSaves
  rw [List.map_eq_nil_iff, List.filter_eq_nil_iff]
  intro record _ hNeeds
  simp [needsUndo] at hNeeds

/- A page no record names has no image to restore. -/
theorem restoreImage_of_unnamed
    (losers : List Nat)
    {pageId : PageId}
    (hOther : ∀ record ∈ records, record.pageId ≠ pageId) :
    restoreImage losers records pageId = none := by
  unfold restoreImage
  rw [List.lookup_eq_none_iff]
  intro save hMem
  rcases List.mem_map.mp hMem with ⟨record, hRecord, rfl⟩
  have hIn := (List.mem_filter.mp hRecord).1
  simpa using (hOther record hIn).symm

/- Records without a before-image leave nothing to undo. -/
theorem undoSaves_of_redo_only
    (hNone : ∀ record ∈ records, record.hasUndo = false) :
    undoSaves losers records = [] := by
  unfold undoSaves
  rw [List.map_eq_nil_iff, List.filter_eq_nil_iff]
  intro record hMem hNeeds
  simp [needsUndo, hNone record hMem] at hNeeds

end Wal

end ChenDB
