import ChenDB.Wal.RecoveryRun

/-
  Logs of transactions that ran one after another, and what
  recovery makes of them.

  `History` follows such a log record by record, keeping the
  pages as they are and the pages as the finished work left
  them. `SerialLog` says the records can be followed to the
  end; `recover_serial` says recovery then leaves the
  finished work.
-/

--
-- Following a Log
--

namespace ChenDB

namespace Wal

open Library

variable {ι : Type} [ByteImage ι]

structure History (ι : Type) where
  /- The pages after every record so far. -/
  content : PageMap ι
  /- The pages without the open transaction's updates. -/
  settled : PageMap ι
  active : Option Nat
  /- Pages the open transaction has updated. -/
  captured : List PageId
  /- Captured pages rewritten outside its own records, as a
     rollback does. -/
  rewritten : List PageId
  finished : List Nat

namespace History

def start (pages : PageMap ι) : History ι where
  content := pages
  settled := pages
  active := none
  captured := []
  rewritten := []
  finished := []

/- One at a time: the open transaction, or a new one. -/
def MayLog
    (history : History ι)
    (transactionId : Nat) : Prop :=
  transactionId ≠ noTransaction ∧
    (history.active = some transactionId ∨
      (history.active = none ∧
        transactionId ∉ history.finished))

instance
    (history : History ι)
    (transactionId : Nat) :
    Decidable (history.MayLog transactionId) :=
  inferInstanceAs (Decidable (_ ∧ _))

/- The pages after one update. -/
def write
    (pages : PageMap ι)
    (record : LogRecord ι) : PageMap ι :=
  Function.update pages record.pageId
    (some record.afterImage)

/- An update that belongs to no transaction. -/
def outside
    (history : History ι)
    (record : LogRecord ι) : History ι :=
  { history with
    content := write history.content record
    settled := write history.settled record }

/- An unlabelled update of a captured page: the open
   transaction's own, as a restore is. -/
def restored
    (history : History ι)
    (record : LogRecord ι) : History ι :=
  { history with
    content := write history.content record
    rewritten := record.pageId :: history.rewritten }

/- A transaction's first update of a page. -/
def captures
    (history : History ι)
    (record : LogRecord ι) : History ι :=
  { history with
    content := write history.content record
    active := some record.transactionId
    captured := record.pageId :: history.captured }

/- A later update of a captured page. -/
def updates
    (history : History ι)
    (record : LogRecord ι) : History ι :=
  { history with
    content := write history.content record
    active := some record.transactionId }

/- COMMIT or ABORT: what was done now stands. -/
def finishes
    (history : History ι)
    (record : LogRecord ι) : History ι :=
  { history with
    settled := history.content
    active := none
    captured := []
    rewritten := []
    finished := record.transactionId :: history.finished }

section Follow

variable [DecidableEq ι]

/-
  Follow one record, or fail where a serial history could
  not have written it: a first update must carry the page as
  it is, and a record of no transaction carries nothing.
-/
def advance
    (history : History ι)
    (record : LogRecord ι) : Option (History ι) :=
  match record.recordType with
  | .checkpoint =>
    if record.transactionId = noTransaction then
      some history
    else none
  | .commit | .abort =>
    if history.MayLog record.transactionId then
      some (history.finishes record)
    else none
  | .update =>
    if record.transactionId = noTransaction then
      if record.hasUndo then none
      else if record.pageId ∈ history.captured then
        some (history.restored record)
      else some (history.outside record)
    else if history.MayLog record.transactionId then
      if record.pageId ∈ history.captured then
        some (history.updates record)
      else if record.hasUndo ∧
          history.content record.pageId =
            some record.beforeImage then
        some (history.captures record)
      else none
    else none

/- Follow a whole log. -/
def follow
    (history : History ι)
    (records : List (LogRecord ι)) :
    Option (History ι) :=
  records.foldlM advance history

end Follow

end History

/-
  The records are those of a serial history over these
  pages, which it leaves as `history` says.
-/
def SerialLog
    [DecidableEq ι]
    (pages : PageMap ι)
    (records : List (LogRecord ι))
    (history : History ι) : Prop :=
  (History.start pages).follow records = some history

/- The records of finished transactions and of none. -/
def settledRecords
    (history : History ι)
    (records : List (LogRecord ι)) :
    List (LogRecord ι) :=
  records.filter fun record =>
    record.transactionId = noTransaction ∨
      record.transactionId ∈ history.finished

--
-- What One Record Can Do
--

namespace History

variable {history next : History ι} {record : LogRecord ι}
variable {pages : PageMap ι} {records : List (LogRecord ι)}

theorem advance_cases
    [DecidableEq ι]
    (hStep : history.advance record = some next) :
    (record.recordType = .checkpoint ∧
        record.transactionId = noTransaction ∧
        next = history) ∨
    (record.finishes = true ∧
        history.MayLog record.transactionId ∧
        next = history.finishes record) ∨
    (record.recordType = .update ∧
        record.transactionId = noTransaction ∧
        record.hasUndo = false ∧
        record.pageId ∈ history.captured ∧
        next = history.restored record) ∨
    (record.recordType = .update ∧
        record.transactionId = noTransaction ∧
        record.hasUndo = false ∧
        record.pageId ∉ history.captured ∧
        next = history.outside record) ∨
    (record.recordType = .update ∧
        history.MayLog record.transactionId ∧
        record.pageId ∈ history.captured ∧
        next = history.updates record) ∨
    (record.recordType = .update ∧
        history.MayLog record.transactionId ∧
        record.pageId ∉ history.captured ∧
        record.hasUndo = true ∧
        history.content record.pageId =
          some record.beforeImage ∧
        next = history.captures record) := by
  unfold advance at hStep
  cases hType : record.recordType with
  | checkpoint =>
    left
    rw [hType] at hStep
    simp only at hStep
    split at hStep
    · rename_i hNone
      cases hStep
      exact ⟨rfl, hNone, rfl⟩
    · cases hStep
  | commit =>
    right; left
    rw [hType] at hStep
    simp only at hStep
    split at hStep
    · rename_i hMay
      cases hStep
      exact ⟨by simp [LogRecord.finishes, hType], hMay, rfl⟩
    · cases hStep
  | abort =>
    right; left
    rw [hType] at hStep
    simp only at hStep
    split at hStep
    · rename_i hMay
      cases hStep
      exact ⟨by simp [LogRecord.finishes, hType], hMay, rfl⟩
    · cases hStep
  | update =>
    right; right
    rw [hType] at hStep
    simp only at hStep
    by_cases hNone : record.transactionId = noTransaction
    · rw [if_pos hNone] at hStep
      by_cases hUndo : record.hasUndo = true
      · rw [if_pos hUndo] at hStep
        cases hStep
      · rw [if_neg hUndo] at hStep
        by_cases hMem : record.pageId ∈ history.captured
        · rw [if_pos hMem] at hStep
          cases hStep
          simp [hNone, hUndo, hMem]
        · rw [if_neg hMem] at hStep
          cases hStep
          simp [hNone, hUndo, hMem]
    · rw [if_neg hNone] at hStep
      by_cases hMay : history.MayLog record.transactionId
      · rw [if_pos hMay] at hStep
        by_cases hMem : record.pageId ∈ history.captured
        · rw [if_pos hMem] at hStep
          cases hStep
          simp [hNone, hMay, hMem]
        · rw [if_neg hMem] at hStep
          split at hStep
          · rename_i hFirst
            cases hStep
            simp [hNone, hMay, hMem, hFirst.1, hFirst.2]
          · cases hStep
      · rw [if_neg hMay] at hStep
        cases hStep

theorem follow_append_singleton
    [DecidableEq ι]
    (history : History ι)
    (records : List (LogRecord ι))
    (record : LogRecord ι) :
    history.follow (records ++ [record]) =
      (history.follow records).bind
        fun reached => reached.advance record := by
  unfold follow
  rw [List.foldlM_append]
  simp

omit [ByteImage ι] in
theorem write_of_ne
    (pages : PageMap ι)
    {pageId : PageId}
    (hNe : pageId ≠ record.pageId) :
    write pages record pageId = pages pageId :=
  Function.update_of_ne hNe _ _

omit [ByteImage ι] in
theorem write_self (pages : PageMap ι) :
    write pages record record.pageId =
      some record.afterImage :=
  Function.update_self _ _ _

omit [ByteImage ι] in
theorem settledRecords_append
    (hNone : record.transactionId = noTransaction)
    (hFinished : next.finished = history.finished)
    (records : List (LogRecord ι)) :
    settledRecords next (records ++ [record]) =
      settledRecords history records ++ [record] := by
  unfold settledRecords
  rw [List.filter_append, hFinished]
  congr 1
  simp [hNone]

omit [ByteImage ι] in
theorem overwrite_append
    (hUpdate : record.recordType = .update)
    (records : List (LogRecord ι))
    (pages : PageMap ι) :
    Versioned.overwrite (redoWrites (records ++ [record]))
        pages =
      write
        (Versioned.overwrite (redoWrites records) pages)
        record := by
  have hOne : redoWrites [record] = [record.toWrite] := by
    simp [redoWrites, hUpdate]
  rw [redoWrites_append, hOne,
    Versioned.overwrite_append_singleton]
  rfl

/-
  What a history knows of the log it has followed: the pages
  redo would leave, who has finished, and for each captured
  page the image undo would restore.
-/
structure Kept
    (pages : PageMap ι)
    (records : List (LogRecord ι))
    (history : History ι) : Prop where
  content :
    history.content =
      Versioned.overwrite (redoWrites records) pages
  labelled : ∀ pageId, pageId ∉ history.rewritten →
    Versioned.overwrite
        (redoWrites (settledRecords history records))
        pages pageId =
      history.settled pageId
  seen : ∀ t, Seen records t →
    t ∈ history.finished ∨ history.active = some t
  finished : ∀ t, Finished records t ↔ t ∈ history.finished
  active : ∀ t, history.active = some t →
    Seen records t ∧ t ∉ history.finished
  idle : history.active = none → history.captured = []
  saved : ∀ pageId ∈ history.captured, ∃ image,
    restoreImage history.active.toList records pageId =
        some image ∧
      history.settled pageId = some image
  unsaved : ∀ pageId, pageId ∉ history.captured →
    restoreImage history.active.toList records pageId =
        none ∧
      history.settled pageId = history.content pageId

namespace Kept

theorem start (pages : PageMap ι) :
    Kept pages [] (History.start pages) where
  content := rfl
  labelled _ _ := rfl
  seen t hSeen := by
    rcases hSeen with ⟨-, record, hMem, -⟩
    cases hMem
  finished t := by simp [Finished, History.start]
  active t hActive := by cases hActive
  idle _ := rfl
  saved pageId hMem := by cases hMem
  unsaved _ _ := ⟨rfl, rfl⟩

section Appended

variable (hKept : Kept pages records history)

include hKept

theorem content_append
    (hUpdate : record.recordType = .update) :
    write history.content record =
      Versioned.overwrite (redoWrites (records ++ [record]))
        pages := by
  rw [overwrite_append hUpdate, hKept.content]

theorem content_append_of_not
    (hOther : record.recordType ≠ .update) :
    history.content =
      Versioned.overwrite (redoWrites (records ++ [record]))
        pages := by
  have hNone : redoWrites [record] = [] := by
    simp [redoWrites, hOther]
  rw [redoWrites_append, hNone, List.append_nil, hKept.content]

/- A record the settled pages take no notice of. -/
theorem labelled_append_of_not
    {next : History ι}
    (hFinished : next.finished = history.finished)
    (hSkip : record.recordType ≠ .update ∨
      (record.transactionId ≠ noTransaction ∧
        record.transactionId ∉ history.finished))
    {pageId : PageId}
    (hPage : pageId ∉ history.rewritten) :
    Versioned.overwrite
        (redoWrites
          (settledRecords next (records ++ [record])))
        pages pageId =
      history.settled pageId := by
  rw [← hKept.labelled pageId hPage]
  unfold settledRecords
  rw [List.filter_append, redoWrites_append, hFinished]
  have hNone :
      redoWrites ([record].filter fun record =>
        record.transactionId = noTransaction ∨
          record.transactionId ∈ history.finished) = [] := by
    rcases hSkip with hOther | ⟨hReal, hOpen⟩
    · simp only [redoWrites, List.map_eq_nil_iff,
        List.filter_eq_nil_iff]
      intro found hMem
      rw [List.mem_singleton.mp (List.mem_filter.mp hMem).1]
      simpa using hOther
    · simp [redoWrites, hReal, hOpen]
  rw [hNone, List.append_nil]

variable {t : Nat}

/- The images of a transaction that may log. -/
theorem images_of_mayLog
    (hMay : history.MayLog t)
    (pageId : PageId) :
    restoreImage [t] records pageId =
        (if pageId ∈ history.captured then
          history.settled pageId else none) ∧
      (pageId ∈ history.captured →
        history.active = some t) := by
  rcases hMay with ⟨hReal, hActive | ⟨hIdle, hNew⟩⟩
  · refine ⟨?_, fun _ => hActive⟩
    split
    · rename_i hMem
      rcases hKept.saved pageId hMem with
        ⟨image, hImage, hSettled⟩
      rw [hActive] at hImage
      rw [hSettled]
      exact hImage
    · rename_i hMem
      have hNone := (hKept.unsaved pageId hMem).1
      rw [hActive] at hNone
      exact hNone
  · have hEmpty := hKept.idle hIdle
    rw [hEmpty]
    refine ⟨?_, by simp⟩
    have hUnseen : ¬ Seen records t := by
      intro hSeen
      rcases hKept.seen t hSeen with hDone | hActive
      · exact hNew hDone
      · rw [hIdle] at hActive
        cases hActive
    have hSaves : undoSaves [t] records = [] := by
      unfold undoSaves
      rw [List.map_eq_nil_iff, List.filter_eq_nil_iff]
      intro record hMem hNeeds
      apply hUnseen
      refine ⟨hReal, record, hMem, ?_⟩
      simp [needsUndo] at hNeeds
      exact hNeeds.2.1
    simp [restoreImage, hSaves]

theorem seen_append
    (hMay : history.MayLog record.transactionId)
    (hSeen : Seen (records ++ [record]) t) :
    t ∈ history.finished ∨ t = record.transactionId := by
  rcases (seen_append_singleton records record t).mp hSeen
    with hOld | ⟨-, hEq⟩
  · rcases hKept.seen t hOld with hDone | hActive
    · exact .inl hDone
    · rcases hMay.2 with hSame | ⟨hIdle, -⟩
      · rw [hActive] at hSame
        exact .inr (Option.some.inj hSame)
      · rw [hIdle] at hActive
        cases hActive
  · exact .inr hEq.symm

theorem not_finished_of_mayLog
    (hMay : history.MayLog t) :
    t ∉ history.finished := by
  rcases hMay.2 with hActive | ⟨-, hNew⟩
  · exact (hKept.active t hActive).2
  · exact hNew

theorem finished_append_of_not
    (hOpen : record.finishes = false)
    (t : Nat) :
    Finished (records ++ [record]) t ↔
      t ∈ history.finished := by
  rw [finished_append, finished_singleton,
    hKept.finished t, hOpen]
  simp

/- A checkpoint record changes nothing. -/
theorem checkpoint
    (hType : record.recordType = .checkpoint)
    (hNone : record.transactionId = noTransaction) :
    Kept pages (records ++ [record]) history where
  content := hKept.content_append_of_not (by simp [hType])
  labelled pageId hPage :=
    hKept.labelled_append_of_not rfl
      (.inl (by simp [hType])) hPage
  seen t hSeen := by
    rcases (seen_append_singleton records record t).mp
      hSeen with hOld | ⟨hReal, hEq⟩
    · exact hKept.seen t hOld
    · exact absurd (hEq.symm.trans hNone) hReal
  finished :=
    hKept.finished_append_of_not
      (by simp [LogRecord.finishes, hType])
  active t hActive :=
    ⟨(seen_append_singleton _ _ _).mpr
      (.inl (hKept.active t hActive).1),
      (hKept.active t hActive).2⟩
  idle := hKept.idle
  saved pageId hMem := by
    rw [restoreImage_append_singleton]
    simpa [needsUndo, hType] using hKept.saved pageId hMem
  unsaved pageId hMem := by
    rw [restoreImage_append_singleton]
    simpa [needsUndo, hType] using
      hKept.unsaved pageId hMem

/- A record of no transaction, to any page. -/
theorem unlabelled_seen
    (hNone : record.transactionId = noTransaction)
    (hSeen : Seen (records ++ [record]) t) :
    t ∈ history.finished ∨ history.active = some t := by
  rcases (seen_append_singleton records record t).mp hSeen
    with hOld | ⟨hReal, hEq⟩
  · exact hKept.seen t hOld
  · exact absurd (hEq.symm.trans hNone) hReal

end Appended

theorem restoreImage_of_no_undo
    (losers : List Nat)
    (hUndo : record.hasUndo = false)
    (pageId : PageId) :
    restoreImage losers (records ++ [record]) pageId =
      restoreImage losers records pageId := by
  rw [restoreImage_append_singleton]
  simp [needsUndo, hUndo]

section Updated

variable
    (hKept : Kept pages records history)
    (hUpdate : record.recordType = .update)

include hKept hUpdate

theorem outside
    (hNone : record.transactionId = noTransaction)
    (hUndo : record.hasUndo = false)
    (hFree : record.pageId ∉ history.captured) :
    Kept pages (records ++ [record])
      (history.outside record) where
  content := hKept.content_append hUpdate
  labelled pageId hPage := by
    rw [settledRecords_append hNone rfl,
      overwrite_append hUpdate]
    change _ = write history.settled record pageId
    by_cases hEq : pageId = record.pageId
    · subst hEq
      rw [write_self, write_self]
    · rw [write_of_ne _ hEq, write_of_ne _ hEq]
      exact hKept.labelled pageId hPage
  seen t hSeen := hKept.unlabelled_seen hNone hSeen
  finished :=
    hKept.finished_append_of_not
      (by simp [LogRecord.finishes, hUpdate])
  active t hActive :=
    ⟨(seen_append_singleton _ _ _).mpr
      (.inl (hKept.active t hActive).1),
      (hKept.active t hActive).2⟩
  idle := hKept.idle
  saved pageId hMem := by
    have hNe : pageId ≠ record.pageId := by
      intro hEq
      exact hFree (hEq ▸ hMem)
    rw [restoreImage_of_no_undo _ hUndo]
    change ∃ image, _ ∧
      write history.settled record pageId = some image
    rw [write_of_ne _ hNe]
    exact hKept.saved pageId hMem
  unsaved pageId hMem := by
    rw [restoreImage_of_no_undo _ hUndo]
    refine ⟨(hKept.unsaved pageId hMem).1, ?_⟩
    change write history.settled record pageId =
      write history.content record pageId
    by_cases hEq : pageId = record.pageId
    · subst hEq
      rw [write_self, write_self]
    · rw [write_of_ne _ hEq, write_of_ne _ hEq]
      exact (hKept.unsaved pageId hMem).2

theorem restored
    (hNone : record.transactionId = noTransaction)
    (hUndo : record.hasUndo = false)
    (hCaptured : record.pageId ∈ history.captured) :
    Kept pages (records ++ [record])
      (history.restored record) where
  content := hKept.content_append hUpdate
  labelled pageId hPage := by
    have hNe : pageId ≠ record.pageId := by
      intro hEq
      apply hPage
      rw [hEq]
      exact .head _
    have hOld : pageId ∉ history.rewritten := by
      intro hMem
      exact hPage (.tail _ hMem)
    rw [settledRecords_append hNone rfl,
      overwrite_append hUpdate, write_of_ne _ hNe]
    exact hKept.labelled pageId hOld
  seen t hSeen := hKept.unlabelled_seen hNone hSeen
  finished :=
    hKept.finished_append_of_not
      (by simp [LogRecord.finishes, hUpdate])
  active t hActive :=
    ⟨(seen_append_singleton _ _ _).mpr
      (.inl (hKept.active t hActive).1),
      (hKept.active t hActive).2⟩
  idle := hKept.idle
  saved pageId hMem := by
    rw [restoreImage_of_no_undo _ hUndo]
    exact hKept.saved pageId hMem
  unsaved pageId hMem := by
    have hNe : pageId ≠ record.pageId := by
      intro hEq
      exact hMem (hEq ▸ hCaptured)
    rw [restoreImage_of_no_undo _ hUndo]
    refine ⟨(hKept.unsaved pageId hMem).1, ?_⟩
    change _ = write history.content record pageId
    rw [write_of_ne _ hNe]
    exact (hKept.unsaved pageId hMem).2

/- An update by the open transaction, from what it leaves
   captured. -/
theorem logged
    (hMay : history.MayLog record.transactionId)
    {captured : List PageId}
    (hSaved : ∀ pageId ∈ captured, ∃ image,
      restoreImage [record.transactionId]
          (records ++ [record]) pageId = some image ∧
        history.settled pageId = some image)
    (hUnsaved : ∀ pageId, pageId ∉ captured →
      restoreImage [record.transactionId]
          (records ++ [record]) pageId = none ∧
        history.settled pageId =
          write history.content record pageId) :
    Kept pages (records ++ [record])
      { history with
        content := write history.content record
        active := some record.transactionId
        captured := captured } where
  content := hKept.content_append hUpdate
  labelled _ hPage :=
    hKept.labelled_append_of_not rfl
      (.inr ⟨hMay.1,
        hKept.not_finished_of_mayLog hMay⟩) hPage
  seen t hSeen := by
    rcases hKept.seen_append hMay hSeen with hDone | rfl
    · exact .inl hDone
    · exact .inr rfl
  finished :=
    hKept.finished_append_of_not
      (by simp [LogRecord.finishes, hUpdate])
  active t hEq := by
    cases hEq
    refine ⟨?_, hKept.not_finished_of_mayLog hMay⟩
    exact (seen_append_singleton _ _ _).mpr
      (.inr ⟨hMay.1, rfl⟩)
  idle := nofun
  saved := hSaved
  unsaved := hUnsaved

theorem updates
    (hMay : history.MayLog record.transactionId)
    (hCaptured : record.pageId ∈ history.captured) :
    Kept pages (records ++ [record])
      (history.updates record) := by
  have hImages := hKept.images_of_mayLog hMay
  have hActive := (hImages record.pageId).2 hCaptured
  have hImage : ∀ pageId,
      restoreImage [record.transactionId]
          (records ++ [record]) pageId =
        restoreImage history.active.toList records
          pageId := by
    intro pageId
    rw [restoreImage_append_singleton, hActive,
      Option.toList_some]
    by_cases hEq : record.pageId = pageId
    · subst hEq
      rcases hKept.saved _ hCaptured with ⟨image, hSome, -⟩
      rw [hActive, Option.toList_some] at hSome
      simp [hSome]
    · simp [hEq]
  refine hKept.logged hUpdate hMay ?_ ?_
  · intro pageId hMem
    have hSaved := hKept.saved pageId hMem
    rw [← hImage pageId] at hSaved
    exact hSaved
  · intro pageId hMem
    have hUnsaved := hKept.unsaved pageId hMem
    rw [← hImage pageId] at hUnsaved
    refine ⟨hUnsaved.1, ?_⟩
    have hNe : pageId ≠ record.pageId := by
      intro hEq
      exact hMem (hEq ▸ hCaptured)
    rw [write_of_ne _ hNe]
    exact hUnsaved.2

theorem captures
    (hMay : history.MayLog record.transactionId)
    (hFree : record.pageId ∉ history.captured)
    (hUndo : record.hasUndo = true)
    (hBefore : history.content record.pageId =
      some record.beforeImage) :
    Kept pages (records ++ [record])
      (history.captures record) := by
  have hImages := hKept.images_of_mayLog hMay
  have hNeeds :
      needsUndo [record.transactionId] record = true := by
    simp [needsUndo, hUpdate, hUndo]
  have hImage : ∀ pageId,
      restoreImage [record.transactionId]
          (records ++ [record]) pageId =
        if pageId = record.pageId then
          some record.beforeImage
        else if pageId ∈ history.captured then
          history.settled pageId
        else none := by
    intro pageId
    rw [restoreImage_append_singleton, (hImages pageId).1]
    by_cases hEq : pageId = record.pageId
    · subst hEq
      simp [hFree, hNeeds]
    · simp [hEq, Ne.symm hEq]
  refine hKept.logged hUpdate hMay ?_ ?_
  · intro pageId hMem
    rw [hImage pageId]
    by_cases hEq : pageId = record.pageId
    · rw [if_pos hEq]
      refine ⟨_, rfl, ?_⟩
      rw [hEq, (hKept.unsaved _ hFree).2, hBefore]
    · have hOld : pageId ∈ history.captured := by
        rcases List.mem_cons.mp hMem with hSame | hOld
        · exact absurd hSame hEq
        · exact hOld
      rcases hKept.saved pageId hOld with ⟨image, -, hSettled⟩
      rw [if_neg hEq, if_pos hOld]
      exact ⟨image, hSettled, hSettled⟩
  · intro pageId hMem
    have hNe : pageId ≠ record.pageId := by
      intro hEq
      exact hMem (hEq ▸ (.head _))
    have hOld : pageId ∉ history.captured := by
      intro hOld
      exact hMem (.tail _ hOld)
    rw [hImage pageId, if_neg hNe, if_neg hOld]
    refine ⟨rfl, ?_⟩
    rw [write_of_ne _ hNe]
    exact (hKept.unsaved pageId hOld).2

end Updated

theorem finishes
    (hKept : Kept pages records history)
    (hEnds : record.finishes = true)
    (hMay : history.MayLog record.transactionId) :
    Kept pages (records ++ [record])
      (history.finishes record) := by
  have hOther : record.recordType ≠ .update := by
    intro hUpdate
    simp [LogRecord.finishes, hUpdate] at hEnds
  have hContent := hKept.content_append_of_not hOther
  have hAll :
      settledRecords (history.finishes record)
          (records ++ [record]) =
        records ++ [record] := by
    unfold settledRecords
    rw [List.filter_eq_self]
    intro found hMem
    simp only [decide_eq_true_eq]
    by_cases hReal : found.transactionId = noTransaction
    · exact .inl hReal
    · right
      have hSeen :
          Seen (records ++ [record])
            found.transactionId :=
        ⟨hReal, found, hMem, rfl⟩
      rcases hKept.seen_append hMay hSeen with hDone | hEq
      · exact .tail _ hDone
      · rw [hEq]
        exact .head _
  exact {
    content := hContent
    labelled := fun pageId _ => by
      rw [hAll, ← hContent]
      rfl
    seen := fun t hSeen => by
      left
      rcases hKept.seen_append hMay hSeen with hDone | rfl
      · exact .tail _ hDone
      · exact .head _
    finished := fun t => by
      rw [finished_append, finished_singleton,
        hKept.finished t, hEnds]
      simp [History.finishes, or_comm, eq_comm]
    active := fun t hEq => by cases hEq
    idle := fun _ => rfl
    saved := fun pageId hMem => by cases hMem
    unsaved := fun pageId _ => by
      refine ⟨?_, rfl⟩
      simp [History.finishes, restoreImage, undoSaves,
        needsUndo] }

theorem advance
    [DecidableEq ι]
    (hKept : Kept pages records history)
    {next : History ι}
    (hStep : history.advance record = some next) :
    Kept pages (records ++ [record]) next := by
  rcases advance_cases hStep with
    ⟨hType, hNone, rfl⟩ | ⟨hEnds, hMay, rfl⟩ |
    ⟨hUpdate, hNone, hUndo, hMem, rfl⟩ |
    ⟨hUpdate, hNone, hUndo, hMem, rfl⟩ |
    ⟨hUpdate, hMay, hMem, rfl⟩ |
    ⟨hUpdate, hMay, hMem, hUndo, hBefore, rfl⟩
  · exact hKept.checkpoint hType hNone
  · exact hKept.finishes hEnds hMay
  · exact hKept.restored hUpdate hNone hUndo hMem
  · exact hKept.outside hUpdate hNone hUndo hMem
  · exact hKept.updates hUpdate hMay hMem
  · exact hKept.captures hUpdate hMay hMem hUndo hBefore

end Kept

/- A history that followed a log knows what it must. -/
theorem kept_of_serialLog
    [DecidableEq ι]
    (hSerial : SerialLog pages records history) :
    Kept pages records history := by
  induction records using List.reverseRecOn
    generalizing history with
  | nil =>
    cases hSerial
    exact Kept.start pages
  | append_singleton records record ih =>
    unfold SerialLog at hSerial
    rw [follow_append_singleton] at hSerial
    rcases Option.bind_eq_some_iff.mp hSerial with
      ⟨reached, hReached, hStep⟩
    exact (ih hReached).advance hStep

/- Undo restores what the open transaction captured. -/
theorem Kept.restoreImage_losers
    (hKept : Kept pages records history)
    (pageId : PageId) :
    restoreImage (analyse records).losers records pageId =
      restoreImage history.active.toList records
        pageId := by
  unfold restoreImage
  rw [undoSaves_congr]
  intro t
  rw [mem_losers_iff, hKept.finished t, Option.mem_toList]
  constructor
  · rintro ⟨hSeen, hOpen⟩
    rcases hKept.seen t hSeen with hDone | hActive
    · exact absurd hDone hOpen
    · exact hActive
  · intro hActive
    exact hKept.active t hActive

/-
  The pages redo and undo leave are those of the finished
  work, where redo would bring every page up to date.
-/
theorem Kept.recoveredPages_eq
    {lsnOf : ι → Nat}
    {disk : PageMap ι}
    (hKept : Kept pages records history)
    (hRedo :
      Versioned.replay lsnOf (redoWrites records) disk =
        Versioned.overwrite (redoWrites records) pages) :
    recoveredPages lsnOf records disk =
      history.settled := by
  funext pageId
  unfold recoveredPages
  rw [Versioned.restore_apply, hRedo, ← hKept.content]
  change (restoreImage (analyse records).losers records
    pageId).or _ = _
  rw [hKept.restoreImage_losers]
  by_cases hMem : pageId ∈ history.captured
  · rcases hKept.saved pageId hMem with
      ⟨image, hImage, hSettled⟩
    rw [hImage, hSettled]
    rfl
  · rcases hKept.unsaved pageId hMem with
      ⟨hNone, hSettled⟩
    rw [hNone, hSettled]
    rfl

end History

--
-- Recovery of a Serial Log
--

/-
  Each page on the disk holds what it held before the log
  or the after-image of some record for it.
-/
def DiskOf
    (pages : PageMap ι)
    (records : List (LogRecord ι))
    (disk : PageMap ι) : Prop :=
  ∀ pageId, disk pageId = pages pageId ∨
    ∃ record ∈ records, record.recordType = .update ∧
      record.pageId = pageId ∧
      disk pageId = some record.afterImage

/- The pages were there before the log's records. -/
def Predates
    (lsnOf : ι → Nat)
    (pages : PageMap ι)
    (records : List (LogRecord ι)) : Prop :=
  ∀ record ∈ records, record.recordType = .update →
    Versioned.Behind lsnOf (pages record.pageId) record.lsn

/- Redo brings such a disk up to date. -/
theorem replay_of_diskOf
    {lsnOf : ι → Nat}
    {start : Nat}
    {pages disk : PageMap ι}
    {records : List (LogRecord ι)}
    (hRun : Contiguous start records)
    (hStamped : Stamped lsnOf records)
    (hPredates : Predates lsnOf pages records)
    (hDisk : DiskOf pages records disk) :
    Versioned.replay lsnOf (redoWrites records) disk =
      Versioned.overwrite (redoWrites records) pages := by
  apply Versioned.replay_eq_overwrite
    (redoWrites_ordered hRun hStamped)
  · intro write hMem
    rcases mem_redoWrites.mp hMem with
      ⟨record, hRecord, hUpdate, rfl⟩
    exact hPredates record hRecord hUpdate
  · intro pageId
    rcases hDisk pageId with hOld | ⟨record, hMem, hUpdate,
      hPage, hHolds⟩
    · exact .inl hOld
    · right
      refine ⟨record.toWrite, ?_, hPage, hHolds⟩
      exact mem_redoWrites.mpr ⟨record, hMem, hUpdate, rfl⟩

/-
  Recovery of a serial log, from any mixture of pages that
  did and did not reach the disk. Every page ends as the
  finished transactions and the updates of no transaction
  left it. A rollback the crash cut short logs its restores
  under no transaction; they count as the transaction's own,
  and where there are none the pages are those of the
  records labelled finished or unlabelled.
-/
theorem recover_serial
    [DecidableEq ι]
    {lsnOf : ι → Nat}
    {log : WriteAheadLog ι}
    {pages disk : PageMap ι}
    {history : History ι}
    (hOpen : log.closed = false)
    (hSerial : SerialLog pages (readRecords log) history)
    (hStamped : Stamped lsnOf (readRecords log))
    (hPredates : Predates lsnOf pages (readRecords log))
    (hDisk : DiskOf pages (readRecords log) disk) :
    ∃ report final,
      (recoverInto lsnOf).run
          { log := log, pages := disk, actions := [] } =
        .ok report final ∧
      ∀ pageId,
        final.pages pageId = history.settled pageId ∧
        (pageId ∉ history.rewritten →
          final.pages pageId =
            Versioned.overwrite
              (redoWrites
                (settledRecords history (readRecords log)))
              pages pageId) := by
  have hKept := History.kept_of_serialLog hSerial
  have hRedo :=
    replay_of_diskOf (readRecords_contiguous log) hStamped
      hPredates hDisk
  have hPages := hKept.recoveredPages_eq hRedo
  rcases recoverInto_run lsnOf
    { log := log, pages := disk, actions := [] } hOpen with
    ⟨report, hRecovered, -⟩
  refine ⟨report, _, hRecovered, ?_⟩
  intro pageId
  have hSettled :
      recoveredPages lsnOf (readRecords log) disk pageId =
        history.settled pageId :=
    congrFun hPages pageId
  refine ⟨hSettled, fun hPage => ?_⟩
  rw [hKept.labelled pageId hPage]
  exact hSettled

/- Transaction 1 committed; the crash caught transaction 2
   after it had written both pages. -/
def interruptedLog : List (LogRecord Bytes) :=
  [ { lsn := 10, prevLsn := 0, transactionId := 1,
      recordType := .update, pageId := 1,
      beforeImage := [1, 7], afterImage := [10, 8] },
    { lsn := 58, prevLsn := 10, transactionId := 1,
      recordType := .commit, pageId := 0,
      beforeImage := [], afterImage := [] },
    { lsn := 102, prevLsn := 0, transactionId := 2,
      recordType := .update, pageId := 1,
      beforeImage := [10, 8], afterImage := [102, 9] },
    { lsn := 150, prevLsn := 102, transactionId := 2,
      recordType := .update, pageId := 2,
      beforeImage := [1, 7], afterImage := [150, 9] } ]

def twoPages : PageMap Bytes := fun pageId =>
  if pageId = 1 ∨ pageId = 2 then some [1, 7] else none

/- Page 1 reached the disk with the loser's update. -/
def tornPages : PageMap Bytes := fun pageId =>
  if pageId = 1 then some [102, 9] else twoPages pageId

theorem recover_serial_interrupted :
    ∃ report final,
      (recoverInto stampByte).run
          { log := WriteAheadLog.openFile interruptedLog 10
            pages := tornPages
            actions := [] } = .ok report final ∧
      final.pages 1 = some [10, 8] ∧
      final.pages 2 = some [1, 7] := by
  have hRead :
      readRecords
        (WriteAheadLog.openFile interruptedLog 10) =
        interruptedLog := by
    decide
  have hSettled :
      ((History.start twoPages).follow interruptedLog).map
          (fun history =>
            (history.settled 1, history.settled 2)) =
        some (some [10, 8], some [1, 7]) := by
    decide
  rcases Option.map_eq_some_iff.mp hSettled with
    ⟨history, hSerial, hPair⟩
  have hStamped : Stamped stampByte interruptedLog := by
    unfold Stamped
    decide
  have hPredates :
      Predates stampByte twoPages interruptedLog := by
    unfold Predates
    decide
  have hDisk : DiskOf twoPages interruptedLog tornPages := by
    intro pageId
    by_cases hOne : pageId = 1
    · subst hOne
      right
      decide
    · left
      simp [tornPages, hOne]
  rw [← hRead] at hSerial hStamped hPredates hDisk
  rcases recover_serial rfl hSerial hStamped hPredates hDisk
    with ⟨report, final, hRun, hPages⟩
  refine ⟨report, final, hRun, ?_, ?_⟩
  · exact (hPages 1).1.trans (congrArg Prod.fst hPair)
  · exact (hPages 2).1.trans (congrArg Prod.snd hPair)

end Wal

end ChenDB
