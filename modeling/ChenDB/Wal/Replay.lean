import ChenDB.Wal.LogFile

/-
  What the log holds compared with what it was asked to log.
  Coalescing drops a record when the next one changes the
  same page for the same transaction; what is left has the
  same last image of each page, the same first before-image
  of each page and transaction, and the same ends of
  transactions.
-/

--
-- Calls
--

namespace ChenDB

namespace Wal

open Library.StateExcept
open Library.Struct

/-
  A call on an open log. What the page flush of a checkpoint
  does to the log are flushes in front of it.
-/
inductive StreamCall where
  | log (call : LogCall Bytes)
  | checkpoint
  | reset (baseLsn : Nat)

namespace LogFile

/- The file cut off after a checkpoint record. -/
def checkpointed (wal : LogFile) : LogFile where
  leftover := []
  log := (wal.log.stage (wal.log.endRecord .checkpoint
    noTransaction)).flushed.truncated

end LogFile

/- Run a log program on a log file. -/
def onFile
    {α : Type}
    (program : LogM Bytes α) :
    EStateM EngineError LogFile α :=
  focus LogFile.log LogFile.withLog program

def StreamCall.run :
    StreamCall → EStateM EngineError LogFile Unit
  | .log call => onFile call.run
  | .checkpoint => do
      let _ ← onFile WriteAheadLog.appendCheckpoint
      onFile WriteAheadLog.truncate
      modify fun wal => { wal with leftover := [] }
  | .reset baseLsn => do
      onFile (WriteAheadLog.reset baseLsn)
      modify fun wal => { wal with leftover := [] }

/- The file a call leaves. -/
def StreamCall.after
    (wal : LogFile) : StreamCall → LogFile
  | .log call => wal.withLog (call.after wal.log)
  | .checkpoint => wal.checkpointed
  | .reset baseLsn => wal.reset baseLsn

def runStream :
    List StreamCall → EStateM EngineError LogFile Unit
  | [] => pure ()
  | call :: rest => do
      call.run
      runStream rest

def streamAfter
    (wal : LogFile)
    (calls : List StreamCall) : LogFile :=
  calls.foldl StreamCall.after wal

--
-- What Was Asked For
--

/-
  One record as a call asks for it. A page image is asked
  for by LSN, because it carries the LSN of its record.
-/
structure Request (ι : Type) where
  recordType : RecordType
  transactionId : Nat
  pageId : PageId
  beforeImage : ι
  afterImageFor : Nat → ι

variable {ι : Type} [ByteImage ι]

/- The end of a transaction, as a request. -/
def Request.ending
    (recordType : RecordType)
    (transactionId : Nat) : Request ι where
  recordType := recordType
  transactionId := transactionId
  pageId := 0
  beforeImage := ByteImage.empty
  afterImageFor := fun _ => ByteImage.empty

def LogCall.requests : LogCall ι → List (Request ι)
  | .append recordType transactionId pageId before after =>
    [⟨recordType, transactionId, pageId, before,
      fun _ => after⟩]
  | .appendUpdate transactionId pageId before afterFor =>
    [⟨.update, transactionId, pageId, before, afterFor⟩]
  | .commit transactionId => [.ending .commit transactionId]
  | .abort transactionId => [.ending .abort transactionId]
  | .flush => []
  | .flushThrough _ => []

/- A call asks for records, or starts over. -/
def StreamCall.askedAfter
    (asked : List (Request Bytes)) :
    StreamCall → List (Request Bytes)
  | .log call => asked ++ call.requests
  | .checkpoint => []
  | .reset _ => []

/- The records the calls since the last checkpoint or reset
   would have logged without coalescing. -/
def requests
    (calls : List StreamCall) : List (Request Bytes) :=
  calls.foldl StreamCall.askedAfter []

--
-- What a Replay Sees
--

/- Type, transaction and page of a record. -/
abbrev Subject := RecordType × Nat × PageId

def LogRecord.subject (record : LogRecord ι) : Subject :=
  (record.recordType, record.transactionId, record.pageId)

def Request.subject (request : Request ι) : Subject :=
  (request.recordType, request.transactionId, request.pageId)

/- It is an update of the page. -/
def Subject.updates
    (subject : Subject)
    (pageId : PageId) : Bool :=
  subject.1 = .update ∧ subject.2.2 = pageId

/- It is the transaction's update of the page. -/
def Subject.touches
    (subject : Subject)
    (transactionId : Nat)
    (pageId : PageId) : Bool :=
  subject.1 = .update ∧ subject.2.1 = transactionId ∧
    subject.2.2 = pageId

/- It ends the transaction. -/
def Subject.ends (subject : Subject) : Bool :=
  subject.1 = .commit ∨ subject.1 = .abort

/-
  The records replay to what was asked for: the same last
  image of each page, the same before-image of each
  transaction's first update of a page, and the same commits
  and aborts in the same order.
-/
structure Replays
    (asked : List (Request ι))
    (records : List (LogRecord ι)) : Prop where
  finalImage : ∀ pageId,
    Option.Rel
      (fun record request => record.afterImage =
        request.afterImageFor record.lsn)
      (records.reverse.find? fun record =>
        record.subject.updates pageId)
      (asked.reverse.find? fun request =>
        request.subject.updates pageId)
  firstBefore : ∀ transactionId pageId,
    (records.find? fun record =>
        record.subject.touches transactionId
          pageId).map LogRecord.beforeImage =
      (asked.find? fun request =>
        request.subject.touches transactionId
          pageId).map Request.beforeImage
  endings :
    (records.map LogRecord.subject).filter Subject.ends =
      (asked.map Request.subject).filter Subject.ends

namespace Replays

variable {asked : List (Request ι)}
variable {records : List (LogRecord ι)}
variable {record tail : LogRecord ι} {request : Request ι}

omit [ByteImage ι] in
theorem nil :
    Replays ([] : List (Request ι)) [] where
  finalImage _ := .none
  firstBefore _ _ := rfl
  endings := rfl

omit [ByteImage ι] in
/- A record that was staged for a request. -/
theorem stage
    (hReplays : Replays asked records)
    (hSubject : record.subject = request.subject)
    (hBefore : record.beforeImage = request.beforeImage)
    (hAfter : record.afterImage =
      request.afterImageFor record.lsn) :
    Replays (asked ++ [request]) (records ++ [record]) where
  finalImage pageId := by
    simp only [List.reverse_append, List.reverse_singleton,
      List.singleton_append, List.find?_cons, hSubject]
    cases request.subject.updates pageId with
    | true => exact .some hAfter
    | false => exact hReplays.finalImage pageId
  firstBefore transactionId pageId := by
    have hOld := hReplays.firstBefore transactionId pageId
    simp only [List.find?_append, List.find?_singleton,
      hSubject]
    cases hRecord : records.find? fun record =>
        record.subject.touches transactionId pageId with
    | some first =>
      rw [hRecord] at hOld
      rcases Option.map_eq_some_iff.mp hOld.symm with
        ⟨held, hHeld, hSame⟩
      rw [hHeld]
      exact congrArg some hSame.symm
    | none =>
      rw [hRecord] at hOld
      rw [Option.map_eq_none_iff.mp hOld.symm]
      simp only [Option.none_or]
      split
      · exact congrArg some hBefore
      · rfl
  endings := by
    simp only [List.map_append, List.map_singleton,
      List.filter_append, hReplays.endings, hSubject]

omit [ByteImage ι] in
/- A record that took the place of the last one, for the
   same page and transaction. -/
theorem replaceTail
    (hReplays : Replays asked (records ++ [tail]))
    (hTail : tail.subject = request.subject)
    (hUpdate : request.recordType = .update)
    (hSubject : record.subject = request.subject)
    (hBefore : record.beforeImage = tail.beforeImage)
    (hAfter : record.afterImage =
      request.afterImageFor record.lsn) :
    Replays (asked ++ [request]) (records ++ [record]) where
  finalImage pageId := by
    have hOld := hReplays.finalImage pageId
    simp only [List.reverse_append, List.reverse_singleton,
      List.singleton_append, List.find?_cons, hSubject,
      hTail] at hOld ⊢
    cases hHit : request.subject.updates pageId with
    | true => exact .some hAfter
    | false =>
      rw [hHit] at hOld
      exact hOld
  firstBefore transactionId pageId := by
    have hOld := hReplays.firstBefore transactionId pageId
    simp only [List.find?_append, List.find?_singleton,
      hSubject, hTail] at hOld ⊢
    cases hHit : request.subject.touches transactionId
        pageId with
    | false =>
      simp only [hHit, Bool.false_eq_true, if_false,
        Option.or_none] at hOld ⊢
      exact hOld
    | true =>
      -- the transaction has an earlier request for it
      simp only [hHit, if_true] at hOld ⊢
      cases hRecord : records.find? fun record =>
          record.subject.touches transactionId pageId with
      | some first =>
        rw [hRecord] at hOld
        rcases Option.map_eq_some_iff.mp hOld.symm with
          ⟨held, hHeld, hSame⟩
        rw [hHeld]
        exact congrArg some hSame.symm
      | none =>
        rw [hRecord] at hOld
        rcases Option.map_eq_some_iff.mp hOld.symm with
          ⟨held, hHeld, hSame⟩
        rw [hHeld]
        exact congrArg some (hBefore.trans hSame.symm)
  endings := by
    have hNone : request.subject.ends = false := by
      simp [Request.subject, Subject.ends, hUpdate]
    have hOld := hReplays.endings
    simp only [List.map_append, List.map_singleton,
      List.filter_append, hSubject, hTail,
      List.filter_singleton, hNone, cond_false,
      List.append_nil] at hOld ⊢
    exact hOld

end Replays

--
-- One Call
--

/- What is in the log, in the file or staged. -/
def WriteAheadLog.content
    (log : WriteAheadLog ι) : List (LogRecord ι) :=
  log.file ++ log.buffer

section Calls

variable {log : WriteAheadLog ι} {asked : List (Request ι)}

omit [ByteImage ι] in
theorem content_forget (transactionId : Nat) :
    (log.forget transactionId).content = log.content := rfl

theorem content_stage (record : LogRecord ι) :
    (log.stage record).content =
      log.content ++ [record] :=
  (List.append_assoc _ _ _).symm

theorem content_flushed :
    log.flushed.content = log.content := by
  unfold WriteAheadLog.content
  rw [WriteAheadLog.flushed_file,
    WriteAheadLog.flushed_buffer, List.append_nil]

/- A page change adds its record or replaces the last. -/
theorem replays_updated
    (hStaged : log.Staged)
    (hReplays : Replays asked log.content)
    (transactionId : Nat)
    (pageId : PageId)
    (before : ι)
    (afterFor : Nat → ι) :
    Replays
      (asked ++
        [⟨.update, transactionId, pageId, before, afterFor⟩])
      (log.updated transactionId pageId before
        afterFor).content := by
  unfold WriteAheadLog.updated WriteAheadLog.updateRecord
  cases hTail : log.superseded transactionId pageId with
  | none =>
    simp only [content_stage]
    exact hReplays.stage rfl rfl rfl
  | some tail =>
    rcases hStaged.superseded hTail with
      ⟨hMem, _, hType, hPage, hOwner⟩
    have hBuffer := hStaged.buffer_eq hMem
    have hSplit : log.content =
        (log.file ++ log.buffer.dropLast) ++ [tail] := by
      unfold WriteAheadLog.content
      rw [List.append_assoc, ← hBuffer]
    have hContent : ∀ record,
        (log.replaceTail record).content =
          (log.file ++ log.buffer.dropLast) ++ [record] :=
      fun _ => (List.append_assoc _ _ _).symm
    rw [hSplit] at hReplays
    simp only [hContent]
    refine hReplays.replaceTail ?_ rfl rfl rfl rfl
    simp only [LogRecord.subject, Request.subject, hType,
      hPage, hOwner]

theorem LogCall.after_replays
    (call : LogCall ι)
    (hStaged : log.Staged)
    (hReplays : Replays asked log.content) :
    Replays (asked ++ call.requests)
      (call.after log).content := by
  cases call with
  | append recordType transactionId pageId before image =>
    simp only [after, requests, content_stage]
    exact hReplays.stage rfl rfl rfl
  | appendUpdate transactionId pageId before afterFor =>
    exact replays_updated hStaged hReplays transactionId
      pageId before afterFor
  | commit transactionId =>
    simp only [after, requests, content_forget,
      content_flushed, content_stage]
    exact hReplays.stage rfl rfl rfl
  | abort transactionId =>
    simp only [after, requests, content_forget, content_stage]
    exact hReplays.stage rfl rfl rfl
  | flush =>
    simp only [after, requests, content_flushed,
      List.append_nil]
    exact hReplays
  | flushThrough lsn =>
    simp only [after, requests, List.append_nil]
    split
    · rw [content_flushed]
      exact hReplays
    · exact hReplays

end Calls

/- The log file is open, its records are where their LSNs
   say, and they replay to what was asked for. -/
structure Faithful
    (asked : List (Request Bytes))
    (wal : LogFile) : Prop where
  isOpen : wal.log.closed = false
  placed : wal.log.Placed
    (wal.log.baseLsn + wal.leftover.length)
  replays : Replays asked wal.log.content

namespace Faithful

variable {asked : List (Request Bytes)} {wal : LogFile}

theorem openAt (raw : Bytes) (baseLsn : Nat) :
    Faithful [] (LogFile.openAt raw baseLsn) where
  isOpen := rfl
  placed := ⟨⟨rfl, trivial, by
    simp [LogFile.openAt, WriteAheadLog.openFile]⟩, trivial,
    rfl⟩
  replays := .nil

theorem log
    (hFaithful : Faithful asked wal)
    (call : LogCall Bytes) :
    Faithful (asked ++ call.requests)
      (wal.withLog (call.after wal.log)) where
  isOpen :=
    call.after_keeps.1.trans hFaithful.isOpen
  placed := by
    have hBase : (call.after wal.log).baseLsn =
        wal.log.baseLsn := call.after_keeps.2
    have hPlaced := call.after_placed hFaithful.placed
    rw [← hBase] at hPlaced
    exact hPlaced
  replays := call.after_replays hFaithful.placed.staged
    hFaithful.replays

theorem checkpointed
    (hFaithful : Faithful asked wal) :
    Faithful [] wal.checkpointed where
  isOpen := by
    refine Eq.trans ?_ hFaithful.isOpen
    exact WriteAheadLog.flushed_closed _
  placed := by
    refine ⟨?_, trivial, rfl⟩
    exact (hFaithful.placed.staged.stage rfl).flushed.truncated
  replays := by
    have hEmpty : wal.checkpointed.log.content = [] :=
      WriteAheadLog.flushed_buffer _
    rw [hEmpty]
    exact .nil

theorem reset
    (hFaithful : Faithful asked wal)
    (baseLsn : Nat) :
    Faithful [] (wal.reset baseLsn) where
  isOpen := hFaithful.isOpen
  placed := ⟨⟨rfl, trivial, by simp [LogFile.reset]⟩,
    trivial, rfl⟩
  replays := .nil

end Faithful

section Stream

variable {asked : List (Request Bytes)} {wal : LogFile}

theorem onFile_run
    {α : Type}
    {program : LogM Bytes α}
    {value : α}
    {log : WriteAheadLog Bytes}
    (hRun : program.run wal.log = .ok value log) :
    (onFile program).run wal =
      .ok value (wal.withLog log) := by
  unfold onFile
  rw [run_focus, hRun]

/- An open log returns from every call. -/
theorem StreamCall.run_eq
    (hFaithful : Faithful asked wal)
    (call : StreamCall) :
    call.run.run wal = .ok () (call.after wal) := by
  cases call with
  | log call =>
    exact onFile_run (call.run_eq hFaithful.isOpen
      hFaithful.placed.staged)
  | checkpoint =>
    unfold StreamCall.run
    rw [EStateM.run_bind, onFile_run
      (WriteAheadLog.appendCheckpoint_run
        hFaithful.isOpen)]
    simp only []
    rw [EStateM.run_bind, onFile_run WriteAheadLog.truncate_run]
    rfl
  | reset baseLsn =>
    unfold StreamCall.run
    rw [EStateM.run_bind, onFile_run
      (WriteAheadLog.reset_run hFaithful.isOpen baseLsn)]
    rfl

theorem StreamCall.after_faithful
    (hFaithful : Faithful asked wal)
    (call : StreamCall) :
    Faithful (call.askedAfter asked) (call.after wal) := by
  cases call with
  | log call => exact hFaithful.log call
  | checkpoint => exact hFaithful.checkpointed
  | reset baseLsn => exact hFaithful.reset baseLsn

theorem runStream_faithful
    (hFaithful : Faithful asked wal)
    (calls : List StreamCall) :
    (runStream calls).run wal =
        .ok () (streamAfter wal calls) ∧
      Faithful (calls.foldl StreamCall.askedAfter asked)
        (streamAfter wal calls) := by
  induction calls generalizing asked wal with
  | nil => exact ⟨rfl, hFaithful⟩
  | cons call rest ih =>
    have hNext := call.after_faithful hFaithful
    rcases ih hNext with ⟨hRun, hFinal⟩
    refine ⟨?_, hFinal⟩
    unfold runStream
    rw [EStateM.run_bind, call.run_eq hFaithful]
    exact hRun

end Stream

--
-- The Bytes of the File
--

theorem length_encodeAll
    (records : List (LogRecord Bytes)) :
    (encodeAll records).length = totalSize records := by
  induction records with
  | nil => rfl
  | cons record rest ih =>
    unfold encodeAll at ih ⊢
    rw [List.flatMap_cons, List.length_append, ih,
      record.length_toBytes, totalSize_cons]

variable {record : LogRecord Bytes}

/- A record of a run is where its LSN says. -/
theorem decodeRecord_encodeAll
    {leftover : Bytes}
    {baseLsn : Nat}
    {records : List (LogRecord Bytes)}
    (hRun : Contiguous (baseLsn + leftover.length) records)
    (hMem : record ∈ records)
    (hEncodable : record.Encodable) :
    decodeRecord (leftover ++ encodeAll records)
        (record.lsn - baseLsn) baseLsn =
      some record := by
  rcases List.append_of_mem hMem with ⟨before, after, rfl⟩
  have hLsn : record.lsn =
      baseLsn + leftover.length + totalSize before :=
    ((contiguous_append _ _ _).mp hRun).2.1
  have hBytes : leftover ++
      encodeAll (before ++ record :: after) =
      (leftover ++ encodeAll before) ++
        (record.toBytes ++ encodeAll after) := by
    unfold encodeAll
    rw [List.flatMap_append, List.flatMap_cons,
      List.append_assoc]
  have hOffset : record.lsn - baseLsn =
      (leftover ++ encodeAll before).length := by
    rw [List.length_append, length_encodeAll]
    omega
  unfold decodeRecord
  rw [hBytes, hOffset, List.drop_left]
  have hPosition : baseLsn +
      (leftover ++ encodeAll before).length = record.lsn := by
    omega
  rw [hPosition]
  exact decodeHead_toBytes hEncodable _

/- A record with an image above the bound is not believed. -/
theorem decodeHead_oversized
    (hFits : Fits record.headerFields)
    (hLarge : maxImageBytes < record.afterImage.length)
    (rest : Bytes)
    (position : Nat) :
    decodeHead (record.toBytes ++ rest) position = none := by
  have hHeader := LogRecord.unpack_toBytes hFits rest
  have hLong : ¬ (record.toBytes ++ rest).length <
      recordHeaderSize := by
    rw [List.length_append, record.length_toBytes,
      record.size_eq]
    omega
  unfold headerWidths at hHeader
  unfold decodeHead
  rw [if_neg hLong, hHeader]
  exact if_pos (.inr hLarge)

/-
  Whatever calls were made, on whatever file: the next LSN
  counts the bytes of the file and the staged ones above the
  base, every record whose images are within the bound
  decodes at its offset, and the records replay to what was
  asked for since the last checkpoint or reset.
-/
theorem log_replays
    (raw : Bytes)
    (baseLsn : Nat)
    (calls : List StreamCall) :
    ∃ wal, (runStream calls).run
        (LogFile.openAt raw baseLsn) = .ok () wal ∧
      wal.log.nextLsn = wal.log.baseLsn + wal.raw.length +
        (encodeAll wal.log.buffer).length ∧
      (∀ record ∈ wal.log.file, record.Encodable →
        decodeRecord wal.raw
            (record.lsn - wal.log.baseLsn)
            wal.log.baseLsn = some record) ∧
      (∀ record ∈ wal.log.content, record.Encodable →
        decodeRecord (wal.raw ++ encodeAll wal.log.buffer)
            (record.lsn - wal.log.baseLsn)
            wal.log.baseLsn = some record) ∧
      Replays (requests calls) wal.log.content := by
  rcases runStream_faithful (.openAt raw baseLsn) calls with
    ⟨hRun, hFaithful⟩
  refine ⟨_, hRun, ?_, ?_, ?_, hFaithful.replays⟩
  all_goals
    generalize streamAfter (LogFile.openAt raw baseLsn)
      calls = wal at hFaithful
  · rw [hFaithful.placed.nextLsn_eq, totalSize_append,
      length_encodeAll]
    unfold LogFile.raw
    rw [List.length_append, length_encodeAll]
    omega
  · intro record hMem hEncodable
    exact decodeRecord_encodeAll hFaithful.placed.run hMem
      hEncodable
  · intro record hMem hEncodable
    have hBytes : wal.raw ++ encodeAll wal.log.buffer =
        wal.leftover ++ encodeAll wal.log.content := by
      unfold LogFile.raw encodeAll WriteAheadLog.content
      rw [List.flatMap_append, List.append_assoc]
    rw [hBytes]
    exact decodeRecord_encodeAll hFaithful.placed.stream hMem
      hEncodable

/- One update is appended, with this after-image. -/
def appendCalls (image : Bytes) : List StreamCall :=
  [.log (.append .update 1 2 [] image)]

theorem appended_undecodable
    {image : Bytes}
    (hLarge : maxImageBytes < image.length)
    (hFits : image.length < 256 ^ 4) :
    ∃ wal record,
      (runStream (appendCalls image)).run
          (LogFile.openAt [] 0) = .ok () wal ∧
      wal.log.buffer = [record] ∧ record.lsn = 0 ∧
      decodeRecord (wal.raw ++ encodeAll wal.log.buffer)
          (record.lsn - wal.log.baseLsn) wal.log.baseLsn =
        none := by
  let record : LogRecord Bytes :=
    ⟨0, 0, 1, .update, 2, [], image⟩
  refine ⟨streamAfter (LogFile.openAt [] 0)
    (appendCalls image), record,
    (runStream_faithful (.openAt [] 0) _).1, rfl, rfl, ?_⟩
  have hFields : record.headerFields =
      [(8, 0), (8, 0), (8, 1), (1, 1), (1, 0), (2, 0), (4, 2),
        (4, 0), (4, image.length)] := rfl
  have hHeader : Fits record.headerFields := by
    intro field hMem
    rw [hFields] at hMem
    simp only [List.mem_cons, List.not_mem_nil, or_false]
      at hMem
    rcases hMem with rfl | rfl | rfl | rfl | rfl | rfl | rfl |
      rfl | rfl
    all_goals first
      | exact hFits
      | decide
  have hNone := decodeHead_oversized hHeader hLarge [] 0
  rw [List.append_nil] at hNone
  have hBytes : (streamAfter (LogFile.openAt [] 0)
      (appendCalls image)).raw ++
      encodeAll (streamAfter (LogFile.openAt [] 0)
        (appendCalls image)).log.buffer =
        record.toBytes := by
    change ([] ++ encodeAll []) ++ encodeAll [record] = _
    simp [encodeAll]
  rw [hBytes]
  exact hNone

/- An image one byte above the bound: the record is in the
   log, and nothing decodes there. -/
theorem log_replays_oversized :
    ∃ wal record,
      (runStream (appendCalls
          (List.replicate (maxImageBytes + 1) 0))).run
          (LogFile.openAt [] 0) = .ok () wal ∧
      wal.log.buffer = [record] ∧ record.lsn = 0 ∧
      decodeRecord (wal.raw ++ encodeAll wal.log.buffer)
          (record.lsn - wal.log.baseLsn) wal.log.baseLsn =
        none :=
  appended_undecodable
    (by rw [List.length_replicate]; exact Nat.lt_succ_self _)
    (by rw [List.length_replicate]; decide)

end Wal

end ChenDB
