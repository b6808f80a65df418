import ChenDB.Storage.PageMap
import ChenDB.Storage.Reopen

/-
  LSNs are stamped into pages that are encoded already, at
  offsets written down apart from the layouts, and the
  checksum is brought back into line.
-/

--
-- Stamping
--

namespace ChenDB

namespace Storage

open Library.Buffer Library.Struct Library.StateExcept

/- `pack_into` of one unsigned field. -/
def packInto
    (width offset value : Nat)
    (buf : Bytes) : Except PageRaise Bytes :=
  if buf.length < offset + width ∨ 256 ^ width ≤ value then
    .error .structError
  else .ok (overwriteAt buf offset (encode width value))

def metaLsnOffset : Nat := 60

/- Set the LSN of an encoded meta page. -/
def stampMetaLsn
    (raw : Bytes)
    (lsn : Nat) : Except PageRaise Bytes := do
  let buf ← packInto 8 metaLsnOffset lsn raw
  packInto 4 metaChecksumOffset
    (crc32 (buf.take metaChecksumOffset)) buf

def offChecksum : Nat := 0
def offLsn : Nat := 4

/- The checksum covers everything behind itself. -/
def checksumCoverageStart : Nat := 4

/- Set the LSN of an encoded slotted page. -/
def stampLsn
    (raw : Bytes)
    (lsn : Nat) : Except PageRaise Bytes := do
  let buf ← packInto 8 offLsn lsn raw
  packInto 4 offChecksum
    (crc32 (buf.drop checksumCoverageStart)) buf

namespace PageBuffer

/- `Page.__init__`. -/
def init
    (pageId : PageId)
    (buf : Bytes)
    (pageSize : Nat) : Except PageRaise PageBuffer :=
  if buf.length ≠ pageSize then
    .error (.engine (.corruptPage
      (s!"page {pageId}: buffer is {buf.length} bytes, " ++
        s!"expected {pageSize}")))
  else
    .ok { pageId := pageId, buf := buf, pageSize := pageSize }

def computeChecksum (page : PageBuffer) : Nat :=
  crc32 (page.buf.drop checksumCoverageStart)

def verifyChecksum : PageM Unit := do
  let stored ← getField 4 offChecksum
  let page ← get
  let actual := page.computeChecksum
  if stored ≠ actual then
    throw (.engine (.checksumMismatch
      (s!"page {page.pageId}: checksum mismatch (stored " ++
        s!"0x{hex8 stored}, computed 0x{hex8 actual})")))
  else
    return

/- Decode a page, checking it unless told not to. -/
def fromBytes
    (pageId : PageId)
    (raw : Bytes)
    (pageSize : Nat)
    (verify header : Bool) : Except PageRaise PageBuffer :=
  match init pageId raw pageSize with
  | .error raised => .error raised
  | .ok page =>
    match (do
        if verify then verifyChecksum
        if header then validateHeader : PageM Unit).run
        page with
    | .ok _ page => .ok page
    | .error raised _ => .error raised

end PageBuffer

--
-- One Field Written
--

section Packing

variable {buf packed : Bytes} {width offset value : Nat}

theorem packInto_run
    (buf : Bytes)
    (offset : Nat)
    (hLength : offset + width ≤ buf.length)
    (hValue : value < 256 ^ width) :
    ∃ packed, packInto width offset value buf = .ok packed ∧
      Wrote buf offset (offset + width)
        (encode width value) packed := by
  refine ⟨_, ?_, wrote_overwriteAt
    (by rw [length_encode]) hLength⟩
  unfold packInto
  rw [if_neg (by omega)]

/- Bytes outside what was written are as they were. -/
theorem getElem?_of_wrote
    {start stop : Nat}
    {written : Bytes}
    (hWrote : Wrote buf start stop written packed)
    {index : Nat}
    (hApart : index < start ∨ stop ≤ index) :
    packed[index]? = buf[index]? := by
  have hSlice := hWrote.outside index (index + 1)
    (by omega)
  have hFirst := congrArg (fun part : Bytes => part[0]?) hSlice
  simpa [getElem?_slice] using hFirst

end Packing

--
-- The Meta Page and Its Bytes
--

/- The bytes of a meta page that is accepted. -/
structure DecodesTo
    (raw : Bytes)
    (page : MetaPage) : Prop where
  length : metaHeaderSize ≤ raw.length
  magic : raw.take 16 = magic
  fields : unpack metaWidths (raw.drop 16) =
    page.headerFields.map Prod.snd ++
      [crc32 (raw.take metaChecksumOffset)]
  version : page.formatVersion = formatVersion
  pages : 1 ≤ page.pageCount

variable {raw : Bytes} {page : MetaPage}

theorem fromBytes_iff :
    MetaPage.fromBytes true raw = .ok page ↔
      DecodesTo raw page := by
  constructor
  · intro hOk
    unfold MetaPage.fromBytes at hOk
    split at hOk
    · cases hOk
    rename_i hLength
    split at hOk
    · rename_i hFields
      split at hOk
      · cases hOk
      rename_i hMagic
      split at hOk
      · cases hOk
      rename_i hVersion
      simp only [true_and] at hOk
      split at hOk
      · cases hOk
      rename_i hChecksum
      split at hOk
      · cases hOk
      rename_i hPages
      cases hOk
      exact
        { length := Nat.le_of_not_lt hLength
          magic := not_not.mp hMagic
          fields := by
            rw [not_not.mp hChecksum]
            exact hFields
          version := not_not.mp hVersion
          pages := Nat.le_of_not_lt hPages }
    · cases hOk
  · intro hDecodes
    have hFields := hDecodes.fields
    simp only [MetaPage.headerFields, List.map_cons,
      List.map_nil, List.cons_append, List.nil_append]
      at hFields
    unfold MetaPage.fromBytes
    rw [if_neg (Nat.not_lt.mpr hDecodes.length), hFields]
    simp only [true_and]
    rw [if_neg (not_not.mpr hDecodes.magic),
      if_neg (not_not.mpr hDecodes.version),
      if_neg (not_not.mpr rfl),
      if_neg (Nat.not_lt.mpr hDecodes.pages)]

/- A meta page is the magic, the fields with their checksum,
   and zeros. -/
theorem toBytes_eq (page : MetaPage) :
    page.toBytes = (magic ++ pack page.headerFields) ++
      (encode 4 (crc32 (magic ++ pack page.headerFields)) ++
        List.replicate (page.pageSize - metaHeaderSize) 0) := by
  unfold MetaPage.toBytes
  exact List.append_assoc _ _ _

theorem pack_checksum
    (page : MetaPage)
    (checksum : Nat) :
    pack (page.headerFields ++ [(4, checksum)]) =
      pack page.headerFields ++ encode 4 checksum := by
  simp only [MetaPage.headerFields, List.cons_append,
    List.nil_append, pack, List.append_nil, List.append_assoc]

/- What is packed is decoded, behind the magic and in front of
   whatever fills the page. -/
theorem toBytes_decodesTo
    (hFits : Fits page.headerFields)
    (hVersion : page.formatVersion = formatVersion)
    (hPages : 1 ≤ page.pageCount) :
    DecodesTo page.toBytes page := by
  have hBytes := toBytes_eq page
  have hCovered :
      (magic ++ pack page.headerFields).length = 84 := by
    rw [List.length_append, length_pack]
    rfl
  generalize hSum :
    crc32 (magic ++ pack page.headerFields) = checksum
    at hBytes
  have hChecksum : checksum < 256 ^ 4 := by
    rw [← hSum]
    exact crc32_lt _
  have hTake : page.toBytes.take 84 =
      magic ++ pack page.headerFields := by
    rw [hBytes]
    exact List.take_left' hCovered
  have hAll :
      Fits (page.headerFields ++ [(4, checksum)]) := by
    intro field hMem
    rcases List.mem_append.mp hMem with hMem | hMem
    · exact hFits field hMem
    · rw [List.mem_singleton.mp hMem]
      exact hChecksum
  have hDrop : page.toBytes.drop 16 =
      pack (page.headerFields ++ [(4, checksum)]) ++
        List.replicate (page.pageSize - metaHeaderSize) 0 := by
    rw [hBytes, pack_checksum]
    simp only [List.append_assoc]
    exact List.drop_left' rfl
  exact
    { length := by
        rw [List.length_append] at hCovered
        rw [hBytes, List.length_append, List.length_append,
          hCovered, List.length_append, length_encode]
        unfold metaHeaderSize
        omega
      magic := by
        rw [hBytes, List.append_assoc]
        exact List.take_left' rfl
      fields := by
        rw [hDrop]
        have hHere : page.toBytes.take metaChecksumOffset =
            magic ++ pack page.headerFields := hTake
        rw [hHere, hSum]
        exact (unpack_pack hAll _).trans (List.map_append ..)
      version := hVersion
      pages := hPages }

/- Each field is the slice at its offset. -/
theorem unpack_metaWidths (raw : Bytes) :
    unpack metaWidths (raw.drop 16) =
      [ decode (slice raw 16 20), decode (slice raw 20 24),
        decode (slice raw 24 28), decode (slice raw 28 32),
        decode (slice raw 32 36), decode (slice raw 36 40),
        decode (slice raw 40 44), decode (slice raw 44 48),
        decode (slice raw 48 52), decode (slice raw 52 56),
        decode (slice raw 56 60), decode (slice raw 60 68),
        decode (slice raw 68 76), decode (slice raw 76 80),
        decode (slice raw 80 84), decode (slice raw 84 88) ] := by
  simp only [metaWidths, unpack, List.drop_drop, slice]

--
-- A Stamped Meta Page
--

/- One field and the checksum written: what the pages of both
   kinds share. -/
theorem writes_apart
    {buf stamped first second : Bytes}
    {start stop low high : Nat}
    (hFirst : Wrote raw start stop first buf)
    (hSecond : Wrote buf low high second stamped)
    {index : Nat}
    (hApart : index < start ∨ stop ≤ index)
    (hOther : index < low ∨ high ≤ index) :
    stamped[index]? = raw[index]? :=
  (getElem?_of_wrote hSecond hOther).trans
    (getElem?_of_wrote hFirst hApart)

/- A stamped meta page is the page with the LSN, and no byte
   but those of the LSN and of the checksum is another. -/
theorem stampMetaLsn_spec
    {lsn : Nat}
    (hDecodes : DecodesTo raw page)
    (hLsn : lsn < 2 ^ 64) :
    ∃ stamped, stampMetaLsn raw lsn = .ok stamped ∧
      DecodesTo stamped { page with lsn := lsn } ∧
      readMetaLsn stamped = lsn ∧
      stamped.length = raw.length ∧
      ∀ index, (index < 60 ∨ 68 ≤ index) →
        (index < 84 ∨ 88 ≤ index) →
          stamped[index]? = raw[index]? := by
  have hLength : 88 ≤ raw.length := hDecodes.length
  have hFits : lsn < 256 ^ 8 := hLsn
  rcases packInto_run raw 60 (by omega) hFits with
    ⟨buf, hFirst, hLsnWrote⟩
  have hBuf : buf.length = raw.length := hLsnWrote.length
  have hSum := crc32_lt (buf.take 84)
  rcases packInto_run buf 84 (by omega) hSum with
    ⟨stamped, hSecond, hSumWrote⟩
  have hSlice : ∀ first last,
      (last ≤ 60 ∨ 68 ≤ first) → last ≤ 84 →
        slice stamped first last = slice raw first last := by
    intro first last hApart hLast
    rw [hSumWrote.outside first last (.inl hLast),
      hLsnWrote.outside first last hApart]
  have hLsnSlice :
      decode (slice stamped 60 68) = lsn := by
    rw [hSumWrote.outside 60 68 (by omega), hLsnWrote.inside,
      decode_encode hFits]
  have hTake : stamped.take 84 = buf.take 84 :=
    hSumWrote.outside 0 84 (by omega)
  have hSumSlice : decode (slice stamped 84 88) =
      crc32 (stamped.take 84) := by
    rw [hSumWrote.inside, decode_encode hSum, hTake]
  refine ⟨stamped, ?_, ?_, ?_, ?_, ?_⟩
  · unfold stampMetaLsn metaLsnOffset
    rw [hFirst]
    exact hSecond
  · have hFields := hDecodes.fields
    rw [unpack_metaWidths] at hFields
    simp only [MetaPage.headerFields, List.map_cons,
      List.map_nil, List.cons_append, List.nil_append,
      List.cons.injEq, and_true] at hFields
    exact
      { length := by
          rw [hSumWrote.length, hBuf]
          exact hDecodes.length
        magic := by
          have hMagic := hSlice 0 16 (by omega) (by omega)
          exact hMagic.trans hDecodes.magic
        fields := by
          rw [unpack_metaWidths]
          simp only [MetaPage.headerFields, List.map_cons,
            List.map_nil, List.cons_append, List.nil_append,
            List.cons.injEq, and_true]
          simp (disch := omega) only [hSlice]
          rcases hFields with ⟨hVersion, hSize, hCount, hFree,
            hTables, hTables', hColumns, hColumns', hIndexes,
            hIndexes', hObject, _, hCheckpoint, hXid, hFlags, _⟩
          exact ⟨hVersion, hSize, hCount, hFree, hTables,
            hTables', hColumns, hColumns', hIndexes, hIndexes',
            hObject, hLsnSlice, hCheckpoint, hXid, hFlags,
            hSumSlice⟩
        version := hDecodes.version
        pages := hDecodes.pages }
  · unfold readMetaLsn metaHeaderSize
    rw [if_neg (by rw [hSumWrote.length, hBuf]; omega)]
    exact hLsnSlice
  · rw [hSumWrote.length, hBuf]
  · intro index hApart hOther
    exact writes_apart hLsnWrote hSumWrote hApart hOther

--
-- A Stamped Slotted Page
--

/- Two buffers of one page that differ in front of the page's
   type only, where the checksum and the LSN are. -/
structure SameBody (before after : PageBuffer) : Prop where
  pageId : after.pageId = before.pageId
  pageSize : after.pageSize = before.pageSize
  length : after.buf.length = before.buf.length
  slices : ∀ first last, 12 ≤ first →
    slice after.buf first last = slice before.buf first last

/- What returns on the one returns the same on the other, and
   leaves both as they are. -/
def Agree
    (before after : PageBuffer)
    {α : Type}
    (first second : PageM α) : Prop :=
  ∀ value state, first.run before = .ok value state →
    state = before ∧ second.run after = .ok value after

section Agreeing

variable {before after : PageBuffer} {α β : Type}

theorem Agree.pure (value : α) :
    Agree before after (pure value) (pure value) := by
  intro value state hRun
  cases hRun
  exact ⟨rfl, rfl⟩

theorem Agree.throw
    (raised : PageRaise)
    (second : PageM α) :
    Agree before after (throw raised) second := by
  intro value state hRun
  cases hRun

variable {first second : PageM α}

theorem Agree.bind
    {next follow : α → PageM β}
    (hFirst : Agree before after first second)
    (hNext : ∀ value,
      Agree before after (next value) (follow value)) :
    Agree before after (first >>= next)
      (second >>= follow) := by
  intro value state hRun
  rcases ok_of_run_bind hRun with
    ⟨middle, reached, hBegin, hEnd⟩
  rcases hFirst middle reached hBegin with ⟨rfl, hSecond⟩
  rcases hNext middle value state hEnd with ⟨rfl, hFollow⟩
  exact ⟨rfl, run_bind_of_ok hSecond hFollow⟩

theorem Agree.get
    {next follow : PageBuffer → PageM β}
    (hNext : Agree before after (next before)
      (follow after)) :
    Agree before after (MonadState.get >>= next)
      (MonadState.get >>= follow) :=
  fun value state hRun => hNext value state hRun

theorem Agree.ite
    {condition : Prop} [Decidable condition]
    {first' second' : PageM α}
    (hTrue : Agree before after first first')
    (hFalse : Agree before after second second') :
    Agree before after (if condition then first else second)
      (if condition then first' else second') := by
  split
  · exact hTrue
  · exact hFalse

theorem SameBody.refl (page : PageBuffer) :
    SameBody page page where
  pageId := rfl
  pageSize := rfl
  length := rfl
  slices _ _ _ := rfl

variable (hSame : SameBody before after)

include hSame in
theorem getField_agree
    {width offset : Nat}
    (hOffset : 12 ≤ offset) :
    Agree before after (getField width offset)
      (getField width offset) := by
  unfold getField
  refine .get ?_
  rw [hSame.length, hSame.slices _ _ hOffset]
  exact .ite (.throw _ _) (.pure _)

include hSame in
theorem readSlot_agree (slotId : Nat) :
    Agree before after (PageBuffer.readSlot slotId)
      (PageBuffer.readSlot slotId) := by
  have hStart : 12 ≤ PageBuffer.slotOffset slotId := by
    unfold PageBuffer.slotOffset pageHeaderSize
    omega
  unfold PageBuffer.readSlot
  refine .get ?_
  dsimp only
  rw [hSame.length, hSame.slices _ _ hStart,
    hSame.slices _ _ (by omega)]
  exact .ite (.throw _ _) (.pure _)

include hSame in
theorem validateHeader_agree :
    Agree before after PageBuffer.validateHeader
      PageBuffer.validateHeader := by
  unfold PageBuffer.validateHeader
  refine .get ?_
  refine .bind (getField_agree hSame (by decide)) ?_
  intro count
  refine .bind (getField_agree hSame (by decide)) ?_
  intro start
  refine .ite (.throw _ _) ?_
  refine .bind (getField_agree hSame (by decide)) ?_
  intro stop
  rw [hSame.pageSize]
  exact .ite (.throw _ _) (.pure _)

include hSame in
theorem validateFrom_agree
    (left slotId : Nat) :
    Agree before after (PageBuffer.validateFrom left slotId)
      (PageBuffer.validateFrom left slotId) := by
  induction left generalizing slotId with
  | zero => exact .pure ()
  | succ left ih =>
    unfold PageBuffer.validateFrom
    refine .bind (readSlot_agree hSame slotId) ?_
    rintro ⟨offset, length⟩
    refine .ite (ih (slotId + 1)) ?_
    refine .get ?_
    refine .bind (getField_agree hSame (by decide)) ?_
    intro stop
    rw [hSame.pageSize]
    exact .ite (.throw _ _) (ih (slotId + 1))

include hSame in
theorem validate_agree :
    Agree before after PageBuffer.validate
      PageBuffer.validate := by
  unfold PageBuffer.validate
  refine .bind (validateHeader_agree hSame) fun _ => ?_
  refine .bind (getField_agree hSame (by decide)) ?_
  exact fun count => validateFrom_agree hSame count 0

end Agreeing

section Slotted

variable {pageId : PageId} {raw : Bytes} {pageSize lsn : Nat}
variable {page : PageBuffer}

/- A header fits in front of the page's end. -/
theorem header_fits
    (hHeader : PageBuffer.validateHeader.run page =
      .ok () page) :
    24 ≤ page.pageSize := by
  unfold PageBuffer.validateHeader at hHeader
  rcases ok_of_run_bind hHeader with ⟨_, _, hGet, hHeader⟩
  cases hGet
  rcases ok_of_run_bind hHeader with ⟨count, _, _, hHeader⟩
  rcases ok_of_run_bind hHeader with ⟨start, _, _, hHeader⟩
  split at hHeader
  · cases hHeader
  rcases ok_of_run_bind hHeader with ⟨stop, _, _, hHeader⟩
  split at hHeader
  · cases hHeader
  · rename_i hStop
    unfold PageBuffer.slotOffset pageHeaderSize at hStop
    omega

/- Looking at the checksum changes nothing. -/
theorem verifyChecksum_keeps
    {reached : PageBuffer}
    (hRun : PageBuffer.verifyChecksum.run page =
      .ok () reached) :
    reached = page := by
  unfold PageBuffer.verifyChecksum at hRun
  rcases ok_of_run_bind hRun with ⟨stored, middle, hField, hRun⟩
  unfold getField at hField
  rcases ok_of_run_bind hField with ⟨_, _, hGet, hField⟩
  cases hGet
  split at hField
  · cases hField
  cases hField
  rcases ok_of_run_bind hRun with ⟨_, _, hGet, hRun⟩
  cases hGet
  dsimp only at hRun
  split at hRun
  · cases hRun
  · cases hRun
    rfl

theorem verifyChecksum_run
    (hLength : 4 ≤ page.buf.length)
    (hChecksum : slice page.buf 0 4 =
      encode 4 page.computeChecksum) :
    PageBuffer.verifyChecksum.run page = .ok () page := by
  unfold PageBuffer.verifyChecksum
  refine run_bind_of_ok (getField_run hLength
    (crc32_lt _) hChecksum) ?_
  refine run_bind_of_ok (EStateM.run_get page) ?_
  have hEqual : ¬ crc32 (page.buf.drop checksumCoverageStart) ≠
      page.computeChecksum := not_not.mpr rfl
  dsimp only
  rw [if_neg hEqual]
  rfl

/- What a page went through that was decoded with both of its
   checks. -/
theorem fromBytes_ok
    (hOk : PageBuffer.fromBytes pageId raw pageSize true true =
      .ok page) :
    page = ⟨pageId, raw, pageSize⟩ ∧ raw.length = pageSize ∧
      PageBuffer.validateHeader.run page = .ok () page := by
  unfold PageBuffer.fromBytes PageBuffer.init at hOk
  by_cases hLength : raw.length = pageSize
  · rw [if_neg (not_not.mpr hLength)] at hOk
    simp only [if_true] at hOk
    split at hOk
    · rename_i value checked hRun
      cases hOk
      rcases ok_of_run_bind hRun with
        ⟨_, middle, hChecksum, hHeader⟩
      rcases validateHeader_agree (SameBody.refl middle) () _
        hHeader with ⟨rfl, hHeader⟩
      rw [verifyChecksum_keeps hChecksum]
      rw [verifyChecksum_keeps hChecksum] at hHeader
      exact ⟨rfl, hLength, hHeader⟩
    · cases hOk
  · rw [if_pos hLength] at hOk
    cases hOk

theorem fromBytes_of_run
    (hChecksum : PageBuffer.verifyChecksum.run
      ⟨pageId, raw, raw.length⟩ = .ok () ⟨pageId, raw, raw.length⟩)
    (hHeader : PageBuffer.validateHeader.run
      ⟨pageId, raw, raw.length⟩ =
        .ok () ⟨pageId, raw, raw.length⟩) :
    PageBuffer.fromBytes pageId raw raw.length true true =
      .ok ⟨pageId, raw, raw.length⟩ := by
  unfold PageBuffer.fromBytes PageBuffer.init
  rw [if_neg (not_not.mpr rfl)]
  simp only [if_true]
  rw [run_bind_of_ok hChecksum hHeader]

theorem drop_eq_slice
    (bytes : Bytes)
    (start : Nat) :
    bytes.drop start = slice bytes start bytes.length := by
  unfold slice
  rw [List.take_of_length_le]
  rw [List.length_drop]

/- A stamped page passes whatever checks it passed, and no
   byte but those of the LSN and of the checksum is another. -/
theorem stampLsn_header
    (hHeader : PageBuffer.validateHeader.run
      ⟨pageId, raw, raw.length⟩ =
        .ok () ⟨pageId, raw, raw.length⟩)
    (hLsn : lsn < 2 ^ 64) :
    ∃ stamped page', stampLsn raw lsn = .ok stamped ∧
      PageBuffer.fromBytes pageId stamped raw.length true
        true = .ok page' ∧
      SameBody ⟨pageId, raw, raw.length⟩ page' ∧
      readLsn stamped = lsn ∧
      stamped.length = raw.length ∧
      ∀ index, 12 ≤ index →
        stamped[index]? = raw[index]? := by
  have hLength : 24 ≤ raw.length := header_fits hHeader
  have hFits : lsn < 256 ^ 8 := hLsn
  rcases packInto_run raw 4 (by omega) hFits with
    ⟨buf, hFirst, hLsnWrote⟩
  have hBuf : buf.length = raw.length := hLsnWrote.length
  have hSum := crc32_lt (buf.drop 4)
  rcases packInto_run buf 0 (by omega) hSum with
    ⟨stamped, hSecond, hSumWrote⟩
  have hStamped : stamped.length = raw.length :=
    hSumWrote.length.trans hBuf
  have hDrop : stamped.drop 4 = buf.drop 4 := by
    rw [drop_eq_slice, drop_eq_slice, hStamped, ← hBuf]
    exact hSumWrote.outside 4 _ (by omega)
  have hSame : SameBody ⟨pageId, raw, raw.length⟩
      ⟨pageId, stamped, stamped.length⟩ :=
    { pageId := rfl
      pageSize := hStamped
      length := hStamped
      slices := fun first last hFirst => by
        rw [hSumWrote.outside first last (by omega),
          hLsnWrote.outside first last (by omega)] }
  refine ⟨stamped, ⟨pageId, stamped, stamped.length⟩, ?_, ?_,
    hSame, ?_, hStamped, ?_⟩
  · unfold stampLsn offLsn
    rw [hFirst]
    exact hSecond
  · rw [← hStamped]
    refine fromBytes_of_run (verifyChecksum_run ?_ ?_)
      (validateHeader_agree hSame () _ hHeader).2
    · show 4 ≤ stamped.length
      omega
    · show slice stamped 0 4 = encode 4 (crc32 (stamped.drop 4))
      rw [hDrop]
      exact hSumWrote.inside
  · unfold readLsn
    rw [if_neg (by omega), hSumWrote.outside 4 12 (by omega),
      hLsnWrote.inside, decode_encode hFits]
  · intro index hIndex
    exact writes_apart hLsnWrote hSumWrote (by omega) (by omega)

end Slotted

--
-- Round Trips
--

/-
  A meta page of this format with a page in it is read back
  from its bytes, and what is stamped is accepted with the LSN
  it was stamped with.
-/
theorem stamped_pages_validate :
    (∀ page : MetaPage, Fits page.headerFields →
      validatePageSize page.pageSize = .ok () →
      page.formatVersion = formatVersion →
      1 ≤ page.pageCount →
        page.toBytes.length = page.pageSize ∧
          MetaPage.fromBytes true page.toBytes = .ok page) ∧
    (∀ (raw : Bytes) (page : MetaPage) (lsn : Nat),
      MetaPage.fromBytes true raw = .ok page →
      lsn < 2 ^ 64 →
        ∃ stamped, stampMetaLsn raw lsn = .ok stamped ∧
          MetaPage.fromBytes true stamped =
            .ok { page with lsn := lsn } ∧
          readMetaLsn stamped = lsn ∧
          stamped.length = raw.length ∧
          ∀ index, (index < 60 ∨ 68 ≤ index) →
            (index < 84 ∨ 88 ≤ index) →
              stamped[index]? = raw[index]?) ∧
    (∀ (pageId : PageId) (raw : Bytes) (pageSize : Nat)
        (page : PageBuffer) (lsn : Nat),
      PageBuffer.fromBytes pageId raw pageSize true true =
        .ok page →
      lsn < 2 ^ 64 →
        ∃ stamped page', stampLsn raw lsn = .ok stamped ∧
          PageBuffer.fromBytes pageId stamped pageSize true
            true = .ok page' ∧
          (PageBuffer.validate.run page = .ok () page →
            PageBuffer.validate.run page' = .ok () page') ∧
          readLsn stamped = lsn ∧
          stamped.length = raw.length ∧
          ∀ index, 12 ≤ index →
            stamped[index]? = raw[index]?) := by
  refine ⟨?_, ?_, ?_⟩
  · intro page hFits hSize hVersion hPages
    constructor
    · have hLarge := pageSize_bounds hSize
      rw [toBytes_eq, List.length_append, List.length_append,
        List.length_append, length_encode, length_pack,
        List.length_replicate]
      show 16 + 68 + (4 + (page.pageSize - 88)) = page.pageSize
      omega
    · exact fromBytes_iff.mpr
        (toBytes_decodesTo hFits hVersion hPages)
  · intro raw page lsn hOk hLsn
    rcases stampMetaLsn_spec (fromBytes_iff.mp hOk) hLsn with
      ⟨stamped, hStamp, hDecodes, hRead, hLength, hApart⟩
    exact ⟨stamped, hStamp, fromBytes_iff.mpr hDecodes, hRead,
      hLength, hApart⟩
  · intro pageId raw pageSize page lsn hOk hLsn
    rcases fromBytes_ok hOk with ⟨rfl, rfl, hHeader⟩
    rcases stampLsn_header hHeader hLsn with
      ⟨stamped, page', hStamp, hAgain, hSame, hRead, hLength,
        hApart⟩
    exact ⟨stamped, page', hStamp, hAgain,
      fun hValid => (validate_agree hSame () _ hValid).2,
      hRead, hLength, hApart⟩

/- A new heap page, once it is stamped. -/
theorem heapPage_accepted :
    ∃ raw page,
      PageBuffer.fromBytes 1 raw 512 true true = .ok page ∧
        PageBuffer.validate.run page = .ok () page := by
  rcases @create_run 512 1 .heap rfl (by decide) with
    ⟨buf, _, hEncodes⟩
  have hLength : buf.length = 512 := hEncodes.length
  have hHeader := validateHeader_run hEncodes
  have hValid := validate_run hEncodes
  rw [← hLength] at hHeader hValid
  rcases stampLsn_header hHeader (Nat.two_pow_pos 64) with
    ⟨raw, page, _, hOk, hSame, _⟩
  rw [hLength] at hOk
  exact ⟨raw, page, hOk, (validate_agree hSame () _ hValid).2⟩

/- The meta page of a new database and a new heap page, both
   stamped with 7. -/
theorem stamped_pages_validate_new :
    (∃ stamped,
      stampMetaLsn (MetaPage.create 4096).toBytes 7 =
        .ok stamped ∧
      MetaPage.fromBytes true stamped =
        .ok { MetaPage.create 4096 with lsn := 7 }) ∧
    ∃ raw stamped page, stampLsn raw 7 = .ok stamped ∧
      PageBuffer.fromBytes 1 stamped 512 true true =
        .ok page ∧
      PageBuffer.validate.run page = .ok () page ∧
      readLsn stamped = 7 := by
  rcases stamped_pages_validate with ⟨hRead, hMeta, hPage⟩
  constructor
  · have hBytes := (hRead (MetaPage.create 4096) (by decide)
      (by decide) rfl (by decide)).2
    rcases hMeta _ _ 7 hBytes (by decide) with
      ⟨stamped, hStamp, hDecodes, _⟩
    exact ⟨stamped, hStamp, hDecodes⟩
  · rcases heapPage_accepted with ⟨raw, held, hHeld, hValid⟩
    rcases hPage 1 raw 512 held 7 hHeld (by decide) with
      ⟨stamped, page, hStamp, hOk, hAgain, hLsn, _⟩
    exact ⟨raw, stamped, page, hStamp, hOk, hAgain hValid,
      hLsn⟩

/- A page count of zero fits its field and is refused. -/
theorem no_pages_refused :
    Fits { MetaPage.create 4096 with
        pageCount := 0 }.headerFields ∧
      validatePageSize 4096 = .ok () ∧
      MetaPage.fromBytes true
          { MetaPage.create 4096 with pageCount := 0 }.toBytes ≠
        .ok { MetaPage.create 4096 with pageCount := 0 } := by
  refine ⟨by decide, by decide, ?_⟩
  intro hOk
  exact absurd (fromBytes_iff.mp hOk).pages (by decide)

end Storage

end ChenDB
