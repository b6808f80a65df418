import ChenDB.Library.Buffer
import ChenDB.Library.StateExcept
import ChenDB.Storage.Page

/-
  Slotted pages as the bytes they are: a header of packed
  fields, a slot directory that grows up and a record region
  that grows down.
-/

--
-- Buffers and Fields
--

namespace ChenDB

namespace Storage

open Library.Buffer Library.Struct

/- A page's own buffer. -/
structure PageBuffer where
  pageId : PageId
  buf : Bytes
  pageSize : Nat
deriving DecidableEq, Repr

/- What a page operation raises: an error of the engine, or
   `struct.error` from a field that does not fit. -/
inductive PageRaise where
  | engine (raised : EngineError)
  | structError
deriving DecidableEq, Repr

abbrev PageM := EStateM PageRaise PageBuffer

/- The values of `PageType`. -/
def PageType.value : PageType → Nat
  | .free => 0
  | .metaPage => 1
  | .heap => 2
  | .schema => 3
  | .btreeInternal => 4
  | .btreeLeaf => 5
  | .overflow => 6

/- Byte offsets of the header's fields. -/
def offPageType : Nat := 12
def offSlotCount : Nat := 14
def offFreeStart : Nat := 16
def offFreeEnd : Nat := 18
def offNextPage : Nat := 20

/- `unpack_from` of one unsigned field. -/
def getField (width offset : Nat) : PageM Nat := do
  let page ← get
  if page.buf.length < offset + width then
    throw .structError
  else
    return decode (slice page.buf offset (offset + width))

/- `pack_into` of one unsigned field. -/
def setField
    (width offset : Nat)
    (value : Int) : PageM Unit := do
  let page ← get
  if page.buf.length < offset + width ∨
      value < 0 ∨ 256 ^ width ≤ value.toNat then
    throw .structError
  else
    set { page with
      buf := overwriteAt page.buf offset
        (encode width value.toNat) }

/- `self._buf[start:stop] = written`. -/
def assign
    (start stop : Int)
    (written : Bytes) : PageM Unit :=
  modify fun page => { page with
    buf := assignSlice page.buf start stop written }

/- `bytes(count)`. -/
def zeroBytes (count : Int) : PageM Bytes :=
  if count < 0 then
    throw (.engine (.valueError "negative count"))
  else
    return List.replicate count.toNat 0

namespace PageBuffer

def slotCount : PageM Nat := getField 2 offSlotCount

def setSlotCount (value : Int) : PageM Unit :=
  setField 2 offSlotCount value

def freeStart : PageM Nat := getField 2 offFreeStart

def setFreeStart (value : Int) : PageM Unit :=
  setField 2 offFreeStart value

def freeEnd : PageM Nat := getField 2 offFreeEnd

def setFreeEnd (value : Int) : PageM Unit :=
  setField 2 offFreeEnd value

/- A new, empty page. -/
def create
    (pageId : PageId)
    (pageType : PageType)
    (pageSize : Nat) : Except PageRaise PageBuffer :=
  match validatePageSize pageSize with
  | .error raised => .error (.engine raised)
  | .ok _ =>
    match (do
        setField 1 offPageType pageType.value
        setSlotCount 0
        setFreeStart pageHeaderSize
        setFreeEnd pageSize
        setField 4 offNextPage invalidPageId :
          PageM Unit).run
        { pageId := pageId
          buf := List.replicate pageSize 0
          pageSize := pageSize } with
    | .ok _ page => .ok page
    | .error raised _ => .error raised

/- Largest record this page can ever hold. -/
def maxPayloadSize (page : PageBuffer) : Int :=
  page.pageSize - pageHeaderSize - slotSize

/- Contiguous unused bytes. -/
def freeSpace : PageM Int := do
  let stop ← freeEnd
  let start ← freeStart
  return stop - start

--
-- The Slot Directory
--

def slotOffset (slotId : Nat) : Nat :=
  pageHeaderSize + slotId * slotSize

/- Offset and length of a slot; a tombstone has offset 0. -/
def readSlot (slotId : Nat) : PageM (Nat × Nat) := do
  let page ← get
  let start := slotOffset slotId
  if page.buf.length < start + slotSize then
    throw .structError
  else
    return (decode (slice page.buf start (start + 2)),
      decode (slice page.buf (start + 2) (start + 4)))

def writeSlot
    (slotId : Nat)
    (offset : Int)
    (length : Nat) : PageM Unit := do
  let page ← get
  let start := slotOffset slotId
  if page.buf.length < start + slotSize ∨
      offset < 0 ∨ 65536 ≤ offset ∨ 65536 ≤ length then
    throw .structError
  else
    set { page with
      buf := overwriteAt page.buf start
        (pack [(2, offset.toNat), (2, length)]) }

/- The scan of `_find_dead_slot`, with this many slots left
   from this one on. -/
def findDeadFrom : Nat → Nat → PageM (Option Nat)
  | 0, _ => return none
  | left + 1, slotId => do
      let (offset, _) ← readSlot slotId
      if offset = 0 then
        return some slotId
      else
        findDeadFrom left (slotId + 1)

/- First tombstoned slot. -/
def findDeadSlot : PageM (Option Nat) := do
  findDeadFrom (← slotCount) 0

/- The loop of `reclaimable_space`, from the last slot down:
   live bytes, trailing tombstones, and whether the slots
   met so far were all dead. -/
def countSlots :
    Nat → Nat → Nat → Bool → PageM (Nat × Nat)
  | 0, liveBytes, trailingDead, _ =>
    return (liveBytes, trailingDead)
  | slotId + 1, liveBytes, trailingDead, counting => do
      let (offset, length) ← readSlot slotId
      if offset = 0 then
        countSlots slotId liveBytes
          (if counting then trailingDead + 1
            else trailingDead)
          counting
      else
        countSlots slotId (liveBytes + length) trailingDead
          false

/- Bytes that `compact` would return. -/
def reclaimableSpace : PageM Int := do
  let (liveBytes, trailingDead) ←
    countSlots (← slotCount) 0 0 true
  let recordRegion : Int := (← get).pageSize - (← freeEnd)
  return recordRegion - liveBytes + trailingDead * slotSize

/- Bytes of free space an insert requires right now. -/
def spaceNeededFor (length : Nat) : PageM Nat := do
  if (← findDeadSlot).isSome then
    return length
  else
    return length + slotSize

def wouldFitAfterCompaction (length : Nat) : PageM Bool := do
  let needed ← spaceNeededFor length
  let free ← freeSpace
  let reclaimable ← reclaimableSpace
  return (needed : Int) ≤ free + reclaimable

--
-- Record Operations
--

/- Store a payload in the free region; `none` when it does
   not fit. -/
def insert (payload : Bytes) : PageM (Option Nat) := do
  let length := payload.length
  let page ← get
  if (length : Int) > page.maxPayloadSize then
    throw (.engine (.recordTooLarge
      (s!"record of {length} bytes exceeds the " ++
        s!"{page.maxPayloadSize}-byte limit for a " ++
        s!"{page.pageSize}-byte page")))
  else
    let dead ← findDeadSlot
    let needed :=
      if dead.isSome then length else length + slotSize
    let free ← freeSpace
    if (needed : Int) > free then
      return none
    else
      let newFreeEnd : Int := (← freeEnd) - length
      assign newFreeEnd (newFreeEnd + length) payload
      match dead with
      | some slotId =>
        writeSlot slotId newFreeEnd length
        setFreeEnd newFreeEnd
        return some slotId
      | none =>
        let slotId ← slotCount
        setSlotCount (slotId + 1)
        setFreeStart ((← freeStart) + slotSize)
        writeSlot slotId newFreeEnd length
        setFreeEnd newFreeEnd
        return some slotId

/- Insert so that the payload is slot `index`: the slots
   from there on are renumbered. -/
def insertAt
    (index : Int)
    (payload : Bytes) : PageM Bool := do
  let length := payload.length
  let page ← get
  if (length : Int) > page.maxPayloadSize then
    throw (.engine (.recordTooLarge
      (s!"index entry of {length} bytes exceeds the " ++
        s!"{page.maxPayloadSize}-byte limit for a " ++
        s!"{page.pageSize}-byte page")))
  else
    let count ← slotCount
    if index < 0 ∨ (count : Int) < index then
      throw (.engine (.corruptPage
        (s!"page {page.pageId}: slot index {index} outside " ++
          s!"[0, {count}]")))
    else
      let free ← freeSpace
      if ((length + slotSize : Nat) : Int) > free then
        return false
      else
        let newFreeEnd : Int := (← freeEnd) - length
        assign newFreeEnd (newFreeEnd + length) payload
        let start := slotOffset index.toNat
        let stop := slotOffset count
        -- The tail of the directory moves up one slot.
        assign (start + slotSize : Nat)
          (stop + slotSize : Nat)
          (slice (← get).buf start stop)
        setSlotCount (count + 1)
        setFreeStart ((← freeStart) + slotSize)
        writeSlot index.toNat newFreeEnd length
        setFreeEnd newFreeEnd
        return true

/- Remove slot `index`: the later ones move down. -/
def deleteAt (index : Int) : PageM Bool := do
  let count ← slotCount
  if index < 0 ∨ (count : Int) ≤ index then
    return false
  else
    let start := slotOffset index.toNat
    let stop := slotOffset count
    assign start (stop - slotSize : Nat)
      (slice (← get).buf (start + slotSize) stop)
    let oldFreeStart ← freeStart
    let newFreeStart : Int := oldFreeStart - slotSize
    assign newFreeStart oldFreeStart
      (List.replicate slotSize 0)
    setSlotCount ((count : Int) - 1)
    setFreeStart newFreeStart
    return true

/- Drop every slot and every payload. -/
def clearRecords : PageM Unit := do
  let page ← get
  let zeros ← zeroBytes
    ((page.pageSize : Int) - pageHeaderSize)
  assign pageHeaderSize page.pageSize zeros
  setSlotCount 0
  setFreeStart pageHeaderSize
  setFreeEnd page.pageSize

/- The payload of a slot; `none` when the slot is dead. -/
def read (slotId : Int) : PageM (Option Bytes) := do
  let count ← slotCount
  if slotId < 0 ∨ (count : Int) ≤ slotId then
    return none
  else
    let (offset, length) ← readSlot slotId.toNat
    if offset = 0 then
      return none
    else
      return some
        (slice (← get).buf offset (offset + length))

/- Replace a payload in place, same length only. -/
def overwrite
    (slotId : Int)
    (payload : Bytes) : PageM Bool := do
  let count ← slotCount
  if slotId < 0 ∨ (count : Int) ≤ slotId then
    return false
  else
    let (offset, length) ← readSlot slotId.toNat
    if length = 0 then
      return false
    else if payload.length ≠ length then
      throw (.engine (.valueError
        (s!"slot {slotId} holds {length} bytes; " ++
          s!"refusing to overwrite it with " ++
          s!"{payload.length}. A record cannot change " ++
          "size in place: its record id is what indexes " ++
          "point at.")))
    else
      assign offset (offset + length : Nat) payload
      return true

/- Tombstone a slot; `false` when it was already dead. -/
def delete (slotId : Int) : PageM Bool := do
  let count ← slotCount
  if slotId < 0 ∨ (count : Int) ≤ slotId then
    return false
  else
    let (offset, _) ← readSlot slotId.toNat
    if offset = 0 then
      return false
    else
      writeSlot slotId.toNat 0 0
      return true

--
-- Compaction
--

/- The live records, with this many slots left from this
   one on. -/
def liveFrom : Nat → Nat → PageM (List (Nat × Bytes))
  | 0, _ => return []
  | left + 1, slotId => do
      let (offset, length) ← readSlot slotId
      let page ← get
      let rest ← liveFrom left (slotId + 1)
      if offset = 0 then
        return rest
      else
        return (slotId,
          slice page.buf offset (offset + length)) :: rest

/- Slide these records together below the cursor. -/
def slide : List (Nat × Bytes) → Int → PageM Int
  | [], cursor => return cursor
  | (slotId, payload) :: rest, cursor => do
      let cursor := cursor - payload.length
      assign cursor (cursor + payload.length) payload
      writeSlot slotId cursor payload.length
      slide rest cursor

/- The loop of `_trim_trailing_dead_slots`. -/
def trimCount : Nat → PageM Nat
  | 0 => return 0
  | count + 1 => do
      let (offset, _) ← readSlot count
      if offset = 0 then
        trimCount count
      else
        return count + 1

/- Shrink the slot directory past its trailing tombstones. -/
def trimTrailingDeadSlots : PageM Unit := do
  let count ← slotCount
  let newCount ← trimCount count
  if newCount = count then
    return
  else
    let newFreeStart := slotOffset newCount
    let oldFreeStart ← freeStart
    let zeros ← zeroBytes
      ((oldFreeStart : Int) - newFreeStart)
    assign newFreeStart oldFreeStart zeros
    setSlotCount newCount
    setFreeStart newFreeStart

/- Slide live records together; the bytes this adds to the
   free region. -/
def compact : PageM Int := do
  let before ← freeSpace
  let live ← liveFrom (← slotCount) 0
  let page ← get
  let oldFreeEnd ← freeEnd
  let zeros ← zeroBytes
    ((page.pageSize : Int) - oldFreeEnd)
  assign oldFreeEnd page.pageSize zeros
  let cursor ← slide live page.pageSize
  setFreeEnd cursor
  trimTrailingDeadSlots
  return (← freeSpace) - before

--
-- Validation
--

/- The free-space pointers agree. -/
def validateHeader : PageM Unit := do
  let page ← get
  let count ← slotCount
  let expected := slotOffset count
  let start ← freeStart
  if start ≠ expected then
    throw (.engine (.corruptPage
      (s!"page {page.pageId}: free_start={start} but " ++
        s!"{count} slots imply {expected}")))
  else
    let stop ← freeEnd
    if stop < expected ∨ page.pageSize < stop then
      throw (.engine (.corruptPage
        (s!"page {page.pageId}: free_end={stop} outside " ++
          s!"[{expected}, {page.pageSize}]")))
    else
      return

/- The walk of `validate` over the slot directory. -/
def validateFrom : Nat → Nat → PageM Unit
  | 0, _ => return
  | left + 1, slotId => do
      let (offset, length) ← readSlot slotId
      if offset = 0 then
        validateFrom left (slotId + 1)
      else
        let page ← get
        let stop ← freeEnd
        if offset < stop ∨
            page.pageSize < offset + length then
          throw (.engine (.corruptPage
            (s!"page {page.pageId}: slot {slotId} points to " ++
              s!"[{offset}, {offset + length}) outside the " ++
              s!"record region [{stop}, {page.pageSize})")))
        else
          validateFrom left (slotId + 1)

/- Check every invariant of the page. -/
def validate : PageM Unit := do
  validateHeader
  let count ← slotCount
  validateFrom count 0

end PageBuffer

end Storage

end ChenDB
