import Mathlib.Data.List.Basic
import ChenDB.Storage.Meta

/-
  Slotted pages, over any type of record payload. A page is
  its decoded header and its slot directory: where a payload
  lies inside the record region never matters, only how much
  of the region is taken.
-/

--
-- Pages
--

namespace ChenDB

namespace Storage

open Wal (ByteImage)

/- What a page needs of a record: its length in bytes. -/
class Payload (π : Type) where
  size : π → Nat

instance : Payload Bytes where
  size := List.length

inductive PageType where
  | free
  | metaPage
  | heap
  | schema
  | btreeInternal
  | btreeLeaf
  | overflow
deriving DecidableEq, Repr

def pageHeaderSize : Nat := 24

def slotSize : Nat := 4

structure Page (π : Type) where
  pageSize : Nat
  pageType : PageType
  flags : Nat
  /- LSN of the last change to this page. -/
  lsn : Nat
  /- End of the slot directory. -/
  freeStart : Nat
  /- Start of the record-data region. -/
  freeEnd : Nat
  /- Next page in the owning chain. -/
  nextPageId : PageId
  /- The slot directory; a tombstone holds nothing. -/
  slots : List (Option π)
deriving DecidableEq, Repr

namespace Page

variable {π : Type}

/- A page that nothing was put in yet. -/
def blank
    (pageType : PageType)
    (pageSize : Nat) : Page π where
  pageSize := pageSize
  pageType := pageType
  flags := 0
  lsn := 0
  freeStart := pageHeaderSize
  freeEnd := pageSize
  nextPageId := invalidPageId
  slots := []

/- The page a run of zero bytes decodes to. -/
def ofZeros (pageSize : Nat) : Page π where
  pageSize := pageSize
  pageType := .free
  flags := 0
  lsn := 0
  freeStart := 0
  freeEnd := 0
  nextPageId := 0
  slots := []

/- Largest record a page can ever hold. -/
def maxPayloadSize (page : Page π) : Nat :=
  page.pageSize - pageHeaderSize - slotSize

def slotCount (page : Page π) : Nat :=
  page.slots.length

def freeSpace (page : Page π) : Nat :=
  page.freeEnd - page.freeStart

/- First tombstoned slot, so slot ids get reused. -/
def findDeadSlot (page : Page π) : Option Nat :=
  page.slots.findIdx? Option.isNone

/- Tombstones at the end of the slot directory. -/
def trailingDead (slots : List (Option π)) : Nat :=
  (slots.reverse.takeWhile Option.isNone).length

def read (page : Page π) (slotId : Nat) : Option π :=
  (page.slots[slotId]?).join

/- The live records in slot order. -/
def iterRecords (page : Page π) : List (Nat × π) :=
  page.slots.zipIdx.filterMap fun (slot, slotId) =>
    slot.map fun payload => (slotId, payload)

/- The bytes of the live records. -/
def liveBytes [Payload π] (page : Page π) : Nat :=
  (page.slots.map fun slot =>
    (slot.map Payload.size).getD 0).sum

/- Bytes a compaction would return to the free region. -/
def reclaimableSpace [Payload π] (page : Page π) : Nat :=
  page.pageSize - page.freeEnd - page.liveBytes +
    trailingDead page.slots * slotSize

/- Bytes of free space an insert requires right now. -/
def spaceNeededFor
    (page : Page π)
    (length : Nat) : Nat :=
  if page.findDeadSlot.isSome then length
  else length + slotSize

def wouldFitAfterCompaction [Payload π]
    (page : Page π)
    (length : Nat) : Bool :=
  page.spaceNeededFor length ≤
    page.freeSpace + page.reclaimableSpace

--
-- Record Operations
--

/-
  Store a payload; `none` when it does not fit the free
  region. A payload too large for any page raises.
-/
def insert [Payload π]
    (page : Page π)
    (payload : π) :
    Except EngineError (Option (Nat × Page π)) :=
  let length := Payload.size payload
  if length > page.maxPayloadSize then
    .error (.recordTooLarge
      (s!"record of {length} bytes exceeds the " ++
        s!"{page.maxPayloadSize}-byte limit for a " ++
        s!"{page.pageSize}-byte page"))
  else if page.spaceNeededFor length > page.freeSpace then
    .ok none
  else
    match page.findDeadSlot with
    | some slotId =>
      .ok (some (slotId, { page with
        slots := page.slots.set slotId (some payload)
        freeEnd := page.freeEnd - length }))
    | none =>
      .ok (some (page.slotCount, { page with
        slots := page.slots ++ [some payload]
        freeStart := page.freeStart + slotSize
        freeEnd := page.freeEnd - length }))

/-
  Replace a payload in place, same length only; `none` when
  the slot is dead or does not exist.
-/
def overwrite [Payload π]
    (page : Page π)
    (slotId : Nat)
    (payload : π) :
    Except EngineError (Option (Page π)) :=
  match page.read slotId with
  | none => .ok none
  | some held =>
    if Payload.size held = 0 then
      .ok none
    else if Payload.size payload ≠ Payload.size held then
      .error (.valueError
        (s!"slot {slotId} holds {Payload.size held} bytes; " ++
          s!"refusing to overwrite it with " ++
          s!"{Payload.size payload}. A record cannot change " ++
          "size in place: its record id is what indexes " ++
          "point at."))
    else
      .ok (some { page with
        slots := page.slots.set slotId (some payload) })

/- Tombstone a slot; `none` when it was already dead. -/
def delete
    (page : Page π)
    (slotId : Nat) : Option (Page π) :=
  (page.read slotId).map fun _ =>
    { page with slots := page.slots.set slotId none }

/- The slot directory without its trailing tombstones. -/
def trimTrailingDeadSlots
    (slots : List (Option π)) : List (Option π) :=
  slots.take (slots.length - trailingDead slots)

/-
  Slide live records together. Slot ids are preserved; only
  trailing tombstones leave the directory.
-/
def compact [Payload π] (page : Page π) : Page π :=
  let slots := trimTrailingDeadSlots page.slots
  { page with
    slots := slots
    freeStart :=
      if slots.length = page.slotCount then page.freeStart
      else pageHeaderSize + slots.length * slotSize
    freeEnd := page.pageSize - page.liveBytes }

end Page

/- Reject page sizes the format cannot represent. -/
def validatePageSize
    (pageSize : Nat) : Except EngineError Unit :=
  if pageSize < 256 ∨ 65536 < pageSize then
    .error (.valueError
      s!"page_size {pageSize} outside [256, 65536]")
  else if pageSize &&& (pageSize - 1) ≠ 0 then
    .error (.valueError
      s!"page_size {pageSize} must be a power of two")
  else .ok ()

/- A new, empty page. The end of its free space has 16 bits in
   the header, so the largest size goes through the check and
   then fails to be written there. -/
def Page.create
    {π : Type}
    (pageType : PageType)
    (pageSize : Nat) : Except EngineError (Page π) := do
  validatePageSize pageSize
  if 65536 ≤ pageSize then
    throw (.structError
      "'H' format requires 0 <= number <= 65535")
  else
    return Page.blank pageType pageSize

variable {π : Type} {pageSize : Nat}

theorem Page.create_ok
    (hValid : validatePageSize pageSize = .ok ())
    (hFits : pageSize < 65536)
    (pageType : PageType) :
    (Page.create pageType pageSize :
      Except EngineError (Page π)) =
        .ok (Page.blank pageType pageSize) := by
  unfold Page.create
  rw [hValid]
  simp only [bind, Except.bind,
    if_neg (Nat.not_le.mpr hFits)]
  rfl

theorem Page.eq_blank_of_create
    {pageType : PageType}
    {page : Page π}
    (hCreate : Page.create pageType pageSize = .ok page) :
    page = Page.blank pageType pageSize := by
  unfold Page.create at hCreate
  cases hValid : validatePageSize pageSize with
  | error raised =>
    rw [hValid] at hCreate
    cases hCreate
  | ok checked =>
    rw [hValid] at hCreate
    simp only [bind, Except.bind] at hCreate
    split at hCreate
    · cases hCreate
    · cases hCreate
      rfl

theorem Page.create_large
    (hValid : validatePageSize pageSize = .ok ())
    (hLarge : 65536 ≤ pageSize)
    (pageType : PageType) :
    (Page.create pageType pageSize :
      Except EngineError (Page π)) =
        .error (.structError
          "'H' format requires 0 <= number <= 65535") := by
  unfold Page.create
  rw [hValid]
  simp only [bind, Except.bind, if_pos hLarge]
  rfl

theorem pageSize_bounds
    (hValid : validatePageSize pageSize = .ok ()) :
    256 ≤ pageSize := by
  unfold validatePageSize at hValid
  split at hValid
  · cases hValid
  · omega

--
-- Page Images
--

/-
  The bytes of one page, by what they decode to. A gap the
  file was extended over reads as zero bytes.
-/
inductive PageImage (π : Type) where
  | empty
  | zeros (size : Nat)
  | metaPage (page : MetaPage)
  | slotted (page : Page π)
deriving DecidableEq, Repr

namespace PageImage

variable {π : Type}

instance : ByteImage (PageImage π) where
  empty := .empty
  byteLength
    | .empty => 0
    | .zeros size => size
    | .metaPage page => page.pageSize
    | .slotted page => page.pageSize
  byteLength_empty := rfl

/- `read_lsn`, or `read_meta_lsn` for page 0. -/
def lsn : PageImage π → Nat
  | .empty => 0
  | .zeros _ => 0
  | .metaPage page => page.lsn
  | .slotted page => page.lsn

/- `stamp_lsn`, or `stamp_meta_lsn` for page 0. -/
def stamp
    (image : PageImage π)
    (lsn : Nat) : PageImage π :=
  match image with
  | .empty => .empty
  | .zeros size =>
    .slotted { Page.ofZeros size with lsn := lsn }
  | .metaPage page => .metaPage { page with lsn := lsn }
  | .slotted page => .slotted { page with lsn := lsn }

@[simp] theorem lsn_stamp
    {image : PageImage π}
    (hImage : image ≠ .empty)
    (lsn : Nat) :
    (image.stamp lsn).lsn = lsn := by
  cases image with
  | empty => exact absurd rfl hImage
  | zeros size => rfl
  | metaPage page => rfl
  | slotted page => rfl

@[simp] theorem stamp_stamp
    (image : PageImage π)
    (first second : Nat) :
    (image.stamp first).stamp second =
      image.stamp second := by
  cases image <;> rfl

@[simp] theorem byteLength_stamp
    (image : PageImage π)
    (lsn : Nat) :
    Wal.byteLength (image.stamp lsn) =
      Wal.byteLength image := by
  cases image <;> rfl

/- `MetaPage.from_bytes`. Page 0 never holds another. -/
def asMeta :
    PageImage π → Except EngineError MetaPage
  | .metaPage page =>
    if page.pageCount < 1 then
      .error (.corruptDatabase
        s!"page_count {page.pageCount} must be at least 1")
    else .ok page
  | image =>
    .error (.corruptDatabase
      (s!"bad magic " ++
        reprBytes (List.replicate
          (min 16 (Wal.byteLength image)) 0) ++
        s!": not a ChenDB database file"))

end PageImage

namespace Page

variable {π : Type}

/- The free-space pointers agree. -/
def validateHeader
    (pageId : PageId)
    (page : Page π) : Except EngineError Unit :=
  let expected := pageHeaderSize + page.slotCount * slotSize
  if page.freeStart ≠ expected then
    .error (.corruptPage
      (s!"page {pageId}: free_start={page.freeStart} but " ++
        s!"{page.slotCount} slots imply {expected}"))
  else if page.freeEnd < expected ∨
      page.pageSize < page.freeEnd then
    .error (.corruptPage
      (s!"page {pageId}: free_end={page.freeEnd} outside " ++
        s!"[{expected}, {page.pageSize}]"))
  else .ok ()

/-
  Decode a page. Only zero bytes fail the checksum: whatever
  else is stored had it refreshed when it was encoded.
-/
def fromBytes
    (pageId : PageId)
    (image : PageImage π)
    (verifyChecksum validate : Bool) :
    Except EngineError (Page π) := do
  let page ←
    match image with
    | .slotted page => pure page
    | .zeros size => do
        if verifyChecksum then
          throw (.checksumMismatch
            (s!"page {pageId}: checksum mismatch (stored " ++
              s!"0x{hex8 0}, computed 0x" ++
              s!"{hex8 (Library.Struct.crc32
                (List.replicate (size - 4) 0))})"))
        pure (ofZeros size)
    | _ =>
      throw (.corruptPage
        s!"page {pageId}: not a slotted page")
  if validate then
    page.validateHeader pageId
  return page

end Page

end Storage

end ChenDB
