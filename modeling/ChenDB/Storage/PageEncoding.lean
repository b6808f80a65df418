import ChenDB.Storage.SlottedPage

/-
  Which page a buffer holds, and what is read from it there.
-/

--
-- Fields
--

namespace ChenDB

namespace Storage

open Library.Buffer Library.Struct Library.StateExcept

section Fields

variable {raw : PageBuffer} {width offset value : Nat}

theorem getField_run
    (hFits : offset + width ≤ raw.buf.length)
    (hValue : value < 256 ^ width)
    (hSlice : slice raw.buf offset (offset + width) =
      encode width value) :
    (getField width offset).run raw = .ok value raw := by
  unfold getField
  refine run_bind_of_ok (EStateM.run_get raw) ?_
  rw [if_neg (Nat.not_lt.mpr hFits), hSlice,
    decode_encode hValue]
  rfl

theorem setField_run
    (hFits : offset + width ≤ raw.buf.length)
    (hValue : value < 256 ^ width) :
    ∃ buf, (setField width offset value).run raw =
        .ok () { raw with buf := buf } ∧
      Wrote raw.buf offset (offset + width)
        (encode width value) buf := by
  refine ⟨_, ?_, wrote_overwriteAt
    (by rw [length_encode]) hFits⟩
  unfold setField
  refine run_bind_of_ok (EStateM.run_get raw) ?_
  rw [Int.toNat_natCast, if_neg (by omega)]
  rfl

theorem slotCount_of
    (hLength : 20 ≤ raw.buf.length)
    (hValue : value < 65536)
    (hSlice : slice raw.buf 14 16 = encode 2 value) :
    PageBuffer.slotCount.run raw = .ok value raw :=
  getField_run (by unfold offSlotCount; omega) hValue hSlice

theorem freeStart_of
    (hLength : 20 ≤ raw.buf.length)
    (hValue : value < 65536)
    (hSlice : slice raw.buf 16 18 = encode 2 value) :
    PageBuffer.freeStart.run raw = .ok value raw :=
  getField_run (by unfold offFreeStart; omega) hValue hSlice

theorem freeEnd_of
    (hLength : 20 ≤ raw.buf.length)
    (hValue : value < 65536)
    (hSlice : slice raw.buf 18 20 = encode 2 value) :
    PageBuffer.freeEnd.run raw = .ok value raw :=
  getField_run (by unfold offFreeEnd; omega) hValue hSlice

/- The header's fields, one write of any of them. -/
theorem setSlotCount_run
    (hLength : 20 ≤ raw.buf.length)
    (hValue : value < 65536) :
    ∃ buf, (PageBuffer.setSlotCount value).run raw =
        .ok () { raw with buf := buf } ∧
      Wrote raw.buf 14 16 (encode 2 value) buf :=
  setField_run (by unfold offSlotCount; omega) hValue

theorem setFreeStart_run
    (hLength : 20 ≤ raw.buf.length)
    (hValue : value < 65536) :
    ∃ buf, (PageBuffer.setFreeStart value).run raw =
        .ok () { raw with buf := buf } ∧
      Wrote raw.buf 16 18 (encode 2 value) buf :=
  setField_run (by unfold offFreeStart; omega) hValue

theorem setFreeEnd_run
    (hLength : 20 ≤ raw.buf.length)
    (hValue : value < 65536) :
    ∃ buf, (PageBuffer.setFreeEnd value).run raw =
        .ok () { raw with buf := buf } ∧
      Wrote raw.buf 18 20 (encode 2 value) buf :=
  setField_run (by unfold offFreeEnd; omega) hValue

/- A field that is too small for the value. -/
theorem setField_overflows
    (hValue : 256 ^ width ≤ value) :
    (setField width offset value).run raw =
      .error .structError raw := by
  unfold setField
  refine run_bind_of_ok (EStateM.run_get raw) ?_
  rw [Int.toNat_natCast,
    if_pos (.inr (.inr hValue))]
  rfl

theorem assign_run
    {start stop : Nat}
    {written : Bytes}
    (hStop : stop = start + written.length)
    (hFits : stop ≤ raw.buf.length) :
    ∃ buf, (assign start stop written).run raw =
        .ok () { raw with buf := buf } ∧
      Wrote raw.buf start stop written buf :=
  ⟨_, rfl, wrote_assignSlice hStop hFits⟩

theorem writeSlot_run
    {slotId length : Nat}
    (hFits : PageBuffer.slotOffset slotId + 4 ≤ raw.buf.length)
    (hOffset : offset < 65536)
    (hLength : length < 65536) :
    ∃ buf, (PageBuffer.writeSlot slotId offset length).run
          raw =
        .ok () { raw with buf := buf } ∧
      Wrote raw.buf (PageBuffer.slotOffset slotId)
        (PageBuffer.slotOffset slotId + 4)
        (pack [(2, offset), (2, length)]) buf := by
  refine ⟨_, ?_, wrote_overwriteAt rfl hFits⟩
  unfold PageBuffer.writeSlot
  refine run_bind_of_ok (EStateM.run_get raw) ?_
  simp only [Int.toNat_natCast]
  rw [if_neg (by unfold slotSize; omega)]
  rfl

theorem zeroBytes_run (count : Nat) :
    (zeroBytes count).run raw =
      .ok (List.replicate count 0) raw := by
  unfold zeroBytes
  rw [if_neg (by omega)]
  rfl

end Fields

--
-- What a Buffer Holds
--

/- Offset and length of a slot; a tombstone is (0, 0). -/
def slotFields
    (slot : Option Bytes)
    (offset : Nat) : Nat × Nat :=
  match slot with
  | none => (0, 0)
  | some payload => (offset, payload.length)

/- The directory entry of a slot. -/
def entryBytes
    (slot : Option Bytes)
    (offset : Nat) : Bytes :=
  pack [(2, (slotFields slot offset).1),
    (2, (slotFields slot offset).2)]

/- The two fields of an entry. -/
theorem slices_of_entry
    {buf : Bytes}
    {start offset length : Nat}
    (hEntry : slice buf start (start + 4) =
      pack [(2, offset), (2, length)]) :
    slice buf start (start + 2) = encode 2 offset ∧
      slice buf (start + 2) (start + 4) =
        encode 2 length := by
  have hFirst := @slice_slice buf start (start + 4) 0 2
    (by omega)
  have hSecond := @slice_slice buf start (start + 4) 2 4
    (by omega)
  rw [hEntry] at hFirst hSecond
  exact ⟨hFirst.symm, hSecond.symm⟩

/-
  The directory holds these slots, and the payload of each
  live one lies at its offset, between these bounds and
  apart from the others.
-/
structure Holds
    (buf : Bytes)
    (slots : List (Option Bytes))
    (offsets : Nat → Nat)
    (bottom top : Nat) : Prop where
  entry : ∀ slotId slot, slots[slotId]? = some slot →
    slice buf (PageBuffer.slotOffset slotId)
        (PageBuffer.slotOffset slotId + 4) =
      entryBytes slot (offsets slotId)
  region : ∀ slotId payload,
    slots[slotId]? = some (some payload) →
      bottom ≤ offsets slotId ∧
        offsets slotId + payload.length ≤ top
  record : ∀ slotId payload,
    slots[slotId]? = some (some payload) →
      slice buf (offsets slotId)
          (offsets slotId + payload.length) =
        payload
  apart : ∀ first second payload other, first ≠ second →
    slots[first]? = some (some payload) →
    slots[second]? = some (some other) →
      offsets first + payload.length ≤ offsets second ∨
        offsets second + other.length ≤ offsets first

/- The buffer holds this page. -/
structure Encodes
    (raw : PageBuffer)
    (page : Page Bytes)
    (offsets : Nat → Nat) : Prop extends
    Holds raw.buf page.slots offsets page.freeEnd
      page.pageSize where
  size : raw.pageSize = page.pageSize
  length : raw.buf.length = page.pageSize
  large : pageHeaderSize + slotSize ≤ page.pageSize
  small : page.pageSize < 65536
  slotCount : slice raw.buf 14 16 = encode 2 page.slotCount
  freeStart : slice raw.buf 16 18 = encode 2 page.freeStart
  freeEnd : slice raw.buf 18 20 = encode 2 page.freeEnd
  directory :
    page.freeStart = PageBuffer.slotOffset page.slotCount
  fits : page.freeStart ≤ page.freeEnd
  inside : page.freeEnd ≤ page.pageSize
  room : page.freeEnd + page.liveBytes ≤ page.pageSize

theorem slotOffset_eq (slotId : Nat) :
    PageBuffer.slotOffset slotId = 24 + slotId * 4 := rfl

namespace Encodes

variable {raw : PageBuffer} {page : Page Bytes}
variable {offsets : Nat → Nat}

theorem freeStart_eq (hEncodes : Encodes raw page offsets) :
    page.freeStart = 24 + page.slotCount * 4 :=
  hEncodes.directory

/- The header fits the buffer, and the fields hold what the
   header says. -/
theorem bounds (hEncodes : Encodes raw page offsets) :
    20 ≤ raw.buf.length ∧ page.slotCount < 65536 ∧
      page.freeStart < 65536 ∧ page.freeEnd < 65536 := by
  have hStart := hEncodes.freeStart_eq
  have hFits := hEncodes.fits
  have hInside := hEncodes.inside
  have hSmall := hEncodes.small
  have hLength := hEncodes.length
  omega

theorem slotCount_run
    (hEncodes : Encodes raw page offsets) :
    PageBuffer.slotCount.run raw =
      .ok page.slotCount raw :=
  slotCount_of hEncodes.bounds.1 hEncodes.bounds.2.1
    hEncodes.slotCount

theorem freeStart_run
    (hEncodes : Encodes raw page offsets) :
    PageBuffer.freeStart.run raw =
      .ok page.freeStart raw :=
  freeStart_of hEncodes.bounds.1 hEncodes.bounds.2.2.1
    hEncodes.freeStart

theorem freeEnd_run
    (hEncodes : Encodes raw page offsets) :
    PageBuffer.freeEnd.run raw = .ok page.freeEnd raw :=
  freeEnd_of hEncodes.bounds.1 hEncodes.bounds.2.2.2
    hEncodes.freeEnd

theorem freeSpace_run
    (hEncodes : Encodes raw page offsets) :
    PageBuffer.freeSpace.run raw =
      .ok (page.freeSpace : Int) raw := by
  have hFits := hEncodes.fits
  unfold PageBuffer.freeSpace Page.freeSpace
  refine run_bind_of_ok hEncodes.freeEnd_run ?_
  refine run_bind_of_ok hEncodes.freeStart_run ?_
  rw [Int.ofNat_sub hFits]
  rfl

variable {slotId : Nat} {slot : Option Bytes}

theorem slot_lt
    (hSlot : page.slots[slotId]? = some slot) :
    slotId < page.slotCount :=
  (List.getElem?_eq_some_iff.mp hSlot).1

section Slots

variable (hEncodes : Encodes raw page offsets)

include hEncodes

/- Where the entry of a slot lies. -/
theorem slot_within
    (hSlot : slotId < page.slotCount) :
    PageBuffer.slotOffset slotId + 4 ≤ page.freeStart := by
  rw [hEncodes.freeStart_eq, slotOffset_eq]
  omega

/- The fields of a slot's entry. -/
theorem fields_eq
    (hSlot : page.slots[slotId]? = some slot) :
    decode (slice raw.buf (PageBuffer.slotOffset slotId)
        (PageBuffer.slotOffset slotId + 2)) =
      (slotFields slot (offsets slotId)).1 ∧
    decode (slice raw.buf
        (PageBuffer.slotOffset slotId + 2)
        (PageBuffer.slotOffset slotId + 4)) =
      (slotFields slot (offsets slotId)).2 := by
  have hEntry := hEncodes.entry slotId slot hSlot
  have hSmall := hEncodes.small
  rcases slices_of_entry hEntry with ⟨hOffset, hSize⟩
  have hBound : (slotFields slot (offsets slotId)).1 < 65536 ∧
      (slotFields slot (offsets slotId)).2 < 65536 := by
    cases slot with
    | none => exact ⟨Nat.zero_lt_succ _, Nat.zero_lt_succ _⟩
    | some payload =>
      have hRegion := hEncodes.region slotId payload hSlot
      simp only [slotFields]
      omega
  rw [hOffset, hSize]
  exact ⟨decode_encode hBound.1, decode_encode hBound.2⟩

/- A slot of the page is read as its entry says. -/
theorem readSlot_run
    (hSlot : page.slots[slotId]? = some slot) :
    (PageBuffer.readSlot slotId).run raw =
      .ok (slotFields slot (offsets slotId)) raw := by
  have hWithin := hEncodes.slot_within (slot_lt hSlot)
  have hFits := hEncodes.fits
  have hInside := hEncodes.inside
  have hLength := hEncodes.length
  rcases hEncodes.fields_eq hSlot with ⟨hOffset, hSize⟩
  unfold PageBuffer.readSlot
  refine run_bind_of_ok (EStateM.run_get raw) ?_
  simp only []
  rw [if_neg (by unfold slotSize; omega), hOffset, hSize]
  rfl

theorem readSlot_dead
    (hSlot : page.slots[slotId]? = some none) :
    (PageBuffer.readSlot slotId).run raw =
      .ok (0, 0) raw :=
  hEncodes.readSlot_run hSlot

variable {payload : Bytes}

theorem readSlot_live
    (hSlot : page.slots[slotId]? = some (some payload)) :
    (PageBuffer.readSlot slotId).run raw =
      .ok (offsets slotId, payload.length) raw :=
  hEncodes.readSlot_run hSlot

/- A live payload lies behind the header. -/
theorem offset_pos
    (hSlot : page.slots[slotId]? = some (some payload)) :
    offsets slotId ≠ 0 := by
  have hRegion := hEncodes.region slotId payload hSlot
  have hStart := hEncodes.freeStart_eq
  have hFits := hEncodes.fits
  omega

end Slots

end Encodes

--
-- Reading
--

section Reading

variable {raw : PageBuffer} {page : Page Bytes}
variable {offsets : Nat → Nat}

variable {slotId : Nat}

/- The scan for a dead slot finds the first one left. -/
theorem findDeadFrom_run
    (hEncodes : Encodes raw page offsets)
    {left : Nat}
    (hLeft : slotId + left = page.slotCount) :
    (PageBuffer.findDeadFrom left slotId).run raw =
      .ok (((page.slots.drop slotId).findIdx?
        Option.isNone).map (slotId + ·)) raw := by
  induction left generalizing slotId with
  | zero =>
    have hNone : page.slots.drop slotId = [] :=
      List.drop_of_length_le (Nat.le_of_eq hLeft.symm)
    rw [hNone]
    rfl
  | succ left ih =>
    have hSlot : slotId < page.slots.length := by
      unfold Page.slotCount at hLeft
      omega
    have hHere := List.getElem?_eq_getElem hSlot
    rw [List.drop_eq_getElem_cons hSlot]
    unfold PageBuffer.findDeadFrom
    cases hFound : page.slots[slotId] with
    | none =>
      rw [hFound] at hHere
      refine run_bind_of_ok
        (hEncodes.readSlot_dead hHere) ?_
      simp only [if_true]
      simp [List.findIdx?_cons]
    | some payload =>
      rw [hFound] at hHere
      refine run_bind_of_ok
        (hEncodes.readSlot_live hHere) ?_
      simp only []
      rw [if_neg (hEncodes.offset_pos hHere),
        ih (by omega), List.findIdx?_cons]
      simp only [Option.isNone_some, Bool.false_eq_true,
        if_false, Option.map_map]
      congr 2
      funext index
      simp only [Function.comp_apply]
      omega

theorem findDeadSlot_run
    (hEncodes : Encodes raw page offsets) :
    PageBuffer.findDeadSlot.run raw =
      .ok page.findDeadSlot raw := by
  unfold PageBuffer.findDeadSlot Page.findDeadSlot
  refine run_bind_of_ok hEncodes.slotCount_run ?_
  rw [findDeadFrom_run hEncodes (Nat.zero_add _),
    List.drop_zero]
  simp

/- `read`, at a slot id of any sign. -/
theorem read_run
    (hEncodes : Encodes raw page offsets)
    (slotId : Int) :
    (PageBuffer.read slotId).run raw =
      .ok (if slotId < 0 then none
        else page.read slotId.toNat) raw := by
  unfold PageBuffer.read
  refine run_bind_of_ok hEncodes.slotCount_run ?_
  by_cases hRange : slotId < 0 ∨ (page.slotCount : Int) ≤ slotId
  · rw [if_pos hRange]
    by_cases hNegative : slotId < 0
    · rw [if_pos hNegative]
      rfl
    · have hNone : page.slots[slotId.toNat]? = none := by
        rw [List.getElem?_eq_none_iff]
        unfold Page.slotCount at hRange
        omega
      rw [if_neg hNegative]
      unfold Page.read
      rw [hNone]
      rfl
  · have hSlot : slotId.toNat < page.slots.length := by
      unfold Page.slotCount at hRange
      omega
    have hHere := List.getElem?_eq_getElem hSlot
    rw [if_neg hRange, if_neg (fun h => hRange (.inl h))]
    unfold Page.read
    cases hFound : page.slots[slotId.toNat] with
    | none =>
      rw [hFound] at hHere
      rw [hHere]
      exact run_bind_of_ok (hEncodes.readSlot_dead hHere) rfl
    | some payload =>
      rw [hFound] at hHere
      rw [hHere]
      refine run_bind_of_ok
        (hEncodes.readSlot_live hHere) ?_
      simp only []
      rw [if_neg (hEncodes.offset_pos hHere)]
      refine run_bind_of_ok (EStateM.run_get raw) ?_
      rw [hEncodes.record _ _ hHere]
      rfl

/- The bytes of the live slots among these. -/
def slotBytes (slots : List (Option Bytes)) : Nat :=
  (slots.map fun slot =>
    (slot.map Payload.size).getD 0).sum

theorem slotBytes_append
    (left right : List (Option Bytes)) :
    slotBytes (left ++ right) =
      slotBytes left + slotBytes right := by
  unfold slotBytes
  rw [List.map_append, List.sum_append]

theorem trailingDead_append_none
    (slots : List (Option Bytes)) :
    Page.trailingDead (slots ++ [none]) =
      Page.trailingDead slots + 1 := by
  simp [Page.trailingDead]

theorem trailingDead_append_some
    (slots : List (Option Bytes))
    (payload : Bytes) :
    Page.trailingDead (slots ++ [some payload]) = 0 := by
  simp [Page.trailingDead]

/- The loop counts the live bytes below a slot, and the dead
   slots right below it while it has met no live one. -/
theorem countSlots_run
    (hEncodes : Encodes raw page offsets)
    (hSlot : slotId ≤ page.slotCount)
    (liveBytes trailing : Nat)
    (counting : Bool) :
    (PageBuffer.countSlots slotId liveBytes trailing
        counting).run raw =
      .ok (liveBytes + slotBytes (page.slots.take slotId),
        if counting then
          trailing + Page.trailingDead
            (page.slots.take slotId)
        else trailing) raw := by
  induction slotId generalizing liveBytes trailing counting with
  | zero =>
    cases counting with
    | false => rfl
    | true => rfl
  | succ slotId ih =>
    have hBelow : slotId < page.slots.length := hSlot
    have hHere := List.getElem?_eq_getElem hBelow
    have hTake : page.slots.take (slotId + 1) =
        page.slots.take slotId ++ [page.slots[slotId]] :=
      List.take_succ_eq_append_getElem hBelow
    rw [hTake]
    unfold PageBuffer.countSlots
    cases hFound : page.slots[slotId] with
    | none =>
      rw [hFound] at hHere
      refine run_bind_of_ok
        (hEncodes.readSlot_dead hHere) ?_
      simp only [if_true]
      rw [ih (by omega), slotBytes_append,
        trailingDead_append_none]
      cases counting with
      | false => rfl
      | true =>
        simp only [if_true]
        congr 2
        omega
    | some payload =>
      rw [hFound] at hHere
      refine run_bind_of_ok
        (hEncodes.readSlot_live hHere) ?_
      simp only []
      rw [if_neg (hEncodes.offset_pos hHere),
        ih (by omega), slotBytes_append,
        trailingDead_append_some]
      have hOne : slotBytes [some payload] =
          payload.length := rfl
      rw [hOne]
      simp only [Bool.false_eq_true, if_false,
        Nat.add_zero, ite_self]
      congr 2
      omega

theorem reclaimableSpace_run
    (hEncodes : Encodes raw page offsets) :
    PageBuffer.reclaimableSpace.run raw =
      .ok (page.reclaimableSpace : Int) raw := by
  have hRoom := hEncodes.room
  have hAll : page.slots.take page.slotCount = page.slots :=
    List.take_length
  unfold PageBuffer.reclaimableSpace
  refine run_bind_of_ok hEncodes.slotCount_run ?_
  refine run_bind_of_ok (countSlots_run hEncodes
    (Nat.le_refl _) 0 0 true) ?_
  refine run_bind_of_ok (EStateM.run_get raw) ?_
  refine run_bind_of_ok hEncodes.freeEnd_run ?_
  rw [hAll, hEncodes.size]
  unfold Page.reclaimableSpace
  have hLive : slotBytes page.slots = page.liveBytes := rfl
  rw [hLive]
  simp only [if_true, Nat.zero_add]
  change EStateM.Result.ok _ raw = _
  congr 1
  omega

theorem spaceNeededFor_run
    (hEncodes : Encodes raw page offsets)
    (length : Nat) :
    (PageBuffer.spaceNeededFor length).run raw =
      .ok (page.spaceNeededFor length) raw := by
  unfold PageBuffer.spaceNeededFor Page.spaceNeededFor
  refine run_bind_of_ok (findDeadSlot_run hEncodes) ?_
  split
  · rfl
  · rfl

theorem wouldFitAfterCompaction_run
    (hEncodes : Encodes raw page offsets)
    (length : Nat) :
    (PageBuffer.wouldFitAfterCompaction length).run raw =
      .ok (page.wouldFitAfterCompaction length) raw := by
  unfold PageBuffer.wouldFitAfterCompaction
    Page.wouldFitAfterCompaction
  refine run_bind_of_ok
    (spaceNeededFor_run hEncodes length) ?_
  refine run_bind_of_ok hEncodes.freeSpace_run ?_
  refine run_bind_of_ok (reclaimableSpace_run hEncodes) ?_
  change EStateM.Result.ok _ raw = _
  congr 1
  rw [decide_eq_decide]
  omega

end Reading

end Storage

end ChenDB
