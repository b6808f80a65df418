import Mathlib.Data.List.Induction
import ChenDB.Storage.PageCompaction

/-
  A page from its creation on, through calls of every kind:
  the buffer always holds some page, so no field is ever
  given a value that does not fit it.
-/

namespace ChenDB

namespace Storage

open Library.Buffer Library.Struct Library.StateExcept

--
-- Creation
--

theorem PageType.value_lt (pageType : PageType) :
    pageType.value < 256 ^ 1 := by
  cases pageType <;> decide

variable {pageSize : Nat}
variable {raw : PageBuffer} {page : Page Bytes}
variable {offsets : Nat → Nat}

section Creating

variable
    (pageId : PageId)
    (pageType : PageType)
    (hValid : validatePageSize pageSize = .ok ())

include pageId pageType hValid

/- What `create` writes before `free_end`. -/
theorem create_begins
    (rest : PageM Unit) :
    ∃ buf, (do
        setField 1 offPageType pageType.value
        PageBuffer.setSlotCount 0
        PageBuffer.setFreeStart pageHeaderSize
        rest).run
          ⟨pageId, List.replicate pageSize 0, pageSize⟩ =
        rest.run ⟨pageId, buf, pageSize⟩ ∧
      buf.length = pageSize ∧
      slice buf 14 16 = encode 2 0 ∧
      slice buf 16 18 = encode 2 pageHeaderSize := by
  have hLeast := pageSize_bounds hValid
  let fresh : PageBuffer :=
    ⟨pageId, List.replicate pageSize 0, pageSize⟩
  have hFresh : fresh.buf.length = pageSize :=
    List.length_replicate
  rcases @setField_run fresh 1 offPageType pageType.value
      (by unfold offPageType; omega) pageType.value_lt with
    ⟨typed, hTypedRun, hTyped⟩
  rcases @setSlotCount_run { fresh with buf := typed } 0
      (by rw [hTyped.length]; omega) (by decide) with
    ⟨counted, hCountedRun, hCounted⟩
  rcases @setFreeStart_run { fresh with buf := counted }
      pageHeaderSize
      (by rw [hCounted.length, hTyped.length]; omega)
      (by decide) with ⟨buf, hStartedRun, hStarted⟩
  refine ⟨buf, ?_, ?_, ?_, hStarted.inside⟩
  · refine run_bind_of_ok hTypedRun ?_
    refine run_bind_of_ok hCountedRun ?_
    exact run_bind_of_ok hStartedRun rfl
  · rw [hStarted.length, hCounted.length, hTyped.length]
    exact hFresh
  · rw [hStarted.outside _ _ (by omega)]
    exact hCounted.inside

/- A page of the largest size does not fit its own field. -/
theorem create_overflows
    (hLarge : 65536 ≤ pageSize) :
    PageBuffer.create pageId pageType pageSize =
      .error .structError := by
  rcases create_begins pageId pageType hValid (do
      PageBuffer.setFreeEnd pageSize
      setField 4 offNextPage invalidPageId) with
    ⟨buf, hRun, -⟩
  have hRaised : (PageBuffer.setFreeEnd pageSize).run
      ⟨pageId, buf, pageSize⟩ =
        .error .structError ⟨pageId, buf, pageSize⟩ :=
    @setField_overflows _ 2 offFreeEnd pageSize hLarge
  unfold PageBuffer.create
  rw [hValid]
  simp only []
  rw [hRun, EStateM.run_bind, hRaised]

theorem create_run
    (hSmall : pageSize < 65536) :
    ∃ buf, PageBuffer.create pageId pageType pageSize =
        .ok ⟨pageId, buf, pageSize⟩ ∧
      Encodes ⟨pageId, buf, pageSize⟩
        (Page.blank pageType pageSize) fun _ => 0 := by
  have hLeast := pageSize_bounds hValid
  rcases create_begins pageId pageType hValid (do
      PageBuffer.setFreeEnd pageSize
      setField 4 offNextPage invalidPageId) with
    ⟨begun, hRun, hBegun, hCount, hStart⟩
  rcases @setFreeEnd_run ⟨pageId, begun, pageSize⟩ pageSize
      (by rw [hBegun]; omega) hSmall with
    ⟨ended, hEndedRun, hEnded⟩
  rcases @setField_run ⟨pageId, ended, pageSize⟩ 4
      offNextPage invalidPageId
      (by
        rw [hEnded.length, hBegun]
        unfold offNextPage
        omega)
      (by decide) with ⟨buf, hNextRun, hNext⟩
  refine ⟨buf, ?_, ?_⟩
  · unfold PageBuffer.create
    rw [hValid]
    simp only []
    rw [hRun, run_bind_of_ok hEndedRun hNextRun]
  · refine ⟨⟨?_, ?_, ?_, ?_⟩, rfl, ?_, ?_, hSmall, ?_, ?_, ?_,
      rfl, ?_, Nat.le_refl _, ?_⟩
    · intro slotId slot hSlot
      cases hSlot
    · intro slotId payload hSlot
      cases hSlot
    · intro slotId payload hSlot
      cases hSlot
    · intro first second payload other _ hFirst
      cases hFirst
    · rw [hNext.length, hEnded.length]
      exact hBegun
    · change 28 ≤ pageSize
      omega
    · rw [hNext.outside _ _ (.inl (by decide)),
        hEnded.outside _ _ (by omega)]
      exact hCount
    · rw [hNext.outside _ _ (.inl (by decide)),
        hEnded.outside _ _ (by omega)]
      exact hStart
    · rw [hNext.outside _ _ (.inl (by decide))]
      exact hEnded.inside
    · change 24 ≤ pageSize
      omega
    · exact Nat.le_refl _

end Creating

--
-- Ordered Slots
--

section Ordered

/- The page with a payload at this index. -/
def insertedAt
    (page : Page Bytes)
    (index : Nat)
    (payload : Bytes) : Page Bytes :=
  { page with
    slots := page.slots.insertIdx index (some payload)
    freeStart := page.freeStart + slotSize
    freeEnd := page.freeEnd - payload.length }

/- The page without the slot at this index. -/
def erasedAt
    (page : Page Bytes)
    (index : Nat) : Page Bytes :=
  { page with
    slots := page.slots.eraseIdx index
    freeStart := page.freeStart - slotSize }

/- The page without its records. -/
def cleared (page : Page Bytes) : Page Bytes :=
  { page with
    slots := []
    freeStart := pageHeaderSize
    freeEnd := page.pageSize }

variable {index : Nat}

theorem slotBytes_insertIdx
    (slots : List (Option Bytes))
    (hIndex : index ≤ slots.length)
    (slot : Option Bytes) :
    slotBytes (slots.insertIdx index slot) =
      slotBytes slots + slotBytes [slot] := by
  unfold slotBytes
  have hPerm := List.perm_insertIdx slot slots hIndex
  rw [(hPerm.map _).sum_nat]
  simp only [List.map_cons, List.sum_cons, List.map_nil,
    List.sum_nil]
  omega

theorem slotBytes_eraseIdx
    (slots : List (Option Bytes))
    (index : Nat) :
    slotBytes (slots.eraseIdx index) ≤ slotBytes slots := by
  have hSum := slotBytes_append (slots.take index)
    (slots.drop (index + 1))
  have hAll := slotBytes_append (slots.take index)
    (slots.drop index)
  have hTail := slotBytes_append
    ((slots.drop index).take 1) ((slots.drop index).drop 1)
  rw [List.take_append_drop] at hAll hTail
  rw [List.drop_drop] at hTail
  rw [List.eraseIdx_eq_take_drop_succ, hSum]
  omega

variable {payload : Bytes}

/- Once the payload is stored below `free_end`, the tail of the
   directory is moved up and the slot is listed, the buffer
   holds the slots of the new page. -/
theorem insertedAt_holds
    (hEncodes : Encodes raw page offsets)
    (hIndex : index ≤ page.slotCount)
    (hRoom : payload.length + slotSize ≤ page.freeSpace)
    {stored shifted buf : Bytes}
    (hStored : Wrote raw.buf (page.freeEnd - payload.length)
      page.freeEnd payload stored)
    (hShifted : Wrote stored
      (PageBuffer.slotOffset index + slotSize)
      (PageBuffer.slotOffset page.slotCount + slotSize)
      (slice stored (PageBuffer.slotOffset index)
        (PageBuffer.slotOffset page.slotCount)) shifted)
    (hLists : ListsSlot shifted buf (page.slotCount + 1)
      (page.freeStart + slotSize)
      (page.freeEnd - payload.length) payload.length index) :
    ∃ moved, Holds buf (insertedAt page index payload).slots
      moved (page.freeEnd - payload.length) page.pageSize := by
  have hFits := hEncodes.fits
  have hInside := hEncodes.inside
  have hLength := hEncodes.length
  have hStart := hEncodes.freeStart_eq
  have hFirst := slotOffset_eq index
  have hLast := slotOffset_eq page.slotCount
  have hSlotSize : slotSize = 4 := rfl
  unfold Page.freeSpace at hRoom
  have hBody : ∀ first last, page.freeEnd ≤ first →
      slice buf first last = slice raw.buf first last := by
    intro first last hAbove
    rw [hLists.outside _ _ (by omega) (by omega),
      hShifted.outside _ _ (by omega),
      hStored.outside _ _ (.inr hAbove)]
  refine ⟨_, @Holds.moved offsets raw.buf buf page.slots
    (insertedAt page index payload).slots page.freeEnd
    (page.freeEnd - payload.length) page.pageSize index
    payload
    (fun slotId => if slotId < index then slotId
      else slotId - 1)
    hEncodes.toHolds ?_ (by omega) hInside ?_ ?_ ?_ hBody⟩
  · intro slot hSlot
    unfold insertedAt at hSlot
    rw [List.getElem?_insertIdx_self,
      if_pos (by exact hIndex)] at hSlot
    refine ⟨(Option.some.inj hSlot).symm, by omega,
      hLists.entry, ?_⟩
    rw [Nat.sub_add_cancel (by omega),
      hLists.outside _ _ (by omega) (by omega),
      hShifted.outside _ _ (by omega)]
    exact hStored.inside
  · intro first second hFirstNe hSecondNe hEq
    split at hEq <;> split at hEq <;> omega
  · intro slotId hNe
    unfold insertedAt
    rw [List.getElem?_insertIdx, if_neg hNe]
    split <;> rfl
  · intro slotId hNe hWithin
    have hCount : (insertedAt page index payload).slotCount =
        page.slotCount + 1 :=
      List.length_insertIdx_of_le_length hIndex _
    change slotId < (insertedAt page index payload).slotCount
      at hWithin
    rw [hCount] at hWithin
    -- The entries before the index stay, the others are read
    -- one place further on.
    by_cases hBefore : slotId < index
    · rw [if_pos hBefore,
        hLists.outside _ _ (by rw [slotOffset_eq]; omega)
          (by simp only [slotOffset_eq]; omega),
        hShifted.outside _ _
          (by simp only [slotOffset_eq]; omega),
        hStored.outside _ _
          (by simp only [slotOffset_eq]; omega)]
    · rw [if_neg hBefore,
        hLists.outside _ _ (by rw [slotOffset_eq]; omega)
          (by simp only [slotOffset_eq]; omega),
        hShifted.inside_slice
          (by simp only [slotOffset_eq]; omega)
          (by simp only [slotOffset_eq]; omega),
        slice_slice (by simp only [slotOffset_eq]; omega),
        hStored.outside _ _
          (by simp only [slotOffset_eq]; omega)]
      congr 1 <;> simp only [slotOffset_eq] <;> omega

theorem insertAt_run
    (hEncodes : Encodes raw page offsets)
    (hIndex : index ≤ page.slotCount)
    (hLarge : ¬ payload.length > page.maxPayloadSize)
    (hRoom : payload.length + slotSize ≤ page.freeSpace) :
    ∃ buf moved, (PageBuffer.insertAt index payload).run raw =
        .ok true { raw with buf := buf } ∧
      Encodes { raw with buf := buf }
        (insertedAt page index payload) moved := by
  have hFree := hRoom
  have hFits := hEncodes.fits
  have hInside := hEncodes.inside
  have hSmall := hEncodes.small
  have hLength := hEncodes.length
  have hStart := hEncodes.freeStart_eq
  have hFirst := slotOffset_eq index
  have hLast := slotOffset_eq page.slotCount
  have hSlotSize : slotSize = 4 := rfl
  unfold Page.freeSpace at hRoom
  have hNew : (page.freeEnd : Int) - (payload.length : Int) =
      ((page.freeEnd - payload.length : Nat) : Int) := by
    omega
  have hStop : ((page.freeEnd - payload.length : Nat) : Int) +
      (payload.length : Int) = (page.freeEnd : Int) := by
    omega
  rcases @assign_run raw (page.freeEnd - payload.length)
      page.freeEnd payload (by omega) (by omega) with
    ⟨stored, hStoredRun, hStored⟩
  have hTail : (slice stored (PageBuffer.slotOffset index)
      (PageBuffer.slotOffset page.slotCount)).length =
        PageBuffer.slotOffset page.slotCount -
          PageBuffer.slotOffset index :=
    length_slice (by rw [hStored.length]; omega)
  rcases @assign_run { raw with buf := stored }
      (PageBuffer.slotOffset index + slotSize)
      (PageBuffer.slotOffset page.slotCount + slotSize)
      (slice stored (PageBuffer.slotOffset index)
        (PageBuffer.slotOffset page.slotCount))
      (by rw [hTail]; omega)
      (by rw [hStored.length]; omega) with
    ⟨shifted, hShiftedRun, hShifted⟩
  have hSame := hShifted.length.trans hStored.length
  rcases @lists_run { raw with buf := shifted } index _ true
      page.slotCount page.freeStart
      (page.freeEnd - payload.length) payload.length
      (by rw [hSame]; omega)
      (by
        rw [hShifted.outside _ _ (by omega),
          hStored.outside _ _ (by omega)]
        exact hEncodes.freeStart)
      (by omega) (by omega) (by omega) (by omega) with
    ⟨buf, hListsRun, hLists⟩
  rcases insertedAt_holds hEncodes hIndex hFree hStored
    hShifted hLists with ⟨moved, hHolds⟩
  have hCount : (insertedAt page index payload).slotCount =
      page.slotCount + 1 :=
    List.length_insertIdx_of_le_length hIndex _
  refine ⟨buf, moved, ?_, hHolds, hEncodes.size,
    (hLists.length.trans hSame).trans hLength,
    hEncodes.large, hSmall, hCount ▸ hLists.slotCount,
    hLists.freeStart, hLists.freeEnd, ?_, ?_, ?_, ?_⟩
  · unfold PageBuffer.insertAt
    refine run_bind_of_ok (EStateM.run_get raw) ?_
    simp only []
    rw [if_neg (by rw [maxPayloadSize_eq hEncodes]; omega)]
    refine run_bind_of_ok hEncodes.slotCount_run ?_
    rw [if_neg (by omega)]
    refine run_bind_of_ok hEncodes.freeSpace_run ?_
    unfold Page.freeSpace
    rw [if_neg (by omega)]
    refine run_bind_of_ok hEncodes.freeEnd_run ?_
    rw [hNew, hStop, Int.toNat_natCast]
    refine run_bind_of_ok hStoredRun ?_
    refine run_bind_of_ok (EStateM.run_get _) ?_
    exact run_bind_of_ok hShiftedRun hListsRun
  · rw [hCount, slotOffset_eq]
    change page.freeStart + slotSize = _
    omega
  · change page.freeStart + slotSize ≤
      page.freeEnd - payload.length
    omega
  · change page.freeEnd - payload.length ≤ page.pageSize
    omega
  · have hRoomLeft := hEncodes.room
    have hBytes := slotBytes_insertIdx page.slots hIndex
      (some payload)
    have hOne : slotBytes [some payload] = payload.length := rfl
    change page.freeEnd - payload.length + slotBytes
      (page.slots.insertIdx index (some payload)) ≤
        page.pageSize
    change page.freeEnd + slotBytes page.slots ≤
      page.pageSize at hRoomLeft
    omega

theorem deleteAt_run
    (hEncodes : Encodes raw page offsets)
    (hIndex : index < page.slotCount) :
    ∃ buf moved, (PageBuffer.deleteAt index).run raw =
        .ok true { raw with buf := buf } ∧
      Encodes { raw with buf := buf } (erasedAt page index)
        moved := by
  have hFits := hEncodes.fits
  have hInside := hEncodes.inside
  have hSmall := hEncodes.small
  have hLength := hEncodes.length
  have hStart := hEncodes.freeStart_eq
  have hFirst := slotOffset_eq index
  have hLast := slotOffset_eq page.slotCount
  have hSlotSize : slotSize = 4 := rfl
  have hTail : (slice raw.buf
      (PageBuffer.slotOffset index + slotSize)
      (PageBuffer.slotOffset page.slotCount)).length =
        PageBuffer.slotOffset page.slotCount -
          (PageBuffer.slotOffset index + slotSize) :=
    length_slice (by omega)
  rcases @assign_run raw (PageBuffer.slotOffset index)
      (PageBuffer.slotOffset page.slotCount - slotSize)
      (slice raw.buf (PageBuffer.slotOffset index + slotSize)
        (PageBuffer.slotOffset page.slotCount))
      (by rw [hTail]; omega) (by omega) with
    ⟨shifted, hShiftedRun, hShifted⟩
  have hOldStart : PageBuffer.freeStart.run
      { raw with buf := shifted } =
        .ok page.freeStart { raw with buf := shifted } :=
    freeStart_of (by rw [hShifted.length]; omega) (by omega)
      (by
        rw [hShifted.outside _ _ (by omega)]
        exact hEncodes.freeStart)
  rcases @assign_run { raw with buf := shifted }
      (page.freeStart - slotSize) page.freeStart
      (List.replicate slotSize 0)
      (by rw [List.length_replicate]; omega)
      (by rw [hShifted.length]; omega) with
    ⟨zeroed, hZeroedRun, hZeroed⟩
  rcases @setSlotCount_run { raw with buf := zeroed }
      (page.slotCount - 1)
      (by rw [hZeroed.length, hShifted.length]; omega)
      (by omega) with ⟨counted, hCountedRun, hCounted⟩
  rcases @setFreeStart_run { raw with buf := counted }
      (page.freeStart - slotSize)
      (by
        rw [hCounted.length, hZeroed.length, hShifted.length]
        omega)
      (by omega) with ⟨buf, hStartedRun, hStarted⟩
  have hNewStart : (page.freeStart : Int) - (slotSize : Int) =
      ((page.freeStart - slotSize : Nat) : Int) := by
    omega
  have hNewCount : (page.slotCount : Int) - 1 =
      ((page.slotCount - 1 : Nat) : Int) := by
    omega
  have hKept : ∀ first last, 20 ≤ first →
      last ≤ page.freeStart - slotSize ∨
        page.freeStart ≤ first →
        slice buf first last = slice shifted first last := by
    intro first last hHeader hCut
    rw [hStarted.outside _ _ (by omega),
      hCounted.outside _ _ (by omega),
      hZeroed.outside _ _ hCut]
  have hBody : ∀ first last, page.freeEnd ≤ first →
      slice buf first last = slice raw.buf first last := by
    intro first last hAbove
    rw [hKept _ _ (by omega) (by omega),
      hShifted.outside _ _ (by omega)]
  have hCount : (erasedAt page index).slotCount =
      page.slotCount - 1 := List.length_eraseIdx_of_lt hIndex
  have hNone : (erasedAt page index).slots[
      (erasedAt page index).slotCount]? = none :=
    List.getElem?_eq_none (Nat.le_refl _)
  have hHolds := @Holds.moved offsets raw.buf buf page.slots
    (erasedAt page index).slots page.freeEnd page.freeEnd
    page.pageSize (erasedAt page index).slotCount []
    (fun slotId => if slotId < index then slotId
      else slotId + 1)
    hEncodes.toHolds
    (by
      intro slot hSlot
      rw [hNone] at hSlot
      cases hSlot)
    (Nat.le_refl _) hInside
    (by
      intro first second _ _ hEq
      split at hEq <;> split at hEq <;> omega)
    (by
      intro slotId _
      unfold erasedAt
      rw [List.getElem?_eraseIdx]
      split <;> rfl)
    (by
      intro slotId _ hWithin
      change slotId < (erasedAt page index).slotCount
        at hWithin
      rw [hCount] at hWithin
      rw [hKept _ _ (by rw [slotOffset_eq]; omega)
        (by simp only [slotOffset_eq]; omega)]
      by_cases hBefore : slotId < index
      · rw [if_pos hBefore, hShifted.outside _ _
          (by simp only [slotOffset_eq]; omega)]
      · rw [if_neg hBefore,
          hShifted.inside_slice
            (by simp only [slotOffset_eq]; omega)
            (by simp only [slotOffset_eq]; omega),
          slice_slice (by simp only [slotOffset_eq]; omega)]
        congr 1
        · simp only [slotOffset_eq]
          omega
        · simp only [slotOffset_eq]
          omega)
    hBody
  refine ⟨buf, _, ?_, hHolds, hEncodes.size, ?_,
    hEncodes.large, hSmall, ?_, hStarted.inside, ?_, ?_, ?_,
    hInside, ?_⟩
  · unfold PageBuffer.deleteAt
    refine run_bind_of_ok hEncodes.slotCount_run ?_
    rw [if_neg (by omega), Int.toNat_natCast]
    refine run_bind_of_ok (EStateM.run_get raw) ?_
    refine run_bind_of_ok hShiftedRun ?_
    refine run_bind_of_ok hOldStart ?_
    rw [hNewStart, hNewCount]
    refine run_bind_of_ok hZeroedRun ?_
    refine run_bind_of_ok hCountedRun ?_
    refine run_bind_of_ok hStartedRun ?_
    rfl
  · rw [hStarted.length, hCounted.length, hZeroed.length,
      hShifted.length]
    exact hLength
  · rw [hStarted.outside _ _ (by omega), hCount]
    exact hCounted.inside
  · rw [hStarted.outside _ _ (by omega),
      hCounted.outside _ _ (by omega),
      hZeroed.outside _ _ (by omega),
      hShifted.outside _ _ (by omega)]
    exact hEncodes.freeEnd
  · rw [hCount, slotOffset_eq]
    change page.freeStart - slotSize = _
    omega
  · change page.freeStart - slotSize ≤ page.freeEnd
    omega
  · have hRoom := hEncodes.room
    have hBytes := slotBytes_eraseIdx page.slots index
    change page.freeEnd +
      slotBytes (page.slots.eraseIdx index) ≤ page.pageSize
    change page.freeEnd + slotBytes page.slots ≤
      page.pageSize at hRoom
    omega

theorem clearRecords_run
    (hEncodes : Encodes raw page offsets) :
    ∃ buf, PageBuffer.clearRecords.run raw =
        .ok () { raw with buf := buf } ∧
      Encodes { raw with buf := buf } (cleared page)
        offsets := by
  have hInside := hEncodes.inside
  have hFits := hEncodes.fits
  have hStart := hEncodes.freeStart_eq
  have hSmall := hEncodes.small
  have hLength := hEncodes.length
  have hSize := hEncodes.size
  have hHeader : pageHeaderSize = 24 := rfl
  have hSpan : (raw.pageSize : Int) - (pageHeaderSize : Int) =
      ((raw.pageSize - pageHeaderSize : Nat) : Int) := by
    omega
  rcases @assign_run raw pageHeaderSize raw.pageSize
      (List.replicate (raw.pageSize - pageHeaderSize) 0)
      (by rw [List.length_replicate]; omega) (by omega) with
    ⟨zeroed, hZeroedRun, hZeroed⟩
  rcases @setSlotCount_run { raw with buf := zeroed } 0
      (by rw [hZeroed.length]; omega) (by decide) with
    ⟨counted, hCountedRun, hCounted⟩
  rcases @setFreeStart_run { raw with buf := counted }
      pageHeaderSize
      (by rw [hCounted.length, hZeroed.length]; omega)
      (by decide) with ⟨started, hStartedRun, hStarted⟩
  rcases @setFreeEnd_run { raw with buf := started }
      raw.pageSize
      (by
        rw [hStarted.length, hCounted.length, hZeroed.length]
        omega)
      (by omega) with ⟨buf, hEndRun, hEnd⟩
  refine ⟨buf, ?_, ⟨?_, ?_, ?_, ?_⟩, hSize, ?_,
    hEncodes.large, hSmall, ?_, ?_, ?_, rfl, ?_,
    Nat.le_refl _, Nat.le_refl _⟩
  · unfold PageBuffer.clearRecords
    refine run_bind_of_ok (EStateM.run_get raw) ?_
    rw [hSpan]
    refine run_bind_of_ok (zeroBytes_run _) ?_
    refine run_bind_of_ok hZeroedRun ?_
    refine run_bind_of_ok hCountedRun ?_
    refine run_bind_of_ok hStartedRun ?_
    exact hEndRun
  · intro slotId slot hSlot
    cases hSlot
  · intro slotId payload hSlot
    cases hSlot
  · intro slotId payload hSlot
    cases hSlot
  · intro first second payload other _ hFirst
    cases hFirst
  · rw [hEnd.length, hStarted.length, hCounted.length,
      hZeroed.length]
    exact hLength
  · rw [hEnd.outside _ _ (by omega),
      hStarted.outside _ _ (by omega)]
    exact hCounted.inside
  · rw [hEnd.outside _ _ (by omega)]
    exact hStarted.inside
  · rw [hEnd.inside, hSize]
    rfl
  · change pageHeaderSize ≤ page.pageSize
    omega

/- A payload too large, or an index past the directory, is
   an error of the engine; a full page is not. -/
theorem insertAt_refused
    (hEncodes : Encodes raw page offsets)
    {index : Int}
    (hRefused : payload.length > page.maxPayloadSize ∨
      index < 0 ∨ (page.slotCount : Int) < index) :
    ∃ raised, (PageBuffer.insertAt index payload).run raw =
      .error (.engine raised) raw := by
  unfold PageBuffer.insertAt
  rw [EStateM.run_bind, EStateM.run_get]
  simp only []
  by_cases hLarge :
      (payload.length : Int) > raw.maxPayloadSize
  · rw [if_pos hLarge]
    exact ⟨_, rfl⟩
  · rw [if_neg hLarge, EStateM.run_bind,
      hEncodes.slotCount_run]
    rw [maxPayloadSize_eq hEncodes] at hLarge
    simp only []
    rw [if_pos (by omega)]
    exact ⟨_, rfl⟩

theorem insertAt_full
    (hEncodes : Encodes raw page offsets)
    (hIndex : index ≤ page.slotCount)
    (hLarge : ¬ payload.length > page.maxPayloadSize)
    (hFull :
      payload.length + slotSize > page.freeSpace) :
    (PageBuffer.insertAt index payload).run raw =
      .ok false raw := by
  unfold PageBuffer.insertAt
  refine run_bind_of_ok (EStateM.run_get raw) ?_
  simp only []
  rw [if_neg (by rw [maxPayloadSize_eq hEncodes]; omega)]
  refine run_bind_of_ok hEncodes.slotCount_run ?_
  rw [if_neg (by omega)]
  refine run_bind_of_ok hEncodes.freeSpace_run ?_
  rw [if_pos (by omega)]
  rfl

theorem deleteAt_refused
    (hEncodes : Encodes raw page offsets)
    {index : Int}
    (hRefused :
      index < 0 ∨ (page.slotCount : Int) ≤ index) :
    (PageBuffer.deleteAt index).run raw =
      .ok false raw := by
  unfold PageBuffer.deleteAt
  refine run_bind_of_ok hEncodes.slotCount_run ?_
  rw [if_pos hRefused]
  rfl

end Ordered

--
-- What a Page Stores
--

section Stored

variable {page' : Page Bytes}

/- `read`, at a slot id of any sign. -/
def readAt
    (page : Page Bytes)
    (slotId : Int) : Option Bytes :=
  if slotId < 0 then none else page.read slotId.toNat

variable {slotId : Nat}

/- One slot is another, and the rest are the same. -/
theorem readAt_update
    {slot : Option Bytes}
    (hHere : page'.slots[slotId]? = some slot)
    (hOther : ∀ other, other ≠ slotId →
      page'.slots[other]? = page.slots[other]?) :
    readAt page' =
      Function.update (readAt page) (slotId : Int) slot := by
  funext asked
  unfold readAt Page.read
  by_cases hSame : asked = slotId
  · subst hSame
    rw [Function.update_self, if_neg (by omega),
      Int.toNat_natCast, hHere]
    rfl
  · rw [Function.update_of_ne hSame]
    by_cases hNegative : asked < 0
    · rw [if_pos hNegative, if_pos hNegative]
    · rw [if_neg hNegative, if_neg hNegative,
        hOther _ (by omega)]

/- A record goes to a slot that held none. -/
theorem insert_stores
    {payload : Bytes}
    (hInsert : page.insert payload =
      .ok (some (slotId, page'))) :
    page'.pageSize = page.pageSize ∧
      page.read slotId = none ∧
      page'.slots[slotId]? = some (some payload) ∧
      ∀ other, other ≠ slotId →
        page'.slots[other]? = page.slots[other]? := by
  unfold Page.insert at hInsert
  simp only [] at hInsert
  split at hInsert
  · cases hInsert
  · split at hInsert
    · cases hInsert
    · cases hDead : page.findDeadSlot with
      | some dead =>
        rw [hDead] at hInsert
        cases hInsert
        have hSlot := findDeadSlot_some hDead
        refine ⟨rfl, ?_, ?_, ?_⟩
        · unfold Page.read
          rw [hSlot]
          rfl
        · exact List.getElem?_set_self
            (Encodes.slot_lt hSlot)
        · exact fun other hOther =>
            List.getElem?_set_ne (Ne.symm hOther)
      | none =>
        rw [hDead] at hInsert
        cases hInsert
        refine ⟨rfl, ?_, ?_, ?_⟩
        · unfold Page.read Page.slotCount
          rw [List.getElem?_eq_none (Nat.le_refl _)]
          rfl
        · exact List.getElem?_concat_length
        · exact fun other hOther =>
            getElem?_concat_of_ne page.slots _ hOther

theorem trim_append_none (slots : List (Option Bytes)) :
    Page.trimTrailingDeadSlots (slots ++ [none]) =
      Page.trimTrailingDeadSlots slots := by
  unfold Page.trimTrailingDeadSlots
  rw [trailingDead_append_none, List.length_append,
    List.length_singleton, Nat.add_sub_add_right]
  exact List.take_append_of_le_length (Nat.sub_le _ _)

theorem trim_append_some
    (slots : List (Option Bytes))
    (payload : Bytes) :
    Page.trimTrailingDeadSlots (slots ++ [some payload]) =
      slots ++ [some payload] := by
  unfold Page.trimTrailingDeadSlots
  rw [trailingDead_append_some]
  exact List.take_length

/- The slots cut off by a trim read as they did. -/
theorem join_trimTrailingDeadSlots
    (slots : List (Option Bytes))
    (slotId : Nat) :
    (Page.trimTrailingDeadSlots slots)[slotId]?.join =
      slots[slotId]?.join := by
  induction slots using List.reverseRecOn with
  | nil => rfl
  | append_singleton slots slot ih =>
    cases slot with
    | none =>
      rw [trim_append_none, ih]
      by_cases hLast : slotId = slots.length
      · rw [hLast, List.getElem?_concat_length,
          List.getElem?_eq_none (Nat.le_refl _)]
        rfl
      · rw [getElem?_concat_of_ne slots none hLast]
    | some payload => rw [trim_append_some]

theorem readAt_compact (page : Page Bytes) :
    readAt page.compact = readAt page := by
  funext asked
  unfold readAt Page.read
  by_cases hNegative : asked < 0
  · rw [if_pos hNegative, if_pos hNegative]
  · rw [if_neg hNegative, if_neg hNegative]
    exact join_trimTrailingDeadSlots page.slots _

end Stored

--
-- Calls
--

/- A call on a page. -/
inductive RecordCall where
  | insert (payload : Bytes)
  | insertAt (index : Int) (payload : Bytes)
  | delete (slotId : Int)
  | deleteAt (index : Int)
  | overwrite (slotId : Int) (payload : Bytes)
  | compact
  | clearRecords
deriving DecidableEq, Repr

/- What a call returns. -/
inductive RecordAnswer where
  | slot (slotId : Option Nat)
  | changed (done : Bool)
  | gained (bytes : Int)
  | nothing
deriving DecidableEq, Repr

namespace RecordCall

def run : RecordCall → PageM RecordAnswer
  | .insert payload => do
      return .slot (← PageBuffer.insert payload)
  | .insertAt index payload => do
      return .changed (← PageBuffer.insertAt index payload)
  | .delete slotId => do
      return .changed (← PageBuffer.delete slotId)
  | .deleteAt index => do
      return .changed (← PageBuffer.deleteAt index)
  | .overwrite slotId payload => do
      return .changed (← PageBuffer.overwrite slotId payload)
  | .compact => do
      return .gained (← PageBuffer.compact)
  | .clearRecords => do
      PageBuffer.clearRecords
      return .nothing

/- The caller catches an error of the engine and goes on
   with the page; `struct.error` is left to end the run. -/
def attempt (call : RecordCall) : PageM (Option RecordAnswer) :=
  fun page =>
    match call.run.run page with
    | .ok answer final => .ok (some answer) final
    | .error (.engine _) final => .ok none final
    | .error .structError final => .error .structError final

/- The calls of a heap, which renumber no slot. -/
def onHeap : RecordCall → Bool
  | .insert _ => true
  | .insertAt _ _ => false
  | .delete _ => true
  | .deleteAt _ => false
  | .overwrite _ _ => true
  | .compact => true
  | .clearRecords => false

/- What is stored after a heap's call, by what it returned. -/
def remember
    (stored : Int → Option Bytes) :
    RecordCall → Option RecordAnswer → Int → Option Bytes
  | .insert payload, some (.slot (some slotId)) =>
    Function.update stored (slotId : Int) (some payload)
  | .delete slotId, some (.changed true) =>
    Function.update stored slotId none
  | .overwrite slotId payload, some (.changed true) =>
    Function.update stored slotId (some payload)
  | _, _ => stored

theorem attempt_run
    (call : RecordCall)
    (raw : PageBuffer) :
    call.attempt.run raw =
      match call.run.run raw with
      | .ok answer final => .ok (some answer) final
      | .error (.engine _) final => .ok none final
      | .error PageRaise.structError final =>
        .error PageRaise.structError final := rfl

variable {call : RecordCall} {final : PageBuffer}

theorem attempt_ok
    {answer : RecordAnswer}
    (hRun : call.run.run raw = .ok answer final) :
    call.attempt.run raw = .ok (some answer) final := by
  rw [attempt_run, hRun]

theorem attempt_refused
    {raised : EngineError}
    (hRun : call.run.run raw = .error (.engine raised) final) :
    call.attempt.run raw = .ok none final := by
  rw [attempt_run, hRun]

/-
  After a call the buffer holds a page of the same size,
  and after a heap's call that page stores what the answer
  says.
-/
structure Steps
    (call : RecordCall)
    (raw : PageBuffer)
    (page : Page Bytes)
    (answer : Option RecordAnswer)
    (buf : Bytes)
    (page' : Page Bytes)
    (offsets' : Nat → Nat) : Prop where
  run : call.attempt.run raw =
    .ok answer { raw with buf := buf }
  encodes : Encodes { raw with buf := buf } page' offsets'
  size : page'.pageSize = page.pageSize
  stored : call.onHeap = true →
    readAt page' = remember (readAt page) call answer

section Step

/- A call that changes nothing. -/
theorem steps_same
    (hEncodes : Encodes raw page offsets)
    {call : RecordCall}
    {answer : Option RecordAnswer}
    (hRun : call.attempt.run raw = .ok answer raw)
    (hStored : remember (readAt page) call answer =
      readAt page) :
    Steps call raw page answer raw.buf page offsets :=
  ⟨hRun, hEncodes, rfl, fun _ => hStored.symm⟩

theorem insert_steps
    (hEncodes : Encodes raw page offsets)
    (payload : Bytes) :
    ∃ answer buf page' offsets',
      Steps (.insert payload) raw page answer buf page'
        offsets' := by
  have hRun := insert_run hEncodes payload
  cases hInsert : page.insert payload with
  | error raised =>
    rw [hInsert] at hRun
    have hCall : (RecordCall.insert payload).run.run raw =
        .error (.engine raised) raw := by
      change (PageBuffer.insert payload >>= _).run raw = _
      rw [EStateM.run_bind, hRun]
    exact ⟨_, _, _, _, steps_same hEncodes
      (attempt_refused hCall) rfl⟩
  | ok result =>
    rw [hInsert] at hRun
    cases result with
    | none =>
      exact ⟨_, _, _, _, steps_same hEncodes
        (attempt_ok (run_bind_of_ok hRun rfl)) rfl⟩
    | some placed =>
      rcases placed with ⟨slotId, page'⟩
      rcases hRun with ⟨buf, hRun, hAfter⟩
      rcases insert_stores hInsert with
        ⟨hSize, -, hHere, hOther⟩
      exact ⟨_, buf, _, _,
        attempt_ok (run_bind_of_ok hRun rfl), hAfter,
        hSize, fun _ => readAt_update hHere hOther⟩

theorem delete_steps
    (hEncodes : Encodes raw page offsets)
    (slotId : Int) :
    ∃ answer buf page' offsets',
      Steps (.delete slotId) raw page answer buf page'
        offsets' := by
  rcases slot_cases page slotId with hRange |
    ⟨index, rfl, hDead | ⟨payload, hLive⟩⟩
  · have hRun := delete_dead hEncodes
      (hRange.imp_right .inl)
    exact ⟨_, _, _, _, steps_same hEncodes
      (attempt_ok (run_bind_of_ok hRun rfl)) rfl⟩
  · have hRun := @delete_dead raw page offsets hEncodes index
      (.inr (.inr hDead))
    exact ⟨_, _, _, _, steps_same hEncodes
      (attempt_ok (run_bind_of_ok hRun rfl)) rfl⟩
  · rcases delete_live hEncodes hLive with
      ⟨buf, hRun, hAfter⟩
    refine ⟨_, buf, _, _,
      attempt_ok (run_bind_of_ok hRun rfl), hAfter, rfl,
      fun _ => ?_⟩
    exact readAt_update
      (List.getElem?_set_self (Encodes.slot_lt hLive))
      fun other hOther =>
        List.getElem?_set_ne (Ne.symm hOther)

theorem overwrite_steps
    (hEncodes : Encodes raw page offsets)
    (slotId : Int)
    (payload : Bytes) :
    ∃ answer buf page' offsets',
      Steps (.overwrite slotId payload) raw page answer buf
        page' offsets' := by
  rcases slot_cases page slotId with hRange |
    ⟨index, rfl, hDead | ⟨held, hLive⟩⟩
  · have hRun := overwrite_dead hEncodes payload
      (hRange.imp_right .inl)
    exact ⟨_, _, _, _, steps_same hEncodes
      (attempt_ok (run_bind_of_ok hRun rfl)) rfl⟩
  · have hRun := @overwrite_dead raw page offsets hEncodes
      index payload (.inr (.inr hDead))
    exact ⟨_, _, _, _, steps_same hEncodes
      (attempt_ok (run_bind_of_ok hRun rfl)) rfl⟩
  · have hRun := overwrite_live hEncodes hLive payload
    split at hRun
    · exact ⟨_, _, _, _, steps_same hEncodes
        (attempt_ok (run_bind_of_ok hRun rfl)) rfl⟩
    · split at hRun
      · rcases hRun with ⟨message, hRaised⟩
        have hCall : (RecordCall.overwrite index payload).run.run
            raw = .error (.engine (.valueError message))
              raw := by
          change (PageBuffer.overwrite index payload >>= _).run
            raw = _
          rw [EStateM.run_bind, hRaised]
        exact ⟨_, _, _, _, steps_same hEncodes
          (attempt_refused hCall) rfl⟩
      · rcases hRun with ⟨buf, hRun, hAfter⟩
        refine ⟨_, buf, _, _,
          attempt_ok (run_bind_of_ok hRun rfl), hAfter, rfl,
          fun _ => ?_⟩
        exact readAt_update
          (List.getElem?_set_self (Encodes.slot_lt hLive))
          fun other hOther =>
            List.getElem?_set_ne (Ne.symm hOther)

theorem compact_steps
    (hEncodes : Encodes raw page offsets) :
    ∃ answer buf page' offsets',
      Steps .compact raw page answer buf page'
        offsets' := by
  rcases compact_run hEncodes with ⟨buf, slid, hRun, hAfter⟩
  exact ⟨_, buf, _, slid,
    attempt_ok (run_bind_of_ok hRun rfl), hAfter, rfl,
    fun _ => readAt_compact page⟩

theorem insertAt_steps
    (hEncodes : Encodes raw page offsets)
    (index : Int)
    (payload : Bytes) :
    ∃ answer buf page' offsets',
      Steps (.insertAt index payload) raw page answer buf
        page' offsets' := by
  by_cases hRefused :
      payload.length > page.maxPayloadSize ∨
        index < 0 ∨ (page.slotCount : Int) < index
  · rcases insertAt_refused hEncodes hRefused with
      ⟨raised, hRaised⟩
    have hCall : (RecordCall.insertAt index payload).run.run
        raw = .error (.engine raised) raw := by
      change (PageBuffer.insertAt index payload >>= _).run
        raw = _
      rw [EStateM.run_bind, hRaised]
    exact ⟨_, _, _, _, steps_same hEncodes
      (attempt_refused hCall) rfl⟩
  · obtain ⟨position, rfl⟩ : ∃ position : Nat,
        index = position := ⟨index.toNat, by omega⟩
    have hPosition : position ≤ page.slotCount := by omega
    have hLarge : ¬ payload.length > page.maxPayloadSize :=
      fun hMore => hRefused (.inl hMore)
    by_cases hFull :
        payload.length + slotSize > page.freeSpace
    · have hRun := insertAt_full hEncodes hPosition hLarge
        hFull
      exact ⟨_, _, _, _, steps_same hEncodes
        (attempt_ok (run_bind_of_ok hRun rfl)) rfl⟩
    · rcases insertAt_run hEncodes hPosition hLarge
          (Nat.le_of_not_lt hFull) with
        ⟨buf, moved, hRun, hAfter⟩
      exact ⟨_, buf, _, moved,
        attempt_ok (run_bind_of_ok hRun rfl), hAfter, rfl,
        fun hHeap => by cases hHeap⟩

theorem deleteAt_steps
    (hEncodes : Encodes raw page offsets)
    (index : Int) :
    ∃ answer buf page' offsets',
      Steps (.deleteAt index) raw page answer buf page'
        offsets' := by
  by_cases hRange :
      index < 0 ∨ (page.slotCount : Int) ≤ index
  · have hRun := deleteAt_refused hEncodes hRange
    exact ⟨_, _, _, _, steps_same hEncodes
      (attempt_ok (run_bind_of_ok hRun rfl)) rfl⟩
  · obtain ⟨position, rfl⟩ : ∃ position : Nat,
        index = position := ⟨index.toNat, by omega⟩
    have hPosition : position < page.slotCount := by omega
    rcases deleteAt_run hEncodes hPosition with
      ⟨buf, moved, hRun, hAfter⟩
    exact ⟨_, buf, _, moved,
      attempt_ok (run_bind_of_ok hRun rfl), hAfter, rfl,
      fun hHeap => by cases hHeap⟩

theorem clearRecords_steps
    (hEncodes : Encodes raw page offsets) :
    ∃ answer buf page' offsets',
      Steps .clearRecords raw page answer buf page'
        offsets' := by
  rcases clearRecords_run hEncodes with ⟨buf, hRun, hAfter⟩
  exact ⟨_, buf, _, _,
    attempt_ok (run_bind_of_ok hRun rfl), hAfter, rfl,
    fun hHeap => by cases hHeap⟩

theorem steps
    (hEncodes : Encodes raw page offsets)
    (call : RecordCall) :
    ∃ answer buf page' offsets',
      Steps call raw page answer buf page' offsets' := by
  cases call with
  | insert payload => exact insert_steps hEncodes payload
  | insertAt index payload =>
    exact insertAt_steps hEncodes index payload
  | delete slotId => exact delete_steps hEncodes slotId
  | deleteAt index => exact deleteAt_steps hEncodes index
  | overwrite slotId payload =>
    exact overwrite_steps hEncodes slotId payload
  | compact => exact compact_steps hEncodes
  | clearRecords => exact clearRecords_steps hEncodes

end Step

end RecordCall

--
-- Runs
--

/- Calls one after another, with what their answers say is
   stored. -/
def runRecordCalls :
    List RecordCall → (Int → Option Bytes) →
      PageM (Int → Option Bytes)
  | [], stored => return stored
  | call :: rest, stored => do
      let answer ← call.attempt
      runRecordCalls rest (call.remember stored answer)

section Runs

/- A run ends, on a buffer that still holds a page. -/
theorem runRecordCalls_encodes
    (calls : List RecordCall)
    (hEncodes : Encodes raw page offsets)
    (stored : Int → Option Bytes) :
    ∃ ending buf page' offsets',
      (runRecordCalls calls stored).run raw =
        .ok ending { raw with buf := buf } ∧
      Encodes { raw with buf := buf } page' offsets' ∧
      ((∀ call ∈ calls, call.onHeap = true) →
        stored = readAt page → ending = readAt page') := by
  induction calls generalizing raw page offsets stored with
  | nil =>
    exact ⟨stored, raw.buf, page, offsets, rfl, hEncodes,
      fun _ hSame => hSame⟩
  | cons call rest ih =>
    rcases RecordCall.steps hEncodes call with
      ⟨answer, buf, page', offsets', hStep⟩
    rcases ih hStep.encodes (call.remember stored answer)
      with ⟨ending, final, last, lastOffsets, hRun, hLast,
        hStored⟩
    refine ⟨ending, final, last, lastOffsets,
      run_bind_of_ok hStep.run hRun, hLast, ?_⟩
    intro hHeap hSame
    refine hStored
      (fun later hLater =>
        hHeap later (.tail _ hLater)) ?_
    rw [hSame]
    exact (hStep.stored
      (hHeap call (.head _))).symm

end Runs

/- A page is created and the calls are made on it. -/
def fromCreation
    (pageId : PageId)
    (pageType : PageType)
    (pageSize : Nat)
    (calls : List RecordCall) :
    Except PageRaise ((Int → Option Bytes) × PageBuffer) := do
  let page ← PageBuffer.create pageId pageType pageSize
  match (runRecordCalls calls fun _ => none).run page with
  | .ok stored final => .ok (stored, final)
  | .error raised _ => .error raised

/- A page right after its creation, and after the calls. -/
theorem fromCreation_encodes
    (pageId : PageId)
    (pageType : PageType)
    (hValid : validatePageSize pageSize = .ok ())
    (hSmall : pageSize < 65536)
    (calls : List RecordCall) :
    ∃ stored final page offsets,
      fromCreation pageId pageType pageSize calls =
        .ok (stored, final) ∧
      Encodes final page offsets ∧
      ((∀ call ∈ calls, call.onHeap = true) →
        stored = readAt page) := by
  rcases create_run pageId pageType hValid hSmall with
    ⟨buf, hCreate, hEncodes⟩
  rcases runRecordCalls_encodes calls hEncodes fun _ => none with
    ⟨stored, final, page, offsets, hRun, hFinal, hStored⟩
  have hNothing : (fun _ => none) =
      readAt (Page.blank pageType pageSize) := by
    funext slotId
    unfold readAt
    split
    · rfl
    · rfl
  refine ⟨stored, ⟨pageId, final, pageSize⟩, page, offsets, ?_,
    hFinal, fun hHeap => hStored hHeap hNothing⟩
  unfold fromCreation
  rw [hCreate]
  change (match (runRecordCalls calls fun _ => none).run _ with
    | .ok stored final => _
    | .error raised _ => _) = _
  rw [hRun]

/-
  Whatever is called on a page of an accepted size, no field
  is given a value it cannot hold, unless the page is of the
  largest size: then its creation fails.
-/
theorem fields_fit_iff
    (pageId : PageId)
    (pageType : PageType)
    {pageSize : Nat}
    (hValid : validatePageSize pageSize = .ok ())
    (calls : List RecordCall) :
    (∃ ending, fromCreation pageId pageType pageSize calls =
      .ok ending) ↔ pageSize < 65536 := by
  constructor
  · rintro ⟨ending, hRun⟩
    by_contra hLarge
    unfold fromCreation at hRun
    rw [create_overflows pageId pageType hValid
      (Nat.le_of_not_lt hLarge)] at hRun
    cases hRun
  · intro hSmall
    rcases fromCreation_encodes pageId pageType hValid hSmall
        calls with ⟨stored, final, page, offsets, hRun, -⟩
    exact ⟨(stored, final), hRun⟩

/- A page of the default size. -/
theorem fields_fit_default :
    ∃ ending, fromCreation 1 .heap 4096
      [.insert [7], .insertAt 0 [], .delete 1, .compact] =
        .ok ending :=
  (fields_fit_iff 1 .heap (by decide) _).mpr (by decide)

/- A page of the largest size is accepted and never made. -/
theorem fields_overflow_largest :
    validatePageSize 65536 = .ok () ∧
      PageBuffer.create 1 .heap 65536 = .error .structError ∧
      ¬ ∃ ending,
        fromCreation 1 .heap 65536 [] = .ok ending := by
  have hCreate := create_overflows 1 .heap
    (by decide : validatePageSize 65536 = .ok ())
    (Nat.le_refl _)
  refine ⟨by decide, hCreate, ?_⟩
  rintro ⟨ending, hRun⟩
  unfold fromCreation at hRun
  rw [hCreate] at hRun
  cases hRun

end Storage

end ChenDB
