import ChenDB.Storage.PageEncoding

/-
  The record operations of a buffer do to the page it holds
  what the operations of pages do, slot by slot.
-/

namespace ChenDB

namespace Storage

open Library.Buffer Library.Struct Library.StateExcept

--
-- Storing a Record
--

section Insert

variable {raw : PageBuffer} {page : Page Bytes}
variable {offsets : Nat → Nat}

variable {slots : List (Option Bytes)} {slotId : Nat}

theorem slotBytes_set
    {old : Option Bytes}
    (hSlot : slots[slotId]? = some old)
    (new : Option Bytes) :
    slotBytes (slots.set slotId new) + slotBytes [old] =
      slotBytes slots + slotBytes [new] := by
  induction slots generalizing slotId with
  | nil => cases hSlot
  | cons slot slots ih =>
    cases slotId with
    | zero =>
      cases hSlot
      have hNew := slotBytes_append [new] slots
      have hOld := slotBytes_append [old] slots
      simp only [List.singleton_append] at hNew hOld
      simp only [List.set_cons_zero]
      omega
    | succ slotId =>
      have hRest := ih hSlot
      have hNew := slotBytes_append [slot]
        (slots.set slotId new)
      have hOld := slotBytes_append [slot] slots
      simp only [List.singleton_append] at hNew hOld
      simp only [List.set_cons_succ]
      omega

/- A slot added at the end changes no other. -/
theorem getElem?_concat_of_ne
    (slots : List (Option Bytes))
    (slot : Option Bytes)
    {other : Nat}
    (hOther : other ≠ slots.length) :
    (slots ++ [slot])[other]? = slots[other]? := by
  rcases Nat.lt_or_gt_of_ne hOther with hLess | hMore
  · exact List.getElem?_append_left hLess
  · have hLong : (slots ++ [slot]).length ≤ other := by
      rw [List.length_append]
      exact hMore
    rw [List.getElem?_eq_none hLong,
      List.getElem?_eq_none (Nat.le_of_lt hMore)]

/-
  A rearranged directory: slot `fresh` may hold a payload
  put right below the records, every other slot is where
  `old` says one was before.
-/
theorem Holds.moved
    {before buf : Bytes}
    {slots slots' : List (Option Bytes)}
    {bottom bottom' top fresh : Nat}
    {payload : Bytes}
    {old : Nat → Nat}
    (hHolds : Holds before slots offsets bottom top)
    (hFresh : ∀ slot, slots'[fresh]? = some slot →
      slot = some payload ∧
        bottom' + payload.length = bottom ∧
        slice buf (PageBuffer.slotOffset fresh)
            (PageBuffer.slotOffset fresh + 4) =
          entryBytes (some payload) bottom' ∧
        slice buf bottom' (bottom' + payload.length) = payload)
    (hBottom : bottom' ≤ bottom)
    (hTop : bottom ≤ top)
    (hDistinct : ∀ first second, first ≠ fresh →
      second ≠ fresh → old first = old second → first = second)
    (hOld : ∀ slotId, slotId ≠ fresh →
      slots'[slotId]? = slots[old slotId]?)
    (hEntry : ∀ slotId, slotId ≠ fresh →
      slotId < slots'.length →
        slice buf (PageBuffer.slotOffset slotId)
            (PageBuffer.slotOffset slotId + 4) =
          slice before (PageBuffer.slotOffset (old slotId))
            (PageBuffer.slotOffset (old slotId) + 4))
    (hRecords : ∀ first last, bottom ≤ first →
      slice buf first last = slice before first last) :
    Holds buf slots'
      (fun slotId =>
        if slotId = fresh then bottom'
        else offsets (old slotId)) bottom' top where
  entry slotId slot hSlot := by
    by_cases hSame : slotId = fresh
    · subst hSame
      rcases hFresh slot hSlot with ⟨rfl, -, hNew, -⟩
      rw [if_pos rfl]
      exact hNew
    · have hWithin : slotId < slots'.length :=
        (List.getElem?_eq_some_iff.mp hSlot).1
      rw [if_neg hSame, hEntry slotId hSame hWithin]
      rw [hOld slotId hSame] at hSlot
      exact hHolds.entry (old slotId) slot hSlot
  region slotId held hSlot := by
    by_cases hSame : slotId = fresh
    · subst hSame
      rcases hFresh _ hSlot with ⟨hHeld, hBelow, -, -⟩
      cases hHeld
      rw [if_pos rfl]
      omega
    · rw [if_neg hSame]
      rw [hOld slotId hSame] at hSlot
      have hRegion := hHolds.region _ held hSlot
      omega
  record slotId held hSlot := by
    by_cases hSame : slotId = fresh
    · subst hSame
      rcases hFresh _ hSlot with ⟨hHeld, -, -, hBytes⟩
      cases hHeld
      rw [if_pos rfl]
      exact hBytes
    · rw [if_neg hSame]
      rw [hOld slotId hSame] at hSlot
      have hRegion := hHolds.region _ held hSlot
      rw [hRecords _ _ hRegion.1]
      exact hHolds.record _ held hSlot
  apart first second held other hApart hFirst hSecond := by
    -- The new record ends where the old region starts.
    by_cases hNewFirst : first = fresh
    · subst hNewFirst
      rcases hFresh _ hFirst with ⟨hHeld, hBelow, -, -⟩
      cases hHeld
      rw [hOld second (Ne.symm hApart)] at hSecond
      have hRegion := hHolds.region _ other hSecond
      rw [if_pos rfl, if_neg (Ne.symm hApart)]
      omega
    · rw [hOld first hNewFirst] at hFirst
      have hRegion := hHolds.region _ held hFirst
      rw [if_neg hNewFirst]
      by_cases hNewSecond : second = fresh
      · subst hNewSecond
        rcases hFresh _ hSecond with ⟨hHeld, hBelow, -, -⟩
        cases hHeld
        rw [if_pos rfl]
        omega
      · rw [hOld second hNewSecond] at hSecond
        rw [if_neg hNewSecond]
        exact hHolds.apart _ _ held other
          (fun hEq => hApart
            (hDistinct first second hNewFirst hNewSecond hEq))
          hFirst hSecond

variable {buf payload : Bytes}

/-
  A payload below the records and an entry for it, with the
  bytes of every other slot and record as they were.
-/
theorem Holds.placed
    {before : Bytes}
    {slots' : List (Option Bytes)}
    {bottom bottom' top : Nat}
    (hHolds : Holds before slots offsets bottom top)
    (hEntry : slice buf (PageBuffer.slotOffset slotId)
        (PageBuffer.slotOffset slotId + 4) =
      entryBytes (some payload) bottom')
    (hPayload : slice buf bottom'
      (bottom' + payload.length) = payload)
    (hKept : ∀ first last, 20 ≤ first →
      last ≤ PageBuffer.slotOffset slotId ∨
        PageBuffer.slotOffset slotId + 4 ≤ first →
      last ≤ bottom' ∨ bottom ≤ first →
        slice buf first last = slice before first last)
    (hFits : PageBuffer.slotOffset slots'.length ≤ bottom')
    (hBelow : bottom' + payload.length = bottom)
    (hTop : bottom ≤ top)
    (hHeld : slots'[slotId]? = some (some payload))
    (hOther : ∀ other, other ≠ slotId →
      slots'[other]? = slots[other]?) :
    Holds buf slots'
      (Function.update offsets slotId bottom') bottom'
      top := by
  have hWithin : slotId < slots'.length :=
    (List.getElem?_eq_some_iff.mp hHeld).1
  rw [slotOffset_eq] at hFits
  have hMoved := @Holds.moved offsets before buf slots slots'
    bottom bottom' top slotId payload id hHolds
    (fun slot hSlot => by
      rw [hHeld] at hSlot
      exact ⟨(Option.some.inj hSlot).symm, hBelow, hEntry,
        hPayload⟩)
    (by omega) hTop (fun _ _ _ _ hEq => hEq) hOther
    (fun other hNe hIn => hKept _ _
      (by rw [slotOffset_eq]; omega)
      (by simp only [slotOffset_eq]; omega)
      (by simp only [slotOffset_eq]; omega))
    (fun first last hAbove => hKept _ _ (by omega)
      (by simp only [slotOffset_eq]; omega) (.inr hAbove))
  have hOffsets : Function.update offsets slotId bottom' =
      fun other =>
        if other = slotId then bottom'
        else offsets (id other) :=
    funext fun other => Function.update_apply _ _ _ _
  rw [hOffsets]
  exact hMoved

theorem Encodes.placed
    (hEncodes : Encodes raw page offsets)
    {page' : Page Bytes}
    (payload : Bytes)
    (hLength : buf.length = raw.buf.length)
    (hCount : slice buf 14 16 = encode 2 page'.slotCount)
    (hStart : slice buf 16 18 = encode 2 page'.freeStart)
    (hEnd : slice buf 18 20 = encode 2 page'.freeEnd)
    (hEntry : slice buf (PageBuffer.slotOffset slotId)
        (PageBuffer.slotOffset slotId + 4) =
      entryBytes (some payload) page'.freeEnd)
    (hPayload : slice buf page'.freeEnd
      (page'.freeEnd + payload.length) = payload)
    (hKept : ∀ first last, 20 ≤ first →
      last ≤ PageBuffer.slotOffset slotId ∨
        PageBuffer.slotOffset slotId + 4 ≤ first →
      last ≤ page'.freeEnd ∨ page.freeEnd ≤ first →
        slice buf first last = slice raw.buf first last)
    (hSize : page'.pageSize = page.pageSize)
    (hDirectory : page'.freeStart =
      PageBuffer.slotOffset page'.slotCount)
    (hFits : page'.freeStart ≤ page'.freeEnd)
    (hBelow : page'.freeEnd + payload.length = page.freeEnd)
    (hHeld : page'.slots[slotId]? = some (some payload))
    (hOther : ∀ other, other ≠ slotId →
      page'.slots[other]? = page.slots[other]?)
    (hLive : page'.liveBytes =
      page.liveBytes + payload.length) :
    Encodes { raw with buf := buf } page'
      (Function.update offsets slotId page'.freeEnd) where
  toHolds := by
    rw [hSize]
    exact hEncodes.toHolds.placed hEntry hPayload hKept
      (hDirectory ▸ hFits) hBelow hEncodes.inside hHeld hOther
  size := hEncodes.size.trans hSize.symm
  length := (hLength.trans hEncodes.length).trans hSize.symm
  large := hSize ▸ hEncodes.large
  small := hSize ▸ hEncodes.small
  slotCount := hCount
  freeStart := hStart
  freeEnd := hEnd
  directory := hDirectory
  fits := hFits
  inside := by
    have hInside := hEncodes.inside
    omega
  room := by
    have hRoom := hEncodes.room
    omega

theorem maxPayloadSize_eq
    (hEncodes : Encodes raw page offsets) :
    raw.maxPayloadSize = (page.maxPayloadSize : Int) := by
  have hLarge := hEncodes.large
  unfold PageBuffer.maxPayloadSize Page.maxPayloadSize
  rw [hEncodes.size]
  omega

/- A dead slot the scan finds. -/
theorem findDeadSlot_some
    (hDead : page.findDeadSlot = some slotId) :
    page.slots[slotId]? = some none := by
  unfold Page.findDeadSlot at hDead
  rcases List.findIdx?_eq_some_iff_getElem.mp hDead with
    ⟨hSlot, hNone, -⟩
  rw [List.getElem?_eq_getElem hSlot]
  exact congrArg some (Option.isNone_iff_eq_none.mp hNone)

/- The page after storing in a dead slot. -/
def reused
    (page : Page Bytes)
    (slotId : Nat)
    (payload : Bytes) : Page Bytes :=
  { page with
    slots := page.slots.set slotId (some payload)
    freeEnd := page.freeEnd - payload.length }

/- The page after storing in a new slot. -/
def appended
    (page : Page Bytes)
    (payload : Bytes) : Page Bytes :=
  { page with
    slots := page.slots ++ [some payload]
    freeStart := page.freeStart + slotSize
    freeEnd := page.freeEnd - payload.length }

theorem insert_too_large
    (hEncodes : Encodes raw page offsets)
    (hLarge : payload.length > page.maxPayloadSize) :
    (PageBuffer.insert payload).run raw =
      .error (.engine (.recordTooLarge
        (s!"record of {payload.length} bytes exceeds the " ++
          s!"{page.maxPayloadSize}-byte limit for a " ++
          s!"{page.pageSize}-byte page"))) raw := by
  unfold PageBuffer.insert
  refine run_bind_of_ok (EStateM.run_get raw) ?_
  simp only []
  rw [if_pos (by rw [maxPayloadSize_eq hEncodes]; omega),
    maxPayloadSize_eq hEncodes, hEncodes.size]
  rfl

theorem insert_full
    (hEncodes : Encodes raw page offsets)
    (hLarge : ¬ payload.length > page.maxPayloadSize)
    (hFull : page.spaceNeededFor payload.length >
      page.freeSpace) :
    (PageBuffer.insert payload).run raw =
      .ok none raw := by
  unfold PageBuffer.insert
  refine run_bind_of_ok (EStateM.run_get raw) ?_
  simp only []
  rw [if_neg (by rw [maxPayloadSize_eq hEncodes]; omega)]
  refine run_bind_of_ok (findDeadSlot_run hEncodes) ?_
  refine run_bind_of_ok hEncodes.freeSpace_run ?_
  unfold Page.spaceNeededFor at hFull
  rw [if_pos (by omega)]
  rfl

theorem insert_reuses
    (hEncodes : Encodes raw page offsets)
    (hLarge : ¬ payload.length > page.maxPayloadSize)
    (hDead : page.findDeadSlot = some slotId)
    (hRoom : payload.length ≤ page.freeSpace) :
    ∃ buf, (PageBuffer.insert payload).run raw =
        .ok (some slotId) { raw with buf := buf } ∧
      Encodes { raw with buf := buf }
        (reused page slotId payload)
        (Function.update offsets slotId
          (page.freeEnd - payload.length)) := by
  have hSlot := findDeadSlot_some hDead
  have hBelow := Encodes.slot_lt hSlot
  have hWithin := hEncodes.slot_within hBelow
  have hFits := hEncodes.fits
  have hInside := hEncodes.inside
  have hSmall := hEncodes.small
  have hLength := hEncodes.length
  have hStart := hEncodes.freeStart_eq
  unfold Page.freeSpace at hRoom
  have hNew : (page.freeEnd : Int) - (payload.length : Int) =
      ((page.freeEnd - payload.length : Nat) : Int) := by
    omega
  have hStop : ((page.freeEnd - payload.length : Nat) : Int) +
      (payload.length : Int) = (page.freeEnd : Int) := by
    omega
  rcases @assign_run raw (page.freeEnd - payload.length)
      page.freeEnd payload (by omega) (by omega) with
    ⟨stored, hStoredRun, hStored⟩
  rcases @writeSlot_run { raw with buf := stored }
      (page.freeEnd - payload.length) slotId payload.length
      (by rw [hStored.length]; omega) (by omega) (by omega)
    with ⟨listed, hListedRun, hListed⟩
  rcases @setFreeEnd_run { raw with buf := listed }
      (page.freeEnd - payload.length)
      (by rw [hListed.length, hStored.length]; omega)
      (by omega) with ⟨buf, hEndRun, hEnd⟩
  have hKept : ∀ first last, 20 ≤ first →
      last ≤ PageBuffer.slotOffset slotId ∨
        PageBuffer.slotOffset slotId + 4 ≤ first →
      last ≤ page.freeEnd - payload.length ∨
        page.freeEnd ≤ first →
        slice buf first last = slice raw.buf first last := by
    intro first last hHeader hEntry hRecord
    rw [hEnd.outside _ _ (.inr hHeader),
      hListed.outside _ _ hEntry,
      hStored.outside _ _ hRecord]
  refine ⟨buf, ?_, ?_⟩
  · unfold PageBuffer.insert
    refine run_bind_of_ok (EStateM.run_get raw) ?_
    simp only []
    rw [if_neg (by rw [maxPayloadSize_eq hEncodes]; omega)]
    refine run_bind_of_ok (findDeadSlot_run hEncodes) ?_
    refine run_bind_of_ok hEncodes.freeSpace_run ?_
    rw [hDead]
    simp only [Option.isSome_some, if_true]
    unfold Page.freeSpace
    rw [if_neg (by omega)]
    refine run_bind_of_ok hEncodes.freeEnd_run ?_
    rw [hNew, hStop]
    refine run_bind_of_ok hStoredRun ?_
    refine run_bind_of_ok hListedRun ?_
    refine run_bind_of_ok hEndRun ?_
    rfl
  · have hHeader : 20 ≤ PageBuffer.slotOffset slotId := by
      rw [slotOffset_eq]
      omega
    refine hEncodes.placed payload ?_ ?_ ?_ hEnd.inside ?_ ?_ hKept
      rfl ?_ ?_ ?_ ?_ ?_ ?_
    · rw [hEnd.length, hListed.length, hStored.length]
    · rw [hEnd.outside _ _ (.inl (by decide)),
        hListed.outside _ _ (by omega),
        hStored.outside _ _ (by omega), hEncodes.slotCount]
      unfold reused Page.slotCount
      rw [List.length_set]
    · rw [hEnd.outside _ _ (.inl (by decide)),
        hListed.outside _ _ (by omega),
        hStored.outside _ _ (by omega)]
      exact hEncodes.freeStart
    · rw [hEnd.outside _ _ (.inr hHeader)]
      exact hListed.inside
    · have hTop : (reused page slotId payload).freeEnd +
          payload.length = page.freeEnd :=
        Nat.sub_add_cancel (by omega)
      rw [hTop, hEnd.outside _ _ (.inr (by
          unfold reused
          simp only []
          omega)),
        hListed.outside _ _ (.inr (by
          unfold reused
          simp only []
          omega))]
      exact hStored.inside
    · unfold reused Page.slotCount
      simp only [List.length_set]
      exact hEncodes.directory
    · unfold reused
      simp only []
      omega
    · exact Nat.sub_add_cancel (by omega)
    · unfold reused
      exact List.getElem?_set_self hBelow
    · intro other hOther
      unfold reused
      exact List.getElem?_set_ne (Ne.symm hOther)
    · have hSum := slotBytes_set hSlot (some payload)
      exact hSum

/- What listing a new slot writes: the fields of the header,
   and the entry. -/
structure ListsSlot
    (before after : Bytes)
    (count start offset size slotId : Nat) : Prop where
  length : after.length = before.length
  slotCount : slice after 14 16 = encode 2 count
  freeStart : slice after 16 18 = encode 2 start
  freeEnd : slice after 18 20 = encode 2 offset
  entry : slice after (PageBuffer.slotOffset slotId)
      (PageBuffer.slotOffset slotId + 4) =
    pack [(2, offset), (2, size)]
  outside : ∀ first last, 20 ≤ first →
    last ≤ PageBuffer.slotOffset slotId ∨
      PageBuffer.slotOffset slotId + 4 ≤ first →
    slice after first last = slice before first last

/- The end of `insert` and of `insert_at`. -/
theorem lists_run
    {α : Type}
    (value : α)
    {count start offset size : Nat}
    (hInside :
      PageBuffer.slotOffset slotId + 4 ≤ raw.buf.length)
    (hStart : slice raw.buf 16 18 = encode 2 start)
    (hCount : count + 1 < 65536)
    (hNext : start + slotSize < 65536)
    (hOffset : offset < 65536)
    (hSize : size < 65536) :
    ∃ buf, (do
        PageBuffer.setSlotCount (count + 1)
        PageBuffer.setFreeStart
          ((← PageBuffer.freeStart) + slotSize)
        PageBuffer.writeSlot slotId offset size
        PageBuffer.setFreeEnd offset
        return value : PageM α).run raw =
          .ok value { raw with buf := buf } ∧
      ListsSlot raw.buf buf (count + 1) (start + slotSize) offset
        size slotId := by
  have hHere := slotOffset_eq slotId
  rcases @setSlotCount_run raw (count + 1) (by omega) hCount
    with ⟨counted, hCountedRun, hCounted⟩
  have hOldStart : PageBuffer.freeStart.run
      { raw with buf := counted } =
        .ok start { raw with buf := counted } :=
    freeStart_of (by rw [hCounted.length]; omega) (by omega)
      (by rw [hCounted.outside _ _ (by omega)]; exact hStart)
  rcases @setFreeStart_run { raw with buf := counted }
      (start + slotSize) (by rw [hCounted.length]; omega)
      hNext with ⟨started, hStartedRun, hStarted⟩
  have hLength := hStarted.length.trans hCounted.length
  rcases @writeSlot_run { raw with buf := started } offset
      slotId size (by rw [hLength]; exact hInside) hOffset
      hSize with ⟨listed, hListedRun, hListed⟩
  rcases @setFreeEnd_run { raw with buf := listed } offset
      (by rw [hListed.length, hLength]; omega) hOffset with
    ⟨buf, hEndRun, hEnd⟩
  refine ⟨buf, ?_, ?_, ?_, ?_, hEnd.inside, ?_, ?_⟩
  · refine run_bind_of_ok hCountedRun ?_
    refine run_bind_of_ok hOldStart ?_
    refine run_bind_of_ok hStartedRun ?_
    refine run_bind_of_ok hListedRun ?_
    exact run_bind_of_ok hEndRun rfl
  · rw [hEnd.length, hListed.length, hLength]
  · rw [hEnd.outside _ _ (by omega),
      hListed.outside _ _ (by omega),
      hStarted.outside _ _ (by omega)]
    exact hCounted.inside
  · rw [hEnd.outside _ _ (by omega),
      hListed.outside _ _ (by omega)]
    exact hStarted.inside
  · rw [hEnd.outside _ _ (by omega)]
    exact hListed.inside
  · intro first last hHeader hEntry
    rw [hEnd.outside _ _ (.inr hHeader),
      hListed.outside _ _ hEntry,
      hStarted.outside _ _ (by omega),
      hCounted.outside _ _ (by omega)]

theorem insert_appends
    (hEncodes : Encodes raw page offsets)
    (hLarge : ¬ payload.length > page.maxPayloadSize)
    (hDead : page.findDeadSlot = none)
    (hRoom : payload.length + slotSize ≤ page.freeSpace) :
    ∃ buf, (PageBuffer.insert payload).run raw =
        .ok (some page.slotCount) { raw with buf := buf } ∧
      Encodes { raw with buf := buf } (appended page payload)
        (Function.update offsets page.slotCount
          (page.freeEnd - payload.length)) := by
  have hFits := hEncodes.fits
  have hInside := hEncodes.inside
  have hSmall := hEncodes.small
  have hLength := hEncodes.length
  have hStart := hEncodes.freeStart_eq
  have hOffset := slotOffset_eq page.slotCount
  have hSlotSize : slotSize = 4 := rfl
  unfold Page.freeSpace at hRoom
  have hNew : (page.freeEnd : Int) - (payload.length : Int) =
      ((page.freeEnd - payload.length : Nat) : Int) := by
    omega
  have hStop : ((page.freeEnd - payload.length : Nat) : Int) +
      (payload.length : Int) = (page.freeEnd : Int) := by
    omega
  rcases @assign_run raw (page.freeEnd - payload.length)
      page.freeEnd payload (by omega) (by omega) with
    ⟨stored, hStoredRun, hStored⟩
  have hOldCount : PageBuffer.slotCount.run
      { raw with buf := stored } =
        .ok page.slotCount { raw with buf := stored } :=
    slotCount_of (by rw [hStored.length]; omega) (by omega)
      (by
        rw [hStored.outside _ _ (by omega)]
        exact hEncodes.slotCount)
  rcases @lists_run { raw with buf := stored } page.slotCount
      _ (some page.slotCount) page.slotCount page.freeStart
      (page.freeEnd - payload.length) payload.length
      (by rw [hStored.length]; omega)
      (by
        rw [hStored.outside _ _ (by omega)]
        exact hEncodes.freeStart)
      (by omega) (by omega) (by omega) (by omega) with
    ⟨buf, hListsRun, hLists⟩
  refine ⟨buf, ?_, ?_⟩
  · unfold PageBuffer.insert
    refine run_bind_of_ok (EStateM.run_get raw) ?_
    simp only []
    rw [if_neg (by rw [maxPayloadSize_eq hEncodes]; omega)]
    refine run_bind_of_ok (findDeadSlot_run hEncodes) ?_
    refine run_bind_of_ok hEncodes.freeSpace_run ?_
    rw [hDead]
    simp only [Option.isSome_none, Bool.false_eq_true,
      if_false]
    unfold Page.freeSpace
    rw [if_neg (by omega)]
    refine run_bind_of_ok hEncodes.freeEnd_run ?_
    rw [hNew, hStop]
    refine run_bind_of_ok hStoredRun ?_
    exact run_bind_of_ok hOldCount hListsRun
  · have hCount : (appended page payload).slotCount =
        page.slotCount + 1 := List.length_append
    refine hEncodes.placed payload
      (hLists.length.trans hStored.length)
      (hCount ▸ hLists.slotCount) hLists.freeStart
      hLists.freeEnd hLists.entry ?_ ?_ rfl ?_ ?_ ?_ ?_ ?_ ?_
    · have hTop : (appended page payload).freeEnd +
          payload.length = page.freeEnd :=
        Nat.sub_add_cancel (by omega)
      have hBottom : (appended page payload).freeEnd =
          page.freeEnd - payload.length := rfl
      rw [hTop, hBottom,
        hLists.outside _ _ (by omega) (by omega)]
      exact hStored.inside
    · intro first last hHeader hEntry hRecord
      rw [hLists.outside _ _ hHeader hEntry,
        hStored.outside _ _ hRecord]
    · rw [hCount, slotOffset_eq]
      unfold appended
      simp only []
      omega
    · unfold appended
      simp only []
      omega
    · exact Nat.sub_add_cancel (by omega)
    · exact List.getElem?_concat_length
    · exact fun other hOther =>
        getElem?_concat_of_ne page.slots _ hOther
    · exact slotBytes_append page.slots [some payload]

/- `insert` on the buffer is `insert` on its page. -/
theorem insert_run
    (hEncodes : Encodes raw page offsets)
    (payload : Bytes) :
    match page.insert payload with
    | .error raised =>
      (PageBuffer.insert payload).run raw =
        .error (.engine raised) raw
    | .ok none =>
      (PageBuffer.insert payload).run raw = .ok none raw
    | .ok (some (slotId, page')) =>
      ∃ buf, (PageBuffer.insert payload).run raw =
          .ok (some slotId) { raw with buf := buf } ∧
        Encodes { raw with buf := buf } page'
          (Function.update offsets slotId
            page'.freeEnd) := by
  have hSize : Payload.size payload = payload.length := rfl
  unfold Page.insert
  simp only [hSize]
  by_cases hLarge : payload.length > page.maxPayloadSize
  · rw [if_pos hLarge]
    exact insert_too_large hEncodes hLarge
  · rw [if_neg hLarge]
    by_cases hFull : page.spaceNeededFor payload.length >
        page.freeSpace
    · rw [if_pos hFull]
      exact insert_full hEncodes hLarge hFull
    · rw [if_neg hFull]
      unfold Page.spaceNeededFor at hFull
      cases hDead : page.findDeadSlot with
      | some slotId =>
        rw [hDead] at hFull
        exact insert_reuses hEncodes hLarge hDead
          (Nat.le_of_not_lt hFull)
      | none =>
        rw [hDead] at hFull
        exact insert_appends hEncodes hLarge hDead
          (Nat.le_of_not_lt hFull)

end Insert

--
-- Deleting and Overwriting
--

section Change

variable {raw : PageBuffer} {page : Page Bytes}
variable {offsets : Nat → Nat}

/- A slot id is none of the directory's, or dead, or live. -/
theorem slot_cases
    (page : Page Bytes)
    (slotId : Int) :
    (slotId < 0 ∨ (page.slotCount : Int) ≤ slotId) ∨
      ∃ index : Nat, slotId = index ∧
        (page.slots[index]? = some none ∨
          ∃ payload,
            page.slots[index]? = some (some payload)) := by
  by_cases hRange : slotId < 0 ∨ (page.slotCount : Int) ≤ slotId
  · exact .inl hRange
  · have hSlot : slotId.toNat < page.slots.length := by
      unfold Page.slotCount at hRange
      omega
    have hHere := List.getElem?_eq_getElem hSlot
    refine .inr ⟨slotId.toNat, by omega, ?_⟩
    cases hFound : page.slots[slotId.toNat] with
    | none => exact .inl (hFound ▸ hHere)
    | some payload => exact .inr ⟨payload, hFound ▸ hHere⟩

/- The page with another payload, or none, in a live slot. -/
def replaced
    (page : Page Bytes)
    (slotId : Nat)
    (slot : Option Bytes) : Page Bytes :=
  { page with slots := page.slots.set slotId slot }

theorem slotCount_replaced
    (slotId : Nat)
    (slot : Option Bytes) :
    (replaced page slotId slot).slotCount = page.slotCount :=
  List.length_set

variable {slotId : Nat} {payload : Bytes}

section Encoded

variable (hEncodes : Encodes raw page offsets)

include hEncodes

/-
  The entry of one live slot and the bytes of its record may
  change; the new payload is no longer than the old one.
-/
theorem Encodes.to_replaced
    {buf : Bytes}
    {slot : Option Bytes}
    (hSlot : page.slots[slotId]? = some (some payload))
    (hLength : buf.length = raw.buf.length)
    (hEntry : slice buf (PageBuffer.slotOffset slotId)
        (PageBuffer.slotOffset slotId + 4) =
      entryBytes slot (offsets slotId))
    (hRecord : ∀ held, slot = some held →
      held.length = payload.length ∧
        slice buf (offsets slotId)
          (offsets slotId + held.length) = held)
    (hKept : ∀ first last,
      last ≤ PageBuffer.slotOffset slotId ∨
        PageBuffer.slotOffset slotId + 4 ≤ first →
      last ≤ offsets slotId ∨
        offsets slotId + payload.length ≤ first →
        slice buf first last = slice raw.buf first last) :
    Encodes { raw with buf := buf }
      (replaced page slotId slot) offsets := by
  have hBelow := slot_lt hSlot
  have hWithin := hEncodes.slot_within hBelow
  have hRegion := hEncodes.region slotId payload hSlot
  have hFits := hEncodes.fits
  have hOffset := slotOffset_eq slotId
  have hHeader : ∀ first last, last ≤ 20 →
      slice buf first last = slice raw.buf first last :=
    fun first last hLast =>
      hKept first last (by omega) (by omega)
  have hOther : ∀ other, other ≠ slotId →
      (replaced page slotId slot).slots[other]? =
        page.slots[other]? := fun other hNe =>
    List.getElem?_set_ne (Ne.symm hNe)
  have hHere : (replaced page slotId slot).slots[
      slotId]? = some slot := List.getElem?_set_self hBelow
  have hShorter : slotBytes [slot] ≤
      slotBytes [some payload] := by
    cases slot with
    | none => exact Nat.zero_le _
    | some held =>
      have hSame := (hRecord held rfl).1
      exact Nat.le_of_eq hSame
  have hLive : (replaced page slotId slot).liveBytes ≤
      page.liveBytes := by
    have hSum := slotBytes_set hSlot slot
    change slotBytes (page.slots.set slotId slot) ≤
      slotBytes page.slots
    omega
  refine ⟨⟨?_, ?_, ?_, ?_⟩, hEncodes.size,
    hLength.trans hEncodes.length, hEncodes.large,
    hEncodes.small, ?_, ?_, ?_, ?_, hFits, hEncodes.inside,
    ?_⟩
  · intro other held hHeld
    by_cases hSame : other = slotId
    · subst hSame
      rw [hHere] at hHeld
      cases hHeld
      exact hEntry
    · rw [hOther other hSame] at hHeld
      have hEnd := hEncodes.slot_within (slot_lt hHeld)
      rw [hKept _ _ (by simp only [slotOffset_eq]; omega)
        (by omega)]
      exact hEncodes.entry other held hHeld
  · intro other held hHeld
    by_cases hSame : other = slotId
    · subst hSame
      rw [hHere] at hHeld
      have hLengths := (hRecord held (Option.some.inj hHeld)).1
      rw [hLengths]
      exact hRegion
    · rw [hOther other hSame] at hHeld
      exact hEncodes.region other held hHeld
  · intro other held hHeld
    by_cases hSame : other = slotId
    · subst hSame
      rw [hHere] at hHeld
      exact (hRecord held (Option.some.inj hHeld)).2
    · rw [hOther other hSame] at hHeld
      have hApart := hEncodes.apart other slotId held payload
        hSame hHeld hSlot
      have hBehind := hEncodes.region other held hHeld
      rw [hKept _ _ (by omega) (by omega)]
      exact hEncodes.record other held hHeld
  · intro first second held other hDistinct hFirst hSecond
    -- A changed record takes no more room than it had.
    have hOld : ∀ (index : Nat) (found : Bytes),
        (replaced page slotId slot).slots[index]? =
          some (some found) →
        ∃ before : Bytes,
          page.slots[index]? = some (some before) ∧
          before.length = found.length := by
      intro index found hFound
      by_cases hSame : index = slotId
      · subst hSame
        rw [hHere] at hFound
        exact ⟨payload, hSlot,
          (hRecord found (Option.some.inj hFound)).1.symm⟩
      · rw [hOther index hSame] at hFound
        exact ⟨found, hFound, rfl⟩
    rcases hOld first held hFirst with
      ⟨firstOld, hFirstOld, hFirstSize⟩
    rcases hOld second other hSecond with
      ⟨secondOld, hSecondOld, hSecondSize⟩
    have hApart := hEncodes.apart first second firstOld
      secondOld hDistinct hFirstOld hSecondOld
    omega
  · rw [hHeader _ _ (by decide), slotCount_replaced]
    exact hEncodes.slotCount
  · rw [hHeader _ _ (by decide)]
    exact hEncodes.freeStart
  · rw [hHeader _ _ (by decide)]
    exact hEncodes.freeEnd
  · rw [slotCount_replaced]
    exact hEncodes.directory
  · have hRoom := hEncodes.room
    change page.freeEnd + _ ≤ page.pageSize
    omega

/- A slot that is not live is left alone, whatever is done to
   one that is. -/
theorem dead_run
    {slotId : Int}
    (hDead : slotId < 0 ∨
      (page.slotCount : Int) ≤ slotId ∨
        page.slots[slotId.toNat]? = some none)
    {rest : Nat × Nat → PageM Bool}
    (hRest : (rest (0, 0)).run raw = .ok false raw) :
    (do
      let count ← PageBuffer.slotCount
      if slotId < 0 ∨ (count : Int) ≤ slotId then
        return false
      else
        rest (← PageBuffer.readSlot slotId.toNat)).run raw =
      .ok false raw := by
  refine run_bind_of_ok hEncodes.slotCount_run ?_
  by_cases hRange : slotId < 0 ∨ (page.slotCount : Int) ≤ slotId
  · rw [if_pos hRange]
    rfl
  · rw [if_neg hRange]
    have hSlot : page.slots[slotId.toNat]? = some none := by
      rcases hDead with hLow | hHigh | hSlot
      · exact absurd (.inl hLow) hRange
      · exact absurd (.inr hHigh) hRange
      · exact hSlot
    exact run_bind_of_ok (hEncodes.readSlot_dead hSlot) hRest

theorem delete_dead
    {slotId : Int}
    (hDead : slotId < 0 ∨
      (page.slotCount : Int) ≤ slotId ∨
        page.slots[slotId.toNat]? = some none) :
    (PageBuffer.delete slotId).run raw = .ok false raw :=
  dead_run hEncodes hDead rfl

theorem delete_live
    (hSlot : page.slots[slotId]? = some (some payload)) :
    ∃ buf, (PageBuffer.delete slotId).run raw =
        .ok true { raw with buf := buf } ∧
      Encodes { raw with buf := buf }
        (replaced page slotId none) offsets := by
  have hBelow := Encodes.slot_lt hSlot
  have hWithin := hEncodes.slot_within hBelow
  have hFits := hEncodes.fits
  have hInside := hEncodes.inside
  have hLength := hEncodes.length
  rcases @writeSlot_run raw 0 slotId 0 (by omega) (by decide)
      (by decide) with ⟨buf, hRun, hWrote⟩
  refine ⟨buf, ?_, ?_⟩
  · unfold PageBuffer.delete
    refine run_bind_of_ok hEncodes.slotCount_run ?_
    rw [if_neg (by omega), Int.toNat_natCast]
    refine run_bind_of_ok (hEncodes.readSlot_live hSlot) ?_
    simp only []
    rw [if_neg (hEncodes.offset_pos hSlot)]
    exact run_bind_of_ok hRun rfl
  · refine hEncodes.to_replaced hSlot hWrote.length
      hWrote.inside ?_ ?_
    · intro held hHeld
      cases hHeld
    · intro first last hEntry _
      exact hWrote.outside first last hEntry

theorem overwrite_dead
    {slotId : Int}
    (payload : Bytes)
    (hDead : slotId < 0 ∨
      (page.slotCount : Int) ≤ slotId ∨
        page.slots[slotId.toNat]? = some none) :
    (PageBuffer.overwrite slotId payload).run raw =
      .ok false raw :=
  dead_run hEncodes hDead rfl

/- An empty record is taken for a dead slot, another length
   is refused, and the same length replaces the record. -/
theorem overwrite_live
    {held : Bytes}
    (hSlot : page.slots[slotId]? = some (some held))
    (payload : Bytes) :
    if held.length = 0 then
      (PageBuffer.overwrite slotId payload).run raw =
        .ok false raw
    else if payload.length ≠ held.length then
      ∃ message,
        (PageBuffer.overwrite slotId payload).run raw =
          .error (.engine (.valueError message)) raw
    else
      ∃ buf, (PageBuffer.overwrite slotId payload).run raw =
          .ok true { raw with buf := buf } ∧
        Encodes { raw with buf := buf }
          (replaced page slotId (some payload)) offsets := by
  have hBelow := Encodes.slot_lt hSlot
  have hWithin := hEncodes.slot_within hBelow
  have hRegion := hEncodes.region slotId held hSlot
  have hFits := hEncodes.fits
  have hLength := hEncodes.length
  have hStart : (PageBuffer.overwrite slotId payload).run
        raw =
      ((if held.length = 0 then pure false
        else if payload.length ≠ held.length then
          throw (.engine (.valueError
            (s!"slot {(slotId : Int)} holds {held.length} bytes; " ++
              s!"refusing to overwrite it with " ++
              s!"{payload.length}. A record cannot change " ++
              "size in place: its record id is what indexes " ++
              "point at.")))
        else do
          assign (offsets slotId)
            (offsets slotId + held.length : Nat) payload
          return true) : PageM Bool).run raw := by
    unfold PageBuffer.overwrite
    refine run_bind_of_ok hEncodes.slotCount_run ?_
    rw [if_neg (by omega), Int.toNat_natCast]
    exact run_bind_of_ok (hEncodes.readSlot_live hSlot) rfl
  rw [hStart]
  by_cases hEmpty : held.length = 0
  · rw [if_pos hEmpty, if_pos hEmpty]
    rfl
  · rw [if_neg hEmpty, if_neg hEmpty]
    by_cases hOther : payload.length ≠ held.length
    · rw [if_pos hOther, if_pos hOther]
      exact ⟨_, rfl⟩
    · rw [if_neg hOther, if_neg hOther]
      have hSame := not_not.mp hOther
      rcases @assign_run raw (offsets slotId)
          (offsets slotId + held.length) payload
          (by omega) (by omega) with ⟨buf, hRun, hWrote⟩
      refine ⟨buf, run_bind_of_ok hRun rfl, ?_⟩
      · refine hEncodes.to_replaced hSlot hWrote.length ?_ ?_
          ?_
        · rw [hWrote.outside _ _ (by omega),
            hEncodes.entry slotId _ hSlot]
          unfold entryBytes slotFields
          simp only [hSame]
        · intro found hFound
          cases hFound
          exact ⟨hSame, by rw [hSame]; exact hWrote.inside⟩
        · intro first last _ hRecord
          exact hWrote.outside first last hRecord

end Encoded

end Change

end Storage

end ChenDB
