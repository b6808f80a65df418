import Mathlib.Data.List.Nodup
import Mathlib.Data.List.TakeWhile
import Mathlib.Logic.Function.Basic
import ChenDB.Library.StateExcept
import ChenDB.Storage.Page

/-
  A heap: a chain of slotted pages and the records in them.
  What a heap means is the function from record ids to
  payloads, and each operation is an update of it.
-/

--
-- Pages as Functions
--

namespace ChenDB

namespace Storage

open Library.StateExcept (ok_of_bind)

variable {π : Type}
variable {slotId : Nat} {page : Page π} {payload : π}

namespace Page

theorem read_of_lt
    (page : Page π)
    (hSlot : slotId < page.slots.length) :
    page.read slotId = page.slots[slotId] := by
  simp [read, hSlot]

theorem read_eq_none_of_le
    (page : Page π)
    (hSlot : page.slots.length ≤ slotId) :
    page.read slotId = none := by
  simp [read, hSlot]

theorem mem_iterRecords :
    (slotId, payload) ∈ page.iterRecords ↔
      page.read slotId = some payload := by
  unfold iterRecords read
  simp only [List.mem_filterMap, Prod.exists,
    Option.map_eq_some_iff, Prod.mk.injEq]
  constructor
  · intro hSlot
    rcases hSlot with
      ⟨slot, index, hMem, held, hSome, hIndex, hHeld⟩
    subst hIndex hHeld hSome
    rw [List.mem_zipIdx_iff_getElem?] at hMem
    simp [hMem]
  · intro hRead
    cases hSlot : page.slots[slotId]? with
    | none => simp [hSlot] at hRead
    | some slot =>
      simp only [hSlot, Option.join_some] at hRead
      refine ⟨slot, slotId, ?_, payload, hRead, rfl, rfl⟩
      exact List.mem_zipIdx_iff_getElem?.mpr hSlot

theorem iterRecords_nodup (page : Page π) :
    (page.iterRecords.map Prod.fst).Nodup := by
  have hSublist : (page.iterRecords.map Prod.fst).Sublist
      (page.slots.zipIdx.map Prod.snd) := by
    unfold iterRecords
    generalize page.slots.zipIdx = indexed
    induction indexed with
    | nil => simp
    | cons first rest ih =>
      rcases first with ⟨slot, index⟩
      cases slot with
      | none => simpa using ih.cons index
      | some payload => simpa using ih.cons_cons index
  apply hSublist.nodup
  rw [List.zipIdx_map_snd]
  exact List.nodup_range'

/- A slot written over, whether or not it was dead. -/
theorem read_set
    (page : Page π)
    (hSlot : slotId < page.slots.length)
    (slot : Option π)
    (other : Nat) :
    ((page.slots.set slotId slot)[other]?).join =
      if other = slotId then slot else page.read other := by
  unfold read
  rw [List.getElem?_set]
  by_cases hSame : slotId = other
  · subst hSame
    simp [hSlot]
  · rw [if_neg hSame, if_neg (Ne.symm hSame)]

theorem lt_of_read
    (hRead : page.read slotId = some payload) :
    slotId < page.slots.length := by
  by_contra hOut
  rw [read_eq_none_of_le page (Nat.le_of_not_lt hOut)]
    at hRead
  cases hRead

variable {page' : Page π}

theorem read_delete
    (hDelete : page.delete slotId = some page') :
    (page.read slotId).isSome ∧
      ∀ other, page'.read other =
        if other = slotId then none
        else page.read other := by
  unfold delete at hDelete
  rcases Option.map_eq_some_iff.mp hDelete with
    ⟨held, hHeld, rfl⟩
  refine ⟨by simp [hHeld], fun other => ?_⟩
  exact read_set page (lt_of_read hHeld) none other

theorem read_overwrite [Payload π]
    (hOverwrite :
      page.overwrite slotId payload = .ok (some page')) :
    (page.read slotId).isSome ∧
      ∀ other, page'.read other =
        if other = slotId then some payload
        else page.read other := by
  unfold overwrite at hOverwrite
  split at hOverwrite
  · cases hOverwrite
  · rename_i held hHeld
    split at hOverwrite
    · cases hOverwrite
    · split at hOverwrite
      · cases hOverwrite
      · cases hOverwrite
        refine ⟨by simp [hHeld], fun other => ?_⟩
        exact read_set page (lt_of_read hHeld)
          (some payload) other

theorem findDeadSlot_spec
    (hDead : page.findDeadSlot = some slotId) :
    slotId < page.slots.length ∧
      page.read slotId = none := by
  unfold findDeadSlot at hDead
  rw [List.findIdx?_eq_some_iff_getElem] at hDead
  rcases hDead with ⟨hSlot, hNone, _⟩
  refine ⟨hSlot, ?_⟩
  rw [read_of_lt page hSlot]
  simpa using hNone

theorem read_insert [Payload π]
    (hInsert :
      page.insert payload = .ok (some (slotId, page'))) :
    page.read slotId = none ∧
      ∀ other, page'.read other =
        if other = slotId then some payload
        else page.read other := by
  unfold insert at hInsert
  simp only at hInsert
  split at hInsert
  · cases hInsert
  · split at hInsert
    · cases hInsert
    · split at hInsert
      · rename_i dead hDead
        cases hInsert
        rcases findDeadSlot_spec hDead with ⟨hSlot, hNone⟩
        exact ⟨hNone, fun other =>
          read_set page hSlot (some payload) other⟩
      · cases hInsert
        refine ⟨read_eq_none_of_le page (Nat.le_refl _),
          fun other => ?_⟩
        unfold read slotCount
        rcases Nat.lt_trichotomy other page.slots.length with
          hLess | hSame | hMore
        · simp [List.getElem?_append_left hLess,
            Nat.ne_of_lt hLess]
        · simp [hSame]
        · rw [if_neg (Nat.ne_of_gt hMore),
            List.getElem?_eq_none (by simp; omega),
            List.getElem?_eq_none (Nat.le_of_lt hMore)]

theorem getElem_trailingDead
    {slots : List (Option π)}
    (hTrailing :
      slots.length - trailingDead slots ≤ slotId)
    (hSlot : slotId < slots.length) :
    slots[slotId] = none := by
  have hPrefix : slots.reverse.takeWhile Option.isNone <+:
      slots.reverse :=
    List.takeWhile_prefix Option.isNone
  have hIndex : slots.length - 1 - slotId <
      (slots.reverse.takeWhile Option.isNone).length := by
    unfold trailingDead at hTrailing
    omega
  have hNone := List.mem_takeWhile_imp
    (List.getElem_mem hIndex)
  rw [hPrefix.getElem hIndex, List.getElem_reverse] at hNone
  have hSame : slots.length - 1 -
      (slots.length - 1 - slotId) = slotId := by
    omega
  simpa [hSame] using hNone

/- Only tombstones go. -/
theorem read_compact [Payload π]
    (page : Page π)
    (slotId : Nat) :
    page.compact.read slotId = page.read slotId := by
  unfold compact read trimTrailingDeadSlots
  simp only
  rw [List.getElem?_take]
  split
  · rfl
  · rename_i hOut
    by_cases hSlot : slotId < page.slots.length
    · have hDead := getElem_trailingDead
        (Nat.le_of_not_lt hOut) hSlot
      simp [hSlot, hDead]
    · simp [List.getElem?_eq_none (Nat.le_of_not_lt hSlot)]

end Page

--
-- Heap Files
--

/- Physical address of a record. -/
structure RecordId where
  pageId : PageId
  slotId : Nat
deriving DecidableEq, Repr

/- The chain of pages, first to last, as their links have
   it. -/
structure HeapFile (π : Type) where
  pages : List (PageId × Page π)
  nonempty : pages ≠ []
  distinct : (pages.map Prod.fst).Nodup
deriving DecidableEq, Repr

namespace HeapFile

def pageIds (heap : HeapFile π) : List PageId :=
  heap.pages.map Prod.fst

/- The last page of the chain. -/
def tail (heap : HeapFile π) : PageId × Page π :=
  heap.pages.getLast heap.nonempty

/- The page a record id names, if the chain has it. -/
def pageAt
    (heap : HeapFile π)
    (pageId : PageId) : Option (Page π) :=
  (heap.pages.find? fun entry => entry.1 = pageId).map
    Prod.snd

theorem map_fst_write
    (pages : List (PageId × Page π))
    (pageId : PageId)
    (page : Page π) :
    (pages.map fun entry =>
        if entry.1 = pageId then (pageId, page)
          else entry).map Prod.fst =
      pages.map Prod.fst := by
  rw [List.map_map]
  apply List.map_congr_left
  intro entry _
  simp only [Function.comp_apply]
  split
  · rename_i hPage
    exact hPage.symm
  · rfl

/- `Pager.write_page` for a page of the chain. -/
def writePage
    (heap : HeapFile π)
    (pageId : PageId)
    (page : Page π) : HeapFile π where
  pages := heap.pages.map fun entry =>
    if entry.1 = pageId then (pageId, page) else entry
  nonempty := by
    simpa using heap.nonempty
  distinct := by
    rw [map_fst_write]
    exact heap.distinct

@[simp] theorem pageIds_writePage
    (heap : HeapFile π)
    (pageId : PageId)
    (page : Page π) :
    (heap.writePage pageId page).pageIds = heap.pageIds :=
  map_fst_write heap.pages pageId page

/- A page allocated and linked after the last one. -/
def append
    (heap : HeapFile π)
    (pageId : PageId)
    (page : Page π)
    (hFresh : pageId ∉ heap.pageIds) : HeapFile π where
  pages := heap.pages ++ [(pageId, page)]
  nonempty := by simp
  distinct := by
    rw [List.map_append]
    apply List.Nodup.append heap.distinct
      (List.nodup_singleton _)
    intro held hHeld hNew
    rw [List.mem_singleton] at hNew
    rw [hNew] at hHeld
    exact hFresh hHeld

/- Every live record, in physical order. -/
def records (heap : HeapFile π) : List (RecordId × π) :=
  heap.pages.flatMap fun entry =>
    entry.2.iterRecords.map fun record =>
      (⟨entry.1, record.1⟩, record.2)

/- One record, if it is live. -/
def get
    (heap : HeapFile π)
    (recordId : RecordId) : Option π :=
  (heap.pageAt recordId.pageId).bind fun page =>
    page.read recordId.slotId

/- Try the page as it is, and then compacted when that
   would make room. -/
def place [Payload π]
    (page : Page π)
    (payload : π) :
    Except EngineError (Page π × Option Nat) := do
  match ← page.insert payload with
  | some (slotId, placed) => return (placed, some slotId)
  | none =>
    if page.wouldFitAfterCompaction
        (Payload.size payload) then
      match ← page.compact.insert payload with
      | some (slotId, placed) =>
        return (placed, some slotId)
      | none => return (page.compact, none)
    else return (page, none)

/- A new tail page holding the payload, linked after the
   old one. -/
def extend [Payload π]
    (heap : HeapFile π)
    (page : Page π)
    (fresh : PageId)
    (hFresh : fresh ∉ heap.pageIds)
    (payload : π) :
    Except EngineError (HeapFile π × RecordId) := do
  match ← (Page.blank .heap page.pageSize).insert
      payload with
  | none =>
    throw (.recordTooLarge
      (s!"record of {Payload.size payload} bytes did not " ++
        "fit on a fresh page"))
  | some (slotId, filled) =>
    let linked := heap.writePage heap.tail.1
      { page with nextPageId := fresh }
    return (linked.append fresh filled (by
      simpa [linked] using hFresh), ⟨fresh, slotId⟩)

/- Append a payload to the tail page, or to a new one. -/
def insert [Payload π]
    (heap : HeapFile π)
    (fresh : PageId)
    (hFresh : fresh ∉ heap.pageIds)
    (payload : π) :
    Except EngineError (HeapFile π × RecordId) := do
  let (tailId, page) := heap.tail
  if Payload.size payload > page.maxPayloadSize then
    throw (.recordTooLarge
      (s!"record of {Payload.size payload} bytes exceeds " ++
        s!"the {page.maxPayloadSize}-byte maximum for a " ++
        s!"{page.pageSize}-byte page. Real systems store " ++
        "oversized values out of line (PostgreSQL TOAST, " ++
        "SQLite overflow pages); ChenDB does not yet."))
  else
    match ← place page payload with
    | (placed, some slotId) =>
      return (heap.writePage tailId placed, ⟨tailId, slotId⟩)
    | (placed, none) => heap.extend placed fresh hFresh payload

/- Tombstone a record; whether it was still live. -/
def delete
    (heap : HeapFile π)
    (recordId : RecordId) : HeapFile π × Bool :=
  match (heap.pageAt recordId.pageId).bind fun page =>
      page.delete recordId.slotId with
  | none => (heap, false)
  | some page => (heap.writePage recordId.pageId page, true)

/- Overwrite a record in place, same length only. -/
def replace [Payload π]
    (heap : HeapFile π)
    (recordId : RecordId)
    (payload : π) :
    Except EngineError (HeapFile π × Bool) := do
  match heap.pageAt recordId.pageId with
  | none => return (heap, false)
  | some page =>
    match ← page.overwrite recordId.slotId payload with
    | none => return (heap, false)
    | some written =>
      return (heap.writePage recordId.pageId written, true)

--
-- What the Operations Do
--

section Meaning

variable {heap heap' : HeapFile π}

variable {pageId : PageId}

theorem pageAt_eq_some :
    heap.pageAt pageId = some page ↔
      (pageId, page) ∈ heap.pages := by
  unfold pageAt
  rw [Option.map_eq_some_iff]
  constructor
  · intro hFound
    rcases hFound with ⟨entry, hEntry, rfl⟩
    have hSame := List.find?_some hEntry
    simp only [decide_eq_true_eq] at hSame
    rw [← hSame]
    exact List.mem_of_find?_eq_some hEntry
  · intro hMem
    cases hFind : heap.pages.find? fun entry =>
        entry.1 = pageId with
    | none =>
      have hNone := List.find?_eq_none.mp hFind _ hMem
      simp at hNone
    | some entry =>
      have hSame := List.find?_some hFind
      simp only [decide_eq_true_eq] at hSame
      have hEqual := List.inj_on_of_nodup_map
        heap.distinct (List.mem_of_find?_eq_some hFind)
          hMem hSame
      rw [hEqual]
      exact ⟨_, rfl, rfl⟩

theorem pageAt_tail (heap : HeapFile π) :
    heap.pageAt heap.tail.1 = some heap.tail.2 :=
  pageAt_eq_some.mpr (List.getLast_mem heap.nonempty)

variable {held : Page π}

theorem pageAt_writePage
    (hHeld : heap.pageAt pageId = some held)
    (page : Page π)
    (other : PageId) :
    (heap.writePage pageId page).pageAt other =
      if other = pageId then some page
      else heap.pageAt other := by
  have hMem := pageAt_eq_some.mp hHeld
  apply Option.ext
  intro found
  rw [pageAt_eq_some]
  unfold writePage
  simp only [List.mem_map]
  by_cases hOther : other = pageId
  · rw [if_pos hOther, hOther]
    constructor
    · intro hFound
      rcases hFound with ⟨entry, _, hEntry⟩
      split at hEntry
      · cases hEntry
        rfl
      · rename_i hDiffers
        rw [hEntry] at hDiffers
        exact absurd rfl hDiffers
    · intro hFound
      cases hFound
      exact ⟨_, hMem, if_pos rfl⟩
  · rw [if_neg hOther, pageAt_eq_some]
    constructor
    · intro hFound
      rcases hFound with ⟨entry, hEntry, hSame⟩
      split at hSame
      · cases hSame
        exact absurd rfl hOther
      · rw [← hSame]
        exact hEntry
    · intro hFound
      exact ⟨_, hFound, if_neg hOther⟩

theorem pageAt_append
    (hFresh : pageId ∉ heap.pageIds)
    (page : Page π)
    (other : PageId) :
    (heap.append pageId page hFresh).pageAt other =
      if other = pageId then some page
      else heap.pageAt other := by
  have hAbsent : ∀ held, (pageId, held) ∉ heap.pages := by
    intro held hMem
    exact hFresh (List.mem_map.mpr ⟨_, hMem, rfl⟩)
  apply Option.ext
  intro found
  rw [pageAt_eq_some]
  unfold append
  simp only [List.mem_append, List.mem_singleton, Prod.mk.injEq]
  by_cases hOther : other = pageId
  · subst hOther
    simp [hAbsent, eq_comm]
  · simp [hOther, pageAt_eq_some]

variable {recordId : RecordId}

theorem mem_records :
    (recordId, payload) ∈ heap.records ↔
      heap.get recordId = some payload := by
  unfold records get
  rw [Option.bind_eq_some_iff]
  simp only [List.mem_flatMap, List.mem_map, Prod.exists,
    Prod.mk.injEq, Page.mem_iterRecords, pageAt_eq_some]
  constructor
  · intro hMem
    rcases hMem with
      ⟨pageId, page, hPage, slotId, held, hRead, hId, hHeld⟩
    subst hId hHeld
    exact ⟨page, hPage, hRead⟩
  · intro hFound
    rcases hFound with ⟨page, hPage, hRead⟩
    exact ⟨_, page, hPage, _, payload, hRead, rfl, rfl⟩

theorem records_nodup (heap : HeapFile π) :
    (heap.records.map Prod.fst).Nodup := by
  have hPages := heap.distinct
  unfold records
  generalize heap.pages = pages at hPages
  induction pages with
  | nil => simp
  | cons entry rest ih =>
    rw [List.map_cons, List.nodup_cons] at hPages
    rw [List.flatMap_cons, List.map_append]
    apply List.Nodup.append
    · rw [List.map_map]
      have hSlots := Page.iterRecords_nodup entry.2
      have hMap :
          (entry.2.iterRecords.map
            (Prod.fst ∘ fun record : Nat × π =>
              ((⟨entry.1, record.1⟩ : RecordId), record.2))) =
          (entry.2.iterRecords.map Prod.fst).map
            (RecordId.mk entry.1) := by
        simp [Function.comp_def]
      rw [hMap]
      apply hSlots.map
      intro first second hSame
      exact congrArg RecordId.slotId hSame
    · exact ih hPages.2
    · intro recordId hHere hLater
      simp only [List.mem_map, List.mem_flatMap,
        Prod.exists] at hHere hLater
      rcases hHere with ⟨_, _, ⟨_, _, _, hHere⟩, hFirst⟩
      rcases hLater with
        ⟨_, _, ⟨pageId, page, hMem, _, _, _, hLater⟩, hSecond⟩
      cases hHere
      cases hLater
      have hSamePage : pageId = entry.1 := by
        have hIds := hSecond.trans hFirst.symm
        exact congrArg RecordId.pageId hIds
      exact hPages.1
        (List.mem_map.mpr ⟨_, hMem, hSamePage⟩)

/- A page rewritten so that one of its slots changes. -/
theorem get_writePage
    (hHeld : heap.pageAt pageId = some held)
    {slot : Option π}
    (hRead : ∀ other, page.read other =
      if other = slotId then slot else held.read other) :
    (heap.writePage pageId page).get =
      Function.update heap.get ⟨pageId, slotId⟩ slot := by
  funext ⟨otherPage, otherSlot⟩
  simp only [get, pageAt_writePage hHeld,
    Function.update_apply, RecordId.mk.injEq]
  by_cases hPage : otherPage = pageId
  · simp [hPage, hHeld, hRead]
  · simp [hPage]

theorem get_delete
    (hDelete : heap.delete recordId = (heap', true)) :
    heap'.get =
      Function.update heap.get recordId none := by
  unfold delete at hDelete
  cases hBind : (heap.pageAt recordId.pageId).bind fun page =>
      page.delete recordId.slotId with
  | none => simp [hBind] at hDelete
  | some page =>
    simp only [hBind, Prod.mk.injEq, and_true] at hDelete
    rcases Option.bind_eq_some_iff.mp hBind with
      ⟨held, hHeld, hPage⟩
    rw [← hDelete]
    exact get_writePage hHeld (Page.read_delete hPage).2

/- Deleting what is not there changes nothing. -/
theorem delete_false
    (hDelete : heap.delete recordId = (heap', false)) :
    heap' = heap := by
  unfold delete at hDelete
  split at hDelete
  · cases hDelete
    rfl
  · simp at hDelete

theorem delete_of_get
    (hGet : heap.get recordId = some payload) :
    (heap.delete recordId).2 = true := by
  unfold get at hGet
  rcases Option.bind_eq_some_iff.mp hGet with
    ⟨page, hPage, hRead⟩
  simp [delete, hPage, Page.delete, hRead]

theorem get_replace [Payload π]
    (hReplace :
      heap.replace recordId payload = .ok (heap', true)) :
    heap'.get =
      Function.update heap.get recordId (some payload) := by
  unfold replace at hReplace
  cases hPage : heap.pageAt recordId.pageId with
  | none => simp [hPage, pure, Except.pure] at hReplace
  | some page =>
    simp only [hPage] at hReplace
    cases hWrite :
        page.overwrite recordId.slotId payload with
    | error raised => simp [hWrite, bind, Except.bind]
        at hReplace
    | ok written => ?_
    cases written with
    | none =>
      simp [hWrite, bind, Except.bind, pure, Except.pure]
        at hReplace
    | some written => ?_
    simp only [hWrite, bind, Except.bind, pure, Except.pure,
      Except.ok.injEq, Prod.mk.injEq, and_true] at hReplace
    rw [← hReplace]
    exact get_writePage hPage
      (Page.read_overwrite hWrite).2

theorem replace_false [Payload π]
    (hReplace :
      heap.replace recordId payload = .ok (heap', false)) :
    heap' = heap := by
  unfold replace at hReplace
  cases hPage : heap.pageAt recordId.pageId with
  | none =>
    simp only [hPage, pure, Except.pure, Except.ok.injEq,
      Prod.mk.injEq, and_true] at hReplace
    exact hReplace.symm
  | some page =>
    simp only [hPage] at hReplace
    cases hWrite :
        page.overwrite recordId.slotId payload with
    | error raised => simp [hWrite, bind, Except.bind]
        at hReplace
    | ok written => ?_
    cases written with
    | none =>
      simp only [hWrite, bind, Except.bind, pure,
        Except.pure, Except.ok.injEq, Prod.mk.injEq,
        and_true] at hReplace
      exact hReplace.symm
    | some written =>
      simp [hWrite, bind, Except.bind, pure, Except.pure]
        at hReplace

theorem pageIds_replace [Payload π]
    {replaced : Bool}
    (hReplace : heap.replace recordId payload =
      .ok (heap', replaced)) :
    heap'.pageIds = heap.pageIds := by
  cases replaced with
  | false => rw [replace_false hReplace]
  | true =>
    unfold replace at hReplace
    cases hPage : heap.pageAt recordId.pageId with
    | none => simp [hPage, pure, Except.pure] at hReplace
    | some page =>
      simp only [hPage] at hReplace
      rcases ok_of_bind hReplace with ⟨written, _, hRest⟩
      cases written with
      | none => cases hRest
      | some written =>
        cases hRest
        exact pageIds_writePage _ _ _

theorem place_spec [Payload π]
    {placed : Page π}
    {slot : Option Nat}
    (hPlace : place page payload = .ok (placed, slot)) :
    (∃ slotId, slot = some slotId ∧
      page.read slotId = none ∧
      ∀ other, placed.read other =
        if other = slotId then some payload
        else page.read other) ∨
    (slot = none ∧ placed.read = page.read) := by
  unfold place at hPlace
  rcases ok_of_bind hPlace with ⟨first, hFirst, hRest⟩
  cases first with
  | some found =>
    rcases found with ⟨slotId, filled⟩
    cases hRest
    exact .inl ⟨slotId, rfl, Page.read_insert hFirst⟩
  | none =>
    simp only at hRest
    split at hRest
    · rcases ok_of_bind hRest with
        ⟨second, hSecond, hLast⟩
      cases second with
      | some found =>
        rcases found with ⟨slotId, filled⟩
        cases hLast
        have hRead := Page.read_insert hSecond
        simp only [Page.read_compact] at hRead
        exact .inl ⟨slotId, rfl, hRead⟩
      | none =>
        cases hLast
        exact .inr ⟨rfl, funext fun slotId =>
          Page.read_compact page slotId⟩
    · cases hRest
      exact .inr ⟨rfl, rfl⟩

theorem read_create
    (pageType : PageType)
    (pageSize slotId : Nat) :
    (Page.blank pageType pageSize : Page π).read slotId =
      none := by
  simp [Page.blank, Page.read]

theorem get_writePage_same
    (hHeld : heap.pageAt pageId = some held)
    (hRead : page.read = held.read) :
    (heap.writePage pageId page).get = heap.get := by
  have hGet : (heap.writePage pageId page).get =
      Function.update heap.get ⟨pageId, 0⟩
        (held.read 0) := by
    apply get_writePage hHeld
    intro other
    rw [hRead]
    split
    · rename_i hZero
      rw [hZero]
    · rfl
  have hHere : held.read 0 = heap.get ⟨pageId, 0⟩ := by
    simp [get, hHeld]
  rw [hGet, hHere, Function.update_eq_self]

variable {fresh : PageId}

theorem pageAt_fresh
    (hFresh : fresh ∉ heap.pageIds) :
    heap.pageAt fresh = none := by
  cases hPage : heap.pageAt fresh with
  | none => rfl
  | some page =>
    have hMem := pageAt_eq_some.mp hPage
    exact absurd (List.mem_map.mpr ⟨_, hMem, rfl⟩) hFresh

theorem get_append
    (hFresh : fresh ∉ heap.pageIds)
    (hRead : ∀ other, page.read other =
      if other = slotId then some payload else none) :
    (heap.append fresh page hFresh).get =
      Function.update heap.get ⟨fresh, slotId⟩
        (some payload) := by
  funext ⟨otherPage, otherSlot⟩
  simp only [get, pageAt_append hFresh,
    Function.update_apply, RecordId.mk.injEq]
  by_cases hPage : otherPage = fresh
  · simp [hPage, hRead, pageAt_fresh hFresh]
  · simp [hPage]

variable {hFresh : fresh ∉ heap.pageIds}

theorem get_extend [Payload π]
    (hPage : page.read = heap.tail.2.read)
    (hExtend : heap.extend page fresh hFresh payload =
      .ok (heap', recordId)) :
    heap.get recordId = none ∧
      heap'.get = Function.update heap.get recordId
        (some payload) := by
  unfold extend at hExtend
  rcases ok_of_bind hExtend with ⟨found, hFound, hRest⟩
  cases found with
  | none => cases hRest
  | some found =>
    rcases found with ⟨slotId, filled⟩
    cases hRest
    have hFilled := (Page.read_insert hFound).2
    simp only [read_create] at hFilled
    have hLinked : (heap.writePage heap.tail.1
        { page with nextPageId := fresh }).get =
          heap.get :=
      get_writePage_same (pageAt_tail heap) hPage
    refine ⟨by simp [get, pageAt_fresh hFresh], ?_⟩
    rw [get_append _ hFilled, hLinked]

/- An insert fills one address that was free. -/
theorem get_insert [Payload π]
    (hInsert : heap.insert fresh hFresh payload =
      .ok (heap', recordId)) :
    heap.get recordId = none ∧
      heap'.get = Function.update heap.get recordId
        (some payload) := by
  unfold insert at hInsert
  simp only at hInsert
  split at hInsert
  · cases hInsert
  · rcases ok_of_bind hInsert with
      ⟨⟨placed, slot⟩, hPlace, hRest⟩
    rcases place_spec hPlace with
      ⟨slotId, hSlot, hNone, hRead⟩ | ⟨hSlot, hRead⟩
    · subst hSlot
      cases hRest
      refine ⟨?_, get_writePage (pageAt_tail heap) hRead⟩
      simp [get, pageAt_tail, hNone]
    · subst hSlot
      exact get_extend hRead hRest

end Meaning

end HeapFile

end Storage

end ChenDB
