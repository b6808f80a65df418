import ChenDB.Storage.HeapChain

/-
  A heap file over the pager, and any run of calls on one:
  it holds exactly what was put in it.
-/

--
-- Open Heaps
--

namespace ChenDB

namespace Storage

open Library.StateExcept

variable {π : Type}
variable {firstPageId lastPageId : PageId} {chain : HeapFile π}
variable {history : List PageCall}
variable {pages : PageId → Option (PageImage π)}
variable {metaPage : MetaPage} {pageSize : Nat}

/- A `HeapFile` and the pager it works on. -/
structure OpenHeap (π : Type) where
  engine : Engine π
  firstPageId : PageId
  lastPageId : PageId

abbrev HeapM (π α : Type) :=
  EStateM EngineError (OpenHeap π) α

namespace OpenHeap

def onPager
    {α : Type}
    (program : EngineM π α) : HeapM π α :=
  focus OpenHeap.engine
    (fun heap engine => { heap with engine := engine })
    program

def fromExcept
    {α : Type} :
    Except EngineError α → HeapM π α
  | .ok value => pure value
  | .error raised => throw raised

/- `HeapFile.create`: the first page of a new heap, which is
   its last one too. -/
def create : EngineM π (PageId × PageId) := do
  let (pageId, _) ← Pager.allocatePage .heap
  return (pageId, pageId)

/- Allocate a new tail page and link it after the old one.
   The heap has no `on_pages_changed`. -/
def extend
    (tailId : PageId)
    (tail : Page π) : HeapM π (PageId × Page π) := do
  let (fresh, page) ← onPager (Pager.allocatePage .heap)
  onPager (Pager.writePage tailId
    { tail with nextPageId := fresh })
  modify fun heap => { heap with lastPageId := fresh }
  return (fresh, page)

def insert [Payload π]
    (payload : π) : HeapM π RecordId := do
  let heap ← get
  let tailId := heap.lastPageId
  let page ← onPager (Pager.readPage tailId)
  if Payload.size payload > page.maxPayloadSize then
    throw (.recordTooLarge
      (s!"record of {Payload.size payload} bytes exceeds " ++
        s!"the {page.maxPayloadSize}-byte maximum for a " ++
        s!"{page.pageSize}-byte page. Real systems store " ++
        "oversized values out of line (PostgreSQL TOAST, " ++
        "SQLite overflow pages); ChenDB does not yet."))
  else
    let (placed, slot) ← fromExcept
      (HeapFile.place page payload)
    match slot with
    | some slotId => do
        onPager (Pager.writePage tailId placed)
        return ⟨tailId, slotId⟩
    | none => do
        let (fresh, empty) ← extend tailId placed
        match ← fromExcept (empty.insert payload) with
        | none =>
          throw (.recordTooLarge
            (s!"record of {Payload.size payload} bytes " ++
              "did not fit on a fresh page"))
        | some (slotId, filled) => do
            onPager (Pager.writePage fresh filled)
            return ⟨fresh, slotId⟩

/- Tombstone a record; whether it was still live. -/
def delete (recordId : RecordId) : HeapM π Bool := do
  let page ← onPager (Pager.readPage recordId.pageId)
  match page.delete recordId.slotId with
  | none => return false
  | some page => do
      onPager (Pager.writePage recordId.pageId page)
      return true

/- Overwrite a record in place, same length only. -/
def replace [Payload π]
    (recordId : RecordId)
    (payload : π) : HeapM π Bool := do
  let page ← onPager (Pager.readPage recordId.pageId)
  match ← fromExcept
      (page.overwrite recordId.slotId payload) with
  | none => return false
  | some page => do
      onPager (Pager.writePage recordId.pageId page)
      return true

def noRecord (recordId : RecordId) : EngineError :=
  .recordNotFound
    (s!"no live record at ({recordId.pageId}," ++
      s!"{recordId.slotId})")

/- `HeapFile.get`. -/
def fetch (recordId : RecordId) : HeapM π π := do
  let page ← onPager (Pager.readPage recordId.pageId)
  match page.read recordId.slotId with
  | none => throw (noRecord recordId)
  | some payload => return payload

/- The walk of `HeapFile.scan` from a page on, through so
   many pages at most. -/
def scanFrom :
    Nat → PageId → HeapM π (List (RecordId × π))
  | 0, _ => return []
  | count + 1, pageId => do
      if pageId = invalidPageId then
        return []
      else
        let page ← onPager (Pager.readPage pageId)
        let rest ← scanFrom count page.nextPageId
        return (page.iterRecords.map fun record =>
          (⟨pageId, record.1⟩, record.2)) ++ rest

def scan (count : Nat) : HeapM π (List (RecordId × π)) := do
  let heap ← get
  scanFrom count heap.firstPageId

/- The walk of `HeapFile.page_ids`, which looks for
   cycles. -/
def pageIdsFrom :
    Nat → PageId → List PageId → HeapM π (List PageId)
  | 0, _, _ => return []
  | count + 1, pageId, seen => do
      if pageId = invalidPageId then
        return []
      else if pageId ∈ seen then
        throw (.recordNotFound
          s!"cycle in heap page chain at page {pageId}")
      else
        let page ← onPager (Pager.readPage pageId)
        let rest ← pageIdsFrom count page.nextPageId
          (pageId :: seen)
        return pageId :: rest

def pageIds (count : Nat) : HeapM π (List PageId) := do
  let heap ← get
  pageIdsFrom count heap.firstPageId []

end OpenHeap

--
-- Calls
--

inductive HeapCall (π : Type) where
  | insert (payload : π)
  | delete (recordId : RecordId)
  | replace (recordId : RecordId) (payload : π)
  | fetch (recordId : RecordId)
  | scan (count : Nat)

/- What a call that returned did to the records. -/
inductive HeapEvent (π : Type) where
  | inserted (recordId : RecordId) (payload : π)
  | deleted (recordId : RecordId)
  | replaced (recordId : RecordId) (payload : π)

/- The record ids a call is handed. -/
def HeapCall.names : HeapCall π → List RecordId
  | .insert _ => []
  | .delete recordId => [recordId]
  | .replace recordId _ => [recordId]
  | .fetch recordId => [recordId]
  | .scan _ => []

def HeapCall.perform [Payload π] :
    HeapCall π → HeapM π (List (HeapEvent π))
  | .insert payload => do
      let recordId ← OpenHeap.insert payload
      return [.inserted recordId payload]
  | .delete recordId => do
      let removed ← OpenHeap.delete recordId
      return if removed then [.deleted recordId] else []
  | .replace recordId payload => do
      let replaced ← OpenHeap.replace recordId payload
      return if replaced then [.replaced recordId payload]
        else []
  | .fetch recordId => do
      let _ ← OpenHeap.fetch recordId
      return []
  | .scan count => do
      let _ ← OpenHeap.scan count
      return []

/- The records there are after these events, the last one
   first. -/
def contents
    (start : RecordId → Option π) :
    List (HeapEvent π) → RecordId → Option π
  | [] => start
  | .inserted recordId payload :: earlier =>
    Function.update (contents start earlier) recordId
      (some payload)
  | .deleted recordId :: earlier =>
    Function.update (contents start earlier) recordId none
  | .replaced recordId payload :: earlier =>
    Function.update (contents start earlier) recordId
      (some payload)

/- The record ids there were at the opening, and those that
   an insert returned. -/
def Known
    (start : HeapFile π)
    (events : List (HeapEvent π))
    (recordId : RecordId) : Prop :=
  (start.get recordId).isSome ∨
    ∃ payload, .inserted recordId payload ∈ events

/- The heap is opened on the first and the last page of a
   chain that the engine holds. -/
structure Opened [Payload π]
    (chain : HeapFile π)
    (heap : OpenHeap π) : Prop where
  first : chain.pageIds.head? = some heap.firstPageId
  last : heap.lastPageId = chain.tail.1
  standing : Standing chain heap.engine

/-
  Any calls on a heap that was opened on its true first and
  last pages; the events of the last call come first. Between
  them the engine may do whatever leaves the chain alone. A
  call that gave the file more pages than its meta page can
  count has raised.
-/
inductive Runs [Payload π] (start : HeapFile π) :
    List (HeapEvent π) → OpenHeap π → Prop where
  | opened {heap} :
      Opened start heap → Runs start [] heap
  | elsewhere {events heap} (engine : Engine π) :
      Runs start events heap →
      (∀ chain : HeapFile π,
        Standing chain heap.engine → Standing chain engine) →
      Runs start events { heap with engine := engine }
  | returned {events heap made final} (call : HeapCall π) :
      Runs start events heap →
      (∀ recordId ∈ call.names, Known start events recordId) →
      call.perform.run heap = .ok made final →
      Packed final.engine →
      Runs start (made ++ events) final
  | raised {events heap raised final} (call : HeapCall π) :
      Runs start events heap →
      (∀ recordId ∈ call.names, Known start events recordId) →
      call.perform.run heap = .error raised final →
      Packed final.engine →
      Runs start events final

/- Reading the heap gives these records and no others, and
   its pages are a chain from the first to the last. -/
structure HoldsExactly
    (heap : OpenHeap π)
    (records : RecordId → Option π) : Prop where
  scan : ∃ found length,
    (∀ count, length < count →
      ∃ final, (OpenHeap.scan count).run heap =
        .ok found final) ∧
    (found.map Prod.fst).Nodup ∧
    ∀ recordId payload,
      (recordId, payload) ∈ found ↔
        records recordId = some payload
  fetch : ∀ recordId payload,
    records recordId = some payload →
      ∃ final, (OpenHeap.fetch recordId).run heap =
        .ok payload final
  acyclic : ∃ pageIds length,
    (∀ count, length < count →
      ∃ final, (OpenHeap.pageIds count).run heap =
        .ok pageIds final) ∧
    pageIds.Nodup ∧
    pageIds.head? = some heap.firstPageId ∧
    pageIds.getLast? = some heap.lastPageId ∧
    ∀ recordId, recordId.pageId ∈ pageIds →
      records recordId = none →
        ∃ final, (OpenHeap.fetch recordId).run heap =
          .error (OpenHeap.noRecord recordId) final

--
-- Reading
--

namespace OpenHeap

/- The engine of the heap has the property; the heap has
   these first and last pages. -/
def At
    (firstPageId lastPageId : PageId)
    (J : Engine π → Prop)
    (heap : OpenHeap π) : Prop :=
  heap.firstPageId = firstPageId ∧
    heap.lastPageId = lastPageId ∧ J heap.engine

variable {α : Type}

theorem onPager_at
    (firstPageId lastPageId : PageId)
    {program : EngineM π α}
    {P : Engine π → Prop}
    {Q : α → Engine π → Prop}
    {E : EngineError → Engine π → Prop}
    (hProgram : Triple P program Q E) :
    Triple (At firstPageId lastPageId P) (onPager program)
      (fun value => At firstPageId lastPageId (Q value))
      (fun raised =>
        At firstPageId lastPageId (E raised)) := by
  refine Triple.focus fun heap hHeap => ?_
  exact hProgram.weaken (fun _ h => h ▸ hHeap.2.2)
    (fun _ _ h => ⟨hHeap.1, hHeap.2.1, h⟩)
    (fun _ _ h => ⟨hHeap.1, hHeap.2.1, h⟩)

theorem fromExcept_at
    {P : OpenHeap π → Prop}
    (outcome : Except EngineError α) :
    Triple P (fromExcept outcome)
      (fun value heap => P heap ∧ outcome = .ok value)
      (fun _ => P) := by
  cases outcome with
  | ok value => exact Triple.pure fun _ h => ⟨h, rfl⟩
  | error raised => exact Triple.throw fun _ h => h

variable [Payload π]

/- The heap stands on these pages. -/
abbrev On
    (chain : HeapFile π)
    (history : List PageCall)
    (pages : PageId → Option (PageImage π))
    (metaPage : MetaPage)
    (pageSize : Nat)
    (firstPageId lastPageId : PageId) :
    OpenHeap π → Prop :=
  At firstPageId lastPageId
    (Stands chain history pages metaPage pageSize)

variable {pageId : PageId}

theorem readPage_on
    {page : Page π}
    (hPage : (pageId, page) ∈ chain.pages) :
    Triple (On chain history pages metaPage pageSize
        firstPageId lastPageId)
      (onPager (Pager.readPage pageId))
      (fun found heap =>
        On chain history pages metaPage pageSize
          firstPageId lastPageId heap ∧
          ∃ lsn, found = { page with lsn := lsn })
      (fun _ _ => False) := by
  refine Triple.start fun heap hHeap => ?_
  have hStands := hHeap.2.2
  rcases hStands.linked.mem hPage with ⟨hShown, hSound⟩
  have hLive := hStands.owned pageId
    (List.mem_map.mpr ⟨_, hPage, rfl⟩)
  refine (onPager_at firstPageId lastPageId
    (Pager.readPage_linked hStands.ledger hLive hShown
      hSound)).weaken ?_ ?_
    (fun _ _ h => h.2.2)
  · rintro current rfl
    exact ⟨hHeap.1, hHeap.2.1, hStands.ready⟩
  · rintro found current ⟨hFirst, hLast, hReady, hFound⟩
    exact ⟨⟨hFirst, hLast, { hStands with ready := hReady }⟩,
      hFound⟩

/- The records of some pages. -/
def recordsOf
    (entries : List (PageId × Page π)) :
    List (RecordId × π) :=
  entries.flatMap fun entry =>
    entry.2.iterRecords.map fun record =>
      (⟨entry.1, record.1⟩, record.2)

/- The page a walk goes to next. -/
def firstOf (entries : List (PageId × Page π)) : PageId :=
  (entries.head?.map Prod.fst).getD invalidPageId

omit [Payload π] in
theorem valid_of_live
    (hLedger : Ledger history pages metaPage pageSize)
    (hLive : pageId ∈ live history) :
    pageId ≠ invalidPageId := by
  have hInside := (hLedger.liveInside pageId hLive).2
  have hPacked := hLedger.packed
  rintro rfl
  have hLess : 0xFFFFFFFF < metaPage.pageCount := hInside
  omega

variable {entries : List (PageId × Page π)}

theorem scanFrom_on
    (count : Nat)
    (hPart : ∀ entry ∈ entries, entry ∈ chain.pages)
    (hLinked : Linked pages pageSize entries) :
    Triple (On chain history pages metaPage pageSize
        firstPageId lastPageId)
      (scanFrom count (firstOf entries))
      (fun found heap =>
        found = recordsOf (entries.take count) ∧
        On chain history pages metaPage pageSize
          firstPageId lastPageId heap)
      (fun _ _ => False) := by
  induction count generalizing entries with
  | zero =>
    unfold scanFrom
    exact Triple.pure fun _ h => ⟨rfl, h⟩
  | succ count ih =>
    cases entries with
    | nil =>
      unfold scanFrom
      exact Triple.pure fun _ h => ⟨rfl, h⟩
    | cons entry rest => ?_
    rcases entry with ⟨pageId, page⟩
    rcases hLinked with ⟨-, -, hNext, hRest⟩
    have hHere := hPart _ (.head _)
    have hLater := ih
      (fun other hOther =>
        hPart other (.tail _ hOther))
      hRest
    refine Triple.start fun heap hHeap => ?_
    have hStands := hHeap.2.2
    have hValid := valid_of_live hStands.ledger
      (hStands.owned pageId
        (List.mem_map.mpr ⟨_, hHere, rfl⟩))
    unfold scanFrom
    change Triple _ (if pageId = invalidPageId then _
      else _) _ _
    rw [if_neg hValid]
    refine Triple.bind ((readPage_on hHere).pre
      (fun _ h => h ▸ hHeap)) fun found => ?_
    refine Triple.start fun current hCurrent => ?_
    rcases hCurrent with ⟨hOn, lsn, rfl⟩
    simp only [hNext]
    refine Triple.bind (hLater.pre
      (fun _ h => h ▸ hOn)) fun others => ?_
    refine Triple.pure fun final hFinal => ?_
    exact ⟨by rw [hFinal.1]; rfl, hFinal.2⟩

theorem pageIdsFrom_on
    {count : Nat}
    (seen : List PageId)
    (hPart : ∀ entry ∈ entries, entry ∈ chain.pages)
    (hLinked : Linked pages pageSize entries)
    (hDistinct : (entries.map Prod.fst).Nodup)
    (hUnseen : ∀ entry ∈ entries, entry.1 ∉ seen)
    (hCount : entries.length < count) :
    Triple (On chain history pages metaPage pageSize
        firstPageId lastPageId)
      (pageIdsFrom count (firstOf entries) seen)
      (fun found heap => found = entries.map Prod.fst ∧
        On chain history pages metaPage pageSize
          firstPageId lastPageId heap)
      (fun _ _ => False) := by
  induction entries generalizing count seen with
  | nil =>
    obtain ⟨count, rfl⟩ : ∃ less, count = less + 1 :=
      ⟨count - 1, by simp at hCount; omega⟩
    unfold pageIdsFrom
    exact Triple.pure fun _ h => ⟨rfl, h⟩
  | cons entry rest ih =>
    rcases entry with ⟨pageId, page⟩
    obtain ⟨count, rfl⟩ : ∃ less, count = less + 1 :=
      ⟨count - 1, by simp at hCount; omega⟩
    rcases hLinked with ⟨-, -, hNext, hRest⟩
    rw [List.map_cons, List.nodup_cons] at hDistinct
    have hHere := hPart _ (.head _)
    have hNew := hUnseen _ (.head _)
    have hLater := ih (pageId :: seen)
      (fun other hOther =>
        hPart other (.tail _ hOther))
      hRest hDistinct.2 ?_ (by simpa using hCount)
    · refine Triple.start fun heap hHeap => ?_
      have hStands := hHeap.2.2
      have hValid := valid_of_live hStands.ledger
        (hStands.owned pageId
          (List.mem_map.mpr ⟨_, hHere, rfl⟩))
      unfold pageIdsFrom
      change Triple _ (if pageId = invalidPageId then _
        else if pageId ∈ seen then _ else _) _ _
      rw [if_neg hValid, if_neg hNew]
      refine Triple.bind ((readPage_on hHere).pre
        (fun _ h => h ▸ hHeap)) fun found => ?_
      refine Triple.start fun current hCurrent => ?_
      rcases hCurrent with ⟨hOn, lsn, rfl⟩
      simp only [hNext]
      refine Triple.bind (hLater.pre
        (fun _ h => h ▸ hOn)) fun others => ?_
      refine Triple.pure fun final hFinal => ?_
      exact ⟨by rw [hFinal.1]; rfl, hFinal.2⟩
    · intro other hOther hSeen
      rcases List.mem_cons.mp hSeen with hSame | hSeen
      · exact hDistinct.1
          (List.mem_map.mpr ⟨other, hOther, hSame⟩)
      · exact hUnseen other
          (.tail _ hOther) hSeen

theorem fetch_on
    {recordId : RecordId}
    (hHere : recordId.pageId ∈ chain.pageIds) :
    Triple (On chain history pages metaPage pageSize
        firstPageId lastPageId)
      (fetch recordId)
      (fun payload heap =>
        chain.get recordId = some payload ∧
        On chain history pages metaPage pageSize
          firstPageId lastPageId heap)
      (fun raised heap => chain.get recordId = none ∧
        raised = noRecord recordId ∧
        On chain history pages metaPage pageSize
          firstPageId lastPageId heap) := by
  rcases List.mem_map.mp hHere with ⟨entry, hEntry, hSame⟩
  rcases entry with ⟨pageId, page⟩
  obtain rfl : pageId = recordId.pageId := hSame
  have hGet : chain.get recordId =
      page.read recordId.slotId := by
    unfold HeapFile.get
    rw [HeapFile.pageAt_eq_some.mpr hEntry]
    rfl
  unfold fetch
  refine Triple.bind ((readPage_on hEntry).raises
    (fun _ _ h => h.elim)) fun found => ?_
  refine Triple.start fun heap hHeap => ?_
  rcases hHeap with ⟨hOn, lsn, rfl⟩
  have hRead : ({ page with lsn := lsn } : Page π).read
      recordId.slotId = page.read recordId.slotId := rfl
  rw [hRead, hGet]
  cases page.read recordId.slotId with
  | none => exact Triple.throw fun _ h => ⟨rfl, rfl, h ▸ hOn⟩
  | some payload =>
    exact Triple.pure fun _ h => ⟨rfl, h ▸ hOn⟩

end OpenHeap

--
-- Changing
--

namespace OpenHeap

variable [Payload π]

/- A chain with these records that has all the pages the
   heap had, unless the file has outgrown its meta page. -/
def Becomes
    (chain : HeapFile π)
    (records : RecordId → Option π)
    (heap : OpenHeap π) : Prop :=
  Packed heap.engine →
    ∃ after : HeapFile π, Opened after heap ∧
      after.get = records ∧
      ∀ pageId ∈ chain.pageIds, pageId ∈ after.pageIds

/- The heap has its chain's first and last page. -/
structure Ends
    (chain : HeapFile π)
    (firstPageId lastPageId : PageId) : Prop where
  first : chain.pageIds.head? = some firstPageId
  last : lastPageId = chain.tail.1

variable {heap : OpenHeap π}

theorem becomes_of_on
    {after : HeapFile π}
    (hEnds : Ends after firstPageId lastPageId)
    (hOn : On after history pages metaPage pageSize
      firstPageId lastPageId heap)
    (hKept : ∀ pageId ∈ chain.pageIds, pageId ∈ after.pageIds) :
    Becomes chain after.get heap := by
  intro _
  refine ⟨after, ⟨?_, ?_, ⟨_, _, _, _, hOn.2.2⟩⟩, rfl, hKept⟩
  · rw [hOn.1]
    exact hEnds.first
  · rw [hOn.2.1]
    exact hEnds.last

omit [Payload π] in
theorem Ends.written
    (hEnds : Ends chain firstPageId lastPageId)
    (pageId : PageId)
    (page : Page π) :
    Ends (chain.writePage pageId page) firstPageId
      lastPageId := by
  refine ⟨by simpa using hEnds.first, ?_⟩
  rw [hEnds.last]
  have hIds := HeapFile.pageIds_writePage chain pageId page
  have hLast : ∀ heap : HeapFile π, heap.tail.1 =
      heap.pageIds.getLast (by
        simpa [HeapFile.pageIds] using heap.nonempty) := by
    intro heap
    simp [HeapFile.tail, HeapFile.pageIds, List.getLast_map]
  rw [hLast, hLast]
  simp only [hIds]

/- A page of the heap written where one of its slots
   changes. -/
theorem writePage_on
    (history : List PageCall)
    (pages : PageId → Option (PageImage π))
    (metaPage : MetaPage)
    (hEnds : Ends chain firstPageId lastPageId)
    {pageId : PageId}
    {held page : Page π}
    (hHeld : chain.pageAt pageId = some held)
    (hSound : page.Sound pageSize)
    (hNext : page.nextPageId = held.nextPageId) :
    Triple (On chain history pages metaPage pageSize
        firstPageId lastPageId)
      (onPager (Pager.writePage pageId page))
      (fun _ => Becomes chain
        (chain.writePage pageId page).get)
      (fun _ => Becomes chain chain.get) := by
  refine Triple.start fun heap hHeap => ?_
  have hStands := hHeap.2.2
  refine Triple.weaken
    (P := At firstPageId lastPageId
      (Ready (Core.Shows pages metaPage pageSize)))
    (onPager_at _ _ (Pager.writePage_shown pageId page))
    ?_ ?_ ?_
  · rintro current rfl
    exact ⟨hHeap.1, hHeap.2.1, hStands.ready⟩
  · rintro _ current ⟨hFirst, hLast, hReady⟩
    exact becomes_of_on (hEnds.written pageId page)
      ⟨hFirst, hLast, hStands.written hHeld hSound hNext hReady⟩
      (by simp)
  · rintro _ current ⟨hFirst, hLast, hReady⟩
    exact becomes_of_on hEnds
      ⟨hFirst, hLast, { hStands with ready := hReady }⟩
      fun _ h => h

/- The file has more pages than its meta page can count. -/
def Overgrown (heap : OpenHeap π) : Prop :=
  ∃ (pages : PageId → Option (PageImage π))
    (metaPage : MetaPage) (pageSize : Nat),
    Ready (Core.Shows pages metaPage pageSize) heap.engine ∧
      ¬ metaPage.pageCount < 2 ^ 32

omit [Payload π] in
theorem Overgrown.not_packed
    (hOvergrown : Overgrown heap) : ¬ Packed heap.engine := by
  rcases hOvergrown with ⟨_, metaPage, _, hReady, hCount⟩
  have hSame := Pager.field_of_ready hReady
    MetaPage.pageCount fun _ => rfl
  unfold Packed
  rw [hSame]
  exact hCount

omit [Payload π] in
theorem writePage_overgrown
    (pageId : PageId)
    (page : Page π) :
    Triple Overgrown (onPager (Pager.writePage pageId page))
      (fun _ => Overgrown) (fun _ => Overgrown) := by
  refine Triple.start fun heap hHeap => ?_
  rcases hHeap with ⟨pages, metaPage, pageSize, hReady, hCount⟩
  refine Triple.weaken
    (P := At heap.firstPageId heap.lastPageId
      (Ready (Core.Shows pages metaPage pageSize)))
    (onPager_at _ _ (Pager.writePage_shown pageId page)) ?_
    (fun _ _ h => ⟨_, _, _, h.2.2, hCount⟩)
    (fun _ _ h => ⟨_, _, _, h.2.2, hCount⟩)
  rintro current rfl
  exact ⟨rfl, rfl, hReady⟩

/- The chain has the new page, unless the file has outgrown
   its meta page. -/
def Extended
    (chain : HeapFile π)
    (placed : Page π)
    (pageSize : Nat)
    (firstPageId fresh : PageId)
    (heap : OpenHeap π) : Prop :=
  (∃ (hFresh : fresh ∉ chain.pageIds)
      (history : List PageCall)
      (pages : PageId → Option (PageImage π))
      (metaPage : MetaPage),
    On (chain.grown placed fresh
        (Page.blank .heap pageSize) hFresh)
      history pages metaPage pageSize firstPageId fresh
      heap) ∨ Overgrown heap

variable {placed : Page π}

theorem extend_on
    (hEnds : Ends chain firstPageId lastPageId)
    (hPlaced : placed.Sound pageSize) :
    Triple (On chain history pages metaPage pageSize
        firstPageId lastPageId)
      (extend chain.tail.1 placed)
      (fun result heap =>
        result.2 = Page.blank .heap pageSize ∧
          result.1 ∉ chain.pageIds ∧
          Extended chain placed pageSize firstPageId result.1
            heap)
      (fun _ => Becomes chain chain.get) := by
  refine Triple.start fun heap hHeap => ?_
  have hStands := hHeap.2.2
  rcases hStands.ledger.allocation hStands.small .heap with
    ⟨fresh, metaAfter, hNew, hSpec, hLedger⟩
  have hFresh : fresh ∉ chain.pageIds := fun hMem =>
    hNew (hStands.owned fresh hMem)
  unfold extend
  refine Triple.bind
    ((onPager_at firstPageId lastPageId hSpec).weaken
      (fun _ h => h ▸ ⟨hHeap.1, hHeap.2.1, hStands.ready⟩)
      (fun _ _ h => h) (fun _ _ h => h.2.2.elim))
    fun result => ?_
  refine Triple.start fun middle hMiddle => ?_
  rcases hMiddle with ⟨hFirst, hLast, rfl, hReady⟩
  have hWrite : Triple
      (At firstPageId lastPageId
        (Ready (Core.Shows
          (Pager.withPage pages fresh
            (Page.blank .heap pageSize) metaAfter)
          metaAfter pageSize)))
      (onPager (Pager.writePage chain.tail.1
        { placed with nextPageId := fresh }))
      (fun _ => At firstPageId lastPageId
        (Ready (Core.Shows
          (Function.update
            (Pager.withPage pages fresh
              (Page.blank .heap pageSize) metaAfter)
            chain.tail.1 (some (.slotted
              { placed with nextPageId := fresh })))
          metaAfter pageSize)))
      (fun _ => At firstPageId lastPageId
        (Ready (Core.Shows
          (Pager.withPage pages fresh
            (Page.blank .heap pageSize) metaAfter)
          metaAfter pageSize))) :=
    onPager_at _ _ (Pager.writePage_shown _ _)
  have hSound : (Page.blank .heap pageSize :
      Page π).Sound pageSize :=
    Page.sound_blank hStands.ledger.validSize .heap
  refine Triple.bind (hWrite.weaken
    (fun _ h => h ▸ ⟨hFirst, hLast, hReady⟩)
    (fun _ _ h => h) ?_) fun _ => ?_
  · rintro _ current ⟨hFirst, hLast, hRaised⟩ hPacked
    have hCount := Pager.field_of_ready hRaised
      MetaPage.pageCount fun _ => rfl
    unfold Packed at hPacked
    rw [hCount] at hPacked
    have hAllocated := hStands.allocated hNew
      (hLedger hPacked) hRaised
    exact becomes_of_on hEnds ⟨hFirst, hLast, hAllocated⟩
      (fun _ h => h) (by
        unfold Packed
        rwa [hCount])
  · refine Triple.bind
      (Q := fun _ heap => Extended chain placed pageSize
        firstPageId fresh heap)
      (Triple.modify fun current hCurrent => ?_) fun _ => ?_
    · rcases hCurrent with ⟨hFirst, -, hWritten⟩
      by_cases hPacked : metaAfter.pageCount < 2 ^ 32
      · have hAllocated := hStands.allocated hNew
          (hLedger hPacked) hReady
        exact .inl ⟨hFresh, _, _, metaAfter, hFirst, rfl,
          hAllocated.extended hFresh hSound rfl hPlaced
            hWritten⟩
      · exact .inr ⟨_, metaAfter, _, hWritten, hPacked⟩
    · exact Triple.pure fun _ h => ⟨rfl, hFresh, h⟩

variable {fresh : PageId}

omit [Payload π] in
theorem Ends.grown
    (hEnds : Ends chain firstPageId lastPageId)
    (placed page : Page π)
    (hFresh : fresh ∉ chain.pageIds) :
    Ends (chain.grown placed fresh page hFresh) firstPageId
      fresh := by
  have hIds := HeapFile.pageIds_writePage chain chain.tail.1
    { placed with nextPageId := fresh }
  refine ⟨?_, ?_⟩
  · have hAll : (chain.grown placed fresh page
        hFresh).pageIds = chain.pageIds ++ [fresh] := by
      unfold HeapFile.grown HeapFile.append
      unfold HeapFile.pageIds at hIds ⊢
      simp only [List.map_append, hIds, List.map_singleton]
    rw [hAll, List.head?_append, hEnds.first]
    rfl
  · simp [HeapFile.grown, HeapFile.append, HeapFile.tail]

variable {payload : π}

/- A record in the new page, or none when that fails. -/
theorem fill_on
    (hPlaced : placed.read = chain.tail.2.read)
    (hEnds : Ends chain firstPageId lastPageId)
    {slotId : Nat}
    {filled : Page π}
    (hValid : validatePageSize pageSize = .ok ())
    (hFilled : (Page.blank .heap pageSize).insert payload =
      .ok (some (slotId, filled))) :
    Triple
      (Extended chain placed pageSize firstPageId fresh)
      (onPager (Pager.writePage fresh filled))
      (fun _ => Becomes chain
        (Function.update chain.get ⟨fresh, slotId⟩
          (some payload)))
      (fun _ => Becomes chain chain.get) := by
  refine Triple.start fun heap hHeap => ?_
  rcases hHeap with
    ⟨hFresh, history', pages', metaPage', hOn⟩ | hOvergrown
  · have hEmpty : ∀ slotId, (Page.blank .heap pageSize :
        Page π).read slotId = none :=
      HeapFile.read_create .heap pageSize
    have hGrown : (chain.grown placed fresh
        (Page.blank .heap pageSize) hFresh).get =
          chain.get :=
      HeapFile.get_grown hPlaced hEmpty
    have hHeld : (chain.grown placed fresh
        (Page.blank .heap pageSize) hFresh).pageAt fresh =
          some (Page.blank .heap pageSize) := by
      unfold HeapFile.grown
      rw [HeapFile.pageAt_append, if_pos rfl]
    have hSound := (Page.sound_blank hValid .heap).insert
      hFilled
    have hWrite := writePage_on history' pages' metaPage'
      (hEnds.grown placed (Page.blank .heap pageSize)
        hFresh)
      hHeld hSound (Page.insert_next hFilled)
    have hGet := HeapFile.get_writePage hHeld
      (Page.read_insert hFilled).2
    rw [hGet, hGrown] at hWrite
    have hMore : ∀ records final,
        Becomes (chain.grown placed fresh
          (Page.blank .heap pageSize) hFresh) records
            final →
          Becomes chain records final := by
      intro records final hBecomes hPacked
      rcases hBecomes hPacked with
        ⟨after, hOpened, hRecords, hKept⟩
      refine ⟨after, hOpened, hRecords, fun other hOther => ?_⟩
      exact hKept other
        (HeapFile.mem_grown.mpr (.inl hOther))
    exact hWrite.weaken (fun _ h => h ▸ hOn)
      (fun _ _ h => hMore _ _ h) (fun _ _ h => hMore _ _ h)
  · exact (writePage_overgrown fresh filled).weaken
      (fun _ h => h ▸ hOvergrown)
      (fun _ _ h hPacked => absurd hPacked h.not_packed)
      (fun _ _ h hPacked => absurd hPacked h.not_packed)

/- An insert fills one address that was free. -/
theorem insert_on
    (hEnds : Ends chain firstPageId lastPageId)
    (payload : π) :
    Triple (On chain history pages metaPage pageSize
        firstPageId lastPageId)
      (insert payload)
      (fun recordId heap => chain.get recordId = none ∧
        Becomes chain
          (Function.update chain.get recordId
            (some payload)) heap)
      (fun _ => Becomes chain chain.get) := by
  have hTail : (chain.tail.1, chain.tail.2) ∈ chain.pages :=
    List.getLast_mem chain.nonempty
  have hHeld := HeapFile.pageAt_tail chain
  unfold insert
  refine Triple.read fun heap hHeap => ?_
  have hStands := hHeap.2.2
  have hSame : heap.lastPageId = chain.tail.1 :=
    hHeap.2.1.trans hEnds.last
  simp only [hSame]
  refine Triple.bind ((readPage_on hTail).weaken
    (fun _ h => h ▸ hHeap) (fun _ _ h => h)
    (fun _ _ h => h.elim)) fun found => ?_
  refine Triple.start fun current hCurrent => ?_
  rcases hCurrent with ⟨hOn, lsn, rfl⟩
  have hSound := ((hStands.linked.mem hTail).2).linked lsn
    chain.tail.2.nextPageId
  have hKept : Becomes chain chain.get current :=
    becomes_of_on hEnds hOn fun _ h => h
  refine Triple.ite
    (fun _ => Triple.throw fun _ h => h ▸ hKept) fun _ => ?_
  refine Triple.bind ((fromExcept_at (HeapFile.place
    { chain.tail.2 with lsn := lsn } payload)).raises
    (fun _ _ h => h ▸ hKept)) fun result => ?_
  refine Triple.start fun after hAfter => ?_
  rcases result with ⟨placed, slot⟩
  rcases hAfter with ⟨rfl, hPlace⟩
  have hPlaced := HeapFile.place_sound hSound hPlace
  have hNext := HeapFile.place_next hPlace
  rcases HeapFile.place_spec hPlace with
    ⟨slotId, rfl, hNone, hRead⟩ | ⟨rfl, hRead⟩
  · have hFree : chain.get ⟨chain.tail.1, slotId⟩ =
        none := by
      unfold HeapFile.get
      rw [hHeld]
      exact hNone
    have hWrite := writePage_on history pages metaPage
      hEnds hHeld hPlaced hNext
    rw [HeapFile.get_writePage hHeld hRead] at hWrite
    refine Triple.bind (hWrite.pre (fun _ h => h ▸ hOn))
      fun _ => ?_
    exact Triple.pure fun _ h => ⟨hFree, h⟩
  · refine Triple.bind ((extend_on hEnds hPlaced).pre
      (fun _ h => h ▸ hOn)) fun result => ?_
    rcases result with ⟨fresh, empty⟩
    refine Triple.start fun grown hGrown => ?_
    rcases hGrown with ⟨rfl, hFresh, hExtended⟩
    have hUnchanged : Becomes chain chain.get grown := by
      rcases hExtended with
        ⟨hNew, _, _, _, hOnGrown⟩ | hOvergrown
      · intro hPacked
        have hBecomes := becomes_of_on
          (hEnds.grown placed (Page.blank .heap pageSize)
            hNew) hOnGrown (fun pageId hPage =>
              HeapFile.mem_grown.mpr (.inl hPage)) hPacked
        rwa [HeapFile.get_grown hRead
          (HeapFile.read_create .heap pageSize)] at hBecomes
      · exact fun hPacked =>
          absurd hPacked hOvergrown.not_packed
    refine Triple.bind ((fromExcept_at
      ((Page.blank .heap pageSize).insert payload)).raises
      (fun _ _ h => h ▸ hUnchanged)) fun filling => ?_
    refine Triple.start fun filled hFilled => ?_
    rcases hFilled with ⟨rfl, hFilled⟩
    cases filling with
    | none => exact Triple.throw fun _ h => h ▸ hUnchanged
    | some filling =>
      rcases filling with ⟨slotId, page⟩
      have hFree : chain.get ⟨fresh, slotId⟩ = none := by
        unfold HeapFile.get
        rw [HeapFile.pageAt_fresh hFresh]
        rfl
      refine Triple.bind ((fill_on hRead hEnds
        hStands.ledger.validSize hFilled).pre
        (fun _ h => h ▸ hExtended)) fun _ => ?_
      exact Triple.pure fun _ h => ⟨hFree, h⟩

variable {recordId : RecordId}

/- A delete removes the record, or finds none. -/
theorem delete_on
    (hEnds : Ends chain firstPageId lastPageId)
    (hHere : recordId.pageId ∈ chain.pageIds) :
    Triple (On chain history pages metaPage pageSize
        firstPageId lastPageId)
      (delete recordId)
      (fun removed => Becomes chain
        (if removed then
          Function.update chain.get recordId none
        else chain.get))
      (fun _ => Becomes chain chain.get) := by
  rcases List.mem_map.mp hHere with ⟨entry, hEntry, hSame⟩
  rcases entry with ⟨pageId, page⟩
  obtain rfl : pageId = recordId.pageId := hSame
  have hHeld := HeapFile.pageAt_eq_some.mpr hEntry
  unfold delete
  refine Triple.bind ((readPage_on hEntry).raises
    (fun _ _ h => h.elim)) fun found => ?_
  refine Triple.start fun heap hHeap => ?_
  rcases hHeap with ⟨hOn, lsn, rfl⟩
  have hSound := ((hOn.2.2.linked.mem hEntry).2).linked lsn
    page.nextPageId
  cases hDelete : ({ page with lsn := lsn } :
      Page π).delete recordId.slotId with
  | none =>
    refine Triple.pure fun _ h => ?_
    rw [if_neg Bool.false_ne_true, h]
    exact becomes_of_on hEnds hOn fun _ h => h
  | some left =>
    have hNext : left.nextPageId = page.nextPageId := by
      unfold Page.delete at hDelete
      rcases Option.map_eq_some_iff.mp hDelete with ⟨_, _, rfl⟩
      rfl
    have hWrite := writePage_on history pages metaPage
      hEnds hHeld (hSound.delete hDelete) hNext
    rw [HeapFile.get_writePage hHeld
      (Page.read_delete hDelete).2] at hWrite
    refine Triple.bind (hWrite.pre (fun _ h => h ▸ hOn))
      fun _ => ?_
    refine Triple.pure fun _ h => ?_
    rw [if_pos rfl]
    exact h

/- A replacement is in the record's own place. -/
theorem replace_on
    (hEnds : Ends chain firstPageId lastPageId)
    (hHere : recordId.pageId ∈ chain.pageIds)
    (payload : π) :
    Triple (On chain history pages metaPage pageSize
        firstPageId lastPageId)
      (replace recordId payload)
      (fun replaced => Becomes chain
        (if replaced then
          Function.update chain.get recordId (some payload)
        else chain.get))
      (fun _ => Becomes chain chain.get) := by
  rcases List.mem_map.mp hHere with ⟨entry, hEntry, hSame⟩
  rcases entry with ⟨pageId, page⟩
  obtain rfl : pageId = recordId.pageId := hSame
  have hHeld := HeapFile.pageAt_eq_some.mpr hEntry
  unfold replace
  refine Triple.bind ((readPage_on hEntry).raises
    (fun _ _ h => h.elim)) fun found => ?_
  refine Triple.start fun heap hHeap => ?_
  rcases hHeap with ⟨hOn, lsn, rfl⟩
  have hSound := ((hOn.2.2.linked.mem hEntry).2).linked lsn
    page.nextPageId
  have hKept : Becomes chain chain.get heap :=
    becomes_of_on hEnds hOn fun _ h => h
  refine Triple.bind ((fromExcept_at
    (({ page with lsn := lsn } : Page π).overwrite
      recordId.slotId payload)).raises
    (fun _ _ h => h ▸ hKept)) fun writing => ?_
  refine Triple.start fun current hCurrent => ?_
  rcases hCurrent with ⟨rfl, hWritten⟩
  cases writing with
  | none =>
    refine Triple.pure fun _ h => ?_
    rw [if_neg Bool.false_ne_true, h]
    exact hKept
  | some written =>
    have hNext := Page.overwrite_next hWritten
    have hWrite := writePage_on history pages metaPage
      hEnds hHeld (hSound.overwrite hWritten) hNext
    rw [HeapFile.get_writePage hHeld
      (Page.read_overwrite hWritten).2] at hWrite
    refine Triple.bind (hWrite.pre (fun _ h => h ▸ hOn))
      fun _ => ?_
    refine Triple.pure fun _ h => ?_
    rw [if_pos rfl]
    exact h

omit [Payload π] in
theorem Ends.firstOf_pages
    (hEnds : Ends chain firstPageId lastPageId) :
    firstOf chain.pages = firstPageId := by
  have hHead := hEnds.first
  unfold HeapFile.pageIds at hHead
  rw [List.head?_map] at hHead
  unfold firstOf
  rw [hHead]
  rfl

theorem scan_on
    (hEnds : Ends chain firstPageId lastPageId)
    (count : Nat) :
    Triple (On chain history pages metaPage pageSize
        firstPageId lastPageId)
      (scan count)
      (fun found heap =>
        found = recordsOf (chain.pages.take count) ∧
        On chain history pages metaPage pageSize
          firstPageId lastPageId heap)
      (fun _ _ => False) := by
  have hFirst := hEnds.firstOf_pages
  unfold scan
  refine Triple.read fun heap hHeap => ?_
  rw [hHeap.1, ← hFirst]
  exact (scanFrom_on count (fun _ h => h)
    hHeap.2.2.linked).weaken
    (fun _ h => h ▸ (hFirst.symm ▸ hHeap))
    (fun _ _ h => hFirst ▸ h) (fun _ _ h => h)

/- A record is on a page of its heap. -/
omit [Payload π] in
theorem page_of_get
    (hGet : chain.get recordId = some payload) :
    recordId.pageId ∈ chain.pageIds := by
  rcases Option.bind_eq_some_iff.mp hGet with ⟨page, hPage, -⟩
  have hMem := HeapFile.pageAt_eq_some.mp hPage
  exact List.mem_map.mpr ⟨_, hMem, rfl⟩

/- What each call does to the records. -/
theorem perform_on
    (hEnds : Ends chain firstPageId lastPageId)
    {call : HeapCall π}
    (hNames : ∀ recordId ∈ call.names,
      recordId.pageId ∈ chain.pageIds) :
    Triple (On chain history pages metaPage pageSize
        firstPageId lastPageId)
      call.perform
      (fun made heap =>
        (∀ recordId payload,
          .inserted recordId payload ∈ made →
            contents chain.get made recordId = some payload) ∧
        Becomes chain (contents chain.get made) heap)
      (fun _ => Becomes chain chain.get) := by
  cases call with
  | insert payload =>
    refine (insert_on hEnds payload).bind fun recordId => ?_
    refine Triple.pure fun heap hHeap => ⟨?_, hHeap.2⟩
    intro other held hMade
    rcases List.mem_singleton.mp hMade with hSame
    cases hSame
    exact Function.update_self ..
  | delete recordId =>
    refine (delete_on hEnds
      (hNames recordId (by simp [HeapCall.names]))).bind
      fun removed => ?_
    refine Triple.pure fun heap hHeap => ?_
    cases removed with
    | true => exact ⟨by simp, hHeap⟩
    | false => exact ⟨by simp, hHeap⟩
  | replace recordId payload =>
    refine (replace_on hEnds
      (hNames recordId (by simp [HeapCall.names]))
      payload).bind fun replaced => ?_
    refine Triple.pure fun heap hHeap => ?_
    cases replaced with
    | true => exact ⟨by simp, hHeap⟩
    | false => exact ⟨by simp, hHeap⟩
  | fetch recordId =>
    refine Triple.bind ((fetch_on
      (hNames recordId (by simp [HeapCall.names]))).raises
      (fun _ heap h => becomes_of_on hEnds h.2.2
        fun _ h => h)) fun payload => ?_
    refine Triple.pure fun heap hHeap => ⟨by simp, ?_⟩
    exact becomes_of_on hEnds hHeap.2 fun _ h => h
  | scan count =>
    refine Triple.bind ((scan_on hEnds count).raises
      (fun _ _ h => h.elim)) fun found => ?_
    refine Triple.pure fun heap hHeap => ⟨by simp, ?_⟩
    exact becomes_of_on hEnds hHeap.2 fun _ h => h

end OpenHeap

--
-- Runs
--

theorem contents_append
    (start : RecordId → Option π)
    (made events : List (HeapEvent π)) :
    contents start (made ++ events) =
      contents (contents start events) made := by
  induction made with
  | nil => rfl
  | cons event made ih =>
    cases event with
    | inserted recordId payload =>
      exact congrArg (Function.update · recordId
        (some payload)) ih
    | deleted recordId =>
      exact congrArg (Function.update · recordId none) ih
    | replaced recordId payload =>
      exact congrArg (Function.update · recordId
        (some payload)) ih

section Runs

variable [Payload π] {start : HeapFile π}
variable {events : List (HeapEvent π)} {heap : OpenHeap π}

open OpenHeap

/- What an opened heap gives to a reader. -/
theorem opened_holds
    (hOpened : Opened chain heap) :
    HoldsExactly heap chain.get := by
  rcases hOpened.standing with
    ⟨history, pages, metaPage, pageSize, hStands⟩
  have hOn : On chain history pages metaPage pageSize
      heap.firstPageId heap.lastPageId heap :=
    ⟨rfl, rfl, hStands⟩
  have hEnds : Ends chain heap.firstPageId
      heap.lastPageId := ⟨hOpened.first, hOpened.last⟩
  refine ⟨⟨chain.records, chain.pages.length, ?_,
    HeapFile.records_nodup chain,
    fun _ _ => HeapFile.mem_records⟩, ?_,
    ⟨chain.pageIds, chain.pages.length, ?_, chain.distinct,
      hOpened.first, ?_, ?_⟩⟩
  · intro count hCount
    have hScan := scan_on hEnds count heap hOn
    cases hRun : (scan count).run heap with
    | ok found final =>
      rw [hRun] at hScan
      rw [List.take_of_length_le (Nat.le_of_lt hCount)]
        at hScan
      exact ⟨final, by rw [hScan.1]; rfl⟩
    | error raised final =>
      rw [hRun] at hScan
      exact hScan.elim
  · intro recordId payload hGet
    have hHere := page_of_get hGet
    have hFetch := fetch_on hHere heap hOn
    cases hRun : (fetch recordId).run heap with
    | ok found final =>
      rw [hRun] at hFetch
      rw [hGet] at hFetch
      exact ⟨final, by rw [Option.some.inj hFetch.1]⟩
    | error raised final =>
      rw [hRun] at hFetch
      rw [hGet] at hFetch
      cases hFetch.1
  · intro count hCount
    have hWalk := pageIdsFrom_on [] (fun _ h => h)
      hStands.linked chain.distinct (by simp) hCount heap hOn
    unfold OpenHeap.pageIds
    rw [EStateM.run_bind, EStateM.run_get]
    simp only [← hEnds.firstOf_pages]
    cases hRun : (pageIdsFrom count
        (firstOf chain.pages) []).run heap with
    | ok found final =>
      rw [hRun] at hWalk
      exact ⟨final, by rw [hWalk.1]; rfl⟩
    | error raised final =>
      rw [hRun] at hWalk
      exact hWalk.elim
  · rw [hOpened.last]
    unfold HeapFile.pageIds HeapFile.tail
    rw [List.getLast?_map,
      List.getLast?_eq_some_getLast chain.nonempty]
    rfl
  · intro recordId hHere hNone
    have hFetch := fetch_on hHere heap hOn
    cases hRun : (fetch recordId).run heap with
    | ok found final =>
      rw [hRun] at hFetch
      rw [hNone] at hFetch
      cases hFetch.1
    | error raised final =>
      rw [hRun] at hFetch
      exact ⟨final, by rw [hFetch.2.1]⟩

/- Every run leaves a chain with what it put there. -/
theorem runs_opened
    (hRuns : Runs start events heap) :
    ∃ chain : HeapFile π, Opened chain heap ∧
      chain.get = contents start.get events ∧
      ∀ recordId, Known start events recordId →
        recordId.pageId ∈ chain.pageIds := by
  induction hRuns with
  | opened hOpened =>
    refine ⟨start, hOpened, rfl, fun recordId hKnown => ?_⟩
    rcases hKnown with hLive | ⟨payload, hMade⟩
    · rcases Option.isSome_iff_exists.mp hLive with
        ⟨payload, hGet⟩
      exact page_of_get hGet
    · cases hMade
  | elsewhere engine _ hStill ih =>
    rcases ih with ⟨chain, hOpened, hGet, hKnown⟩
    exact ⟨chain, ⟨hOpened.first, hOpened.last,
      hStill chain hOpened.standing⟩, hGet, hKnown⟩
  | @returned events heap made final call _ hNames hCall
      hPacked ih =>
    rcases ih with ⟨chain, hOpened, hGet, hKnown⟩
    rcases hOpened.standing with ⟨_, _, _, _, hStands⟩
    have hPerform := (perform_on
      ⟨hOpened.first, hOpened.last⟩
      (fun recordId hName =>
        hKnown recordId (hNames recordId hName))).of_ok
      ⟨rfl, rfl, hStands⟩ hCall
    rcases hPerform.2 hPacked with
      ⟨after, hAfter, hRecords, hKept⟩
    refine ⟨after, hAfter, ?_, fun recordId hMore => ?_⟩
    · rw [hRecords, hGet, contents_append]
    · rcases hMore with hLive | ⟨payload, hMade⟩
      · exact hKept _ (hKnown recordId (.inl hLive))
      · rcases List.mem_append.mp hMade with hNow | hBefore
        · have hNew := hPerform.1 recordId payload hNow
          rw [← hRecords] at hNew
          exact page_of_get hNew
        · exact hKept _ (hKnown recordId
            (.inr ⟨payload, hBefore⟩))
  | @raised events heap raised final call _ hNames hCall
      hPacked ih =>
    rcases ih with ⟨chain, hOpened, hGet, hKnown⟩
    rcases hOpened.standing with ⟨_, _, _, _, hStands⟩
    have hPerform := (perform_on
      ⟨hOpened.first, hOpened.last⟩
      (fun recordId hName =>
        hKnown recordId (hNames recordId hName))).of_error
      ⟨rfl, rfl, hStands⟩ hCall
    rcases hPerform hPacked with
      ⟨after, hAfter, hRecords, hKept⟩
    exact ⟨after, hAfter, hRecords.trans hGet,
      fun recordId hMore =>
        hKept _ (hKnown recordId hMore)⟩

/-
  After any run, the heap holds the records that were put
  there and not deleted since, each with what was put there
  last; and whichever way an insert goes, its address was
  free and every other record stays where it is.
-/
theorem heap_file_holds
    (hRuns : Runs start events heap) :
    HoldsExactly heap (contents start.get events) ∧
      ∀ payload,
        match (OpenHeap.insert payload).run heap with
        | .ok recordId final =>
          contents start.get events recordId = none ∧
            (Packed final.engine →
              HoldsExactly final
                (Function.update
                  (contents start.get events) recordId
                  (some payload)))
        | .error _ final =>
          Packed final.engine →
            HoldsExactly final
              (contents start.get events) := by
  rcases runs_opened hRuns with ⟨chain, hOpened, hGet, -⟩
  rw [← hGet]
  refine ⟨opened_holds hOpened, fun payload => ?_⟩
  rcases hOpened.standing with ⟨_, _, _, _, hStands⟩
  have hInsert := insert_on ⟨hOpened.first, hOpened.last⟩
    payload heap ⟨rfl, rfl, hStands⟩
  cases hRun : (OpenHeap.insert payload).run heap with
  | ok recordId final =>
    rw [hRun] at hInsert
    refine ⟨hInsert.1, fun hPacked => ?_⟩
    rcases hInsert.2 hPacked with ⟨after, hAfter, hSame, -⟩
    rw [← hSame]
    exact opened_holds hAfter
  | error raised final =>
    rw [hRun] at hInsert
    intro hPacked
    rcases hInsert hPacked with ⟨after, hAfter, hSame, -⟩
    rw [← hSame]
    exact opened_holds hAfter

/- A new heap is a chain of one empty page. -/
theorem create_opened
    {history : List PageCall}
    {engine final : Engine π}
    {ends : PageId × PageId}
    (hAccounted : Accounted pageSize history engine)
    (hSmall : pageSize < 65536)
    (hCreate : OpenHeap.create.run engine = .ok ends final)
    (hPacked : Packed final) :
    ∃ chain : HeapFile π,
      Opened chain ⟨final, ends.1, ends.2⟩ ∧
        chain.get = fun _ => none := by
  rcases hAccounted with ⟨pages, metaPage, hReady, hLedger⟩
  rcases hLedger.allocation hSmall .heap with
    ⟨fresh, metaAfter, _, hSpec, hAfter⟩
  rcases ok_of_run_bind hCreate with
    ⟨taken, middle, hTaken, hEnds⟩
  cases hEnds
  rcases hSpec.of_ok hReady hTaken with ⟨rfl, hFinal⟩
  have hCount := Pager.field_of_ready hFinal
    MetaPage.pageCount fun _ => rfl
  unfold Packed at hPacked
  rw [hCount] at hPacked
  have hNow := hAfter hPacked
  have hInside := hNow.liveInside fresh
    (.head _)
  have hSound : (Page.blank .heap pageSize :
      Page π).Sound pageSize :=
    Page.sound_blank hLedger.validSize .heap
  refine ⟨⟨[(fresh, Page.blank .heap pageSize)], by simp,
    by simp⟩, ⟨rfl, rfl, _, _, metaAfter, pageSize,
      hFinal, hNow, hSmall, ?_, ?_⟩, ?_⟩
  · intro pageId hPage
    rcases List.mem_singleton.mp hPage with rfl
    exact .head _
  · exact ⟨Pager.withPage_self hInside.1, hSound, rfl, trivial⟩
  · funext recordId
    unfold HeapFile.get HeapFile.pageAt
    by_cases hHere : fresh = recordId.pageId
    · simp [hHere, HeapFile.read_create]
    · simp [hHere]

end Runs

/- The heap once a call was made on it. -/
def heapAfter
    (call : HeapCall Bytes)
    (heap : OpenHeap Bytes) : OpenHeap Bytes :=
  match call.perform.run heap with
  | .ok _ final => final
  | .error _ final => final

def heapCreated : OpenHeap Bytes :=
  ⟨engineAfter OpenHeap.create (engineCreated 256), 1, 1⟩

/- A record deleted, and another in its place. -/
theorem heap_file_holds_reused :
    ∃ heap : OpenHeap Bytes,
      HoldsExactly heap
        (Function.update (fun _ => none) ⟨1, 0⟩
          (some [7])) := by
  have hCreated : Allocates (fewFrames 256) []
      (engineCreated 256) :=
    @Allocates.created Bytes (fewFrames 256) [] _ _ rfl rfl
  have hSmall : (fewFrames 256).pageSize < 65536 := by
    decide
  rcases create_opened
    (accounted_of_allocates hSmall hCreated) hSmall
    (show OpenHeap.create.run (engineCreated 256) =
      .ok (1, 1) heapCreated.engine from rfl)
    (by decide) with ⟨chain, hOpened, hGet⟩
  have hStart : Runs chain [] heapCreated := .opened hOpened
  have hFirst : Runs chain [.inserted ⟨1, 0⟩ [1, 2]]
      (heapAfter (.insert [1, 2]) heapCreated) :=
    @Runs.returned Bytes _ chain _ _
      [.inserted ⟨1, 0⟩ [1, 2]] _ (.insert [1, 2]) hStart
      (by simp [HeapCall.names]) rfl (by decide)
  have hSecond : Runs chain
      [.deleted ⟨1, 0⟩, .inserted ⟨1, 0⟩ [1, 2]]
      (heapAfter (.delete ⟨1, 0⟩)
        (heapAfter (.insert [1, 2]) heapCreated)) := by
    refine @Runs.returned Bytes _ chain _ _
      [.deleted ⟨1, 0⟩] _ (.delete ⟨1, 0⟩) hFirst ?_ rfl
      (by decide)
    intro recordId hName
    rcases List.mem_singleton.mp hName with rfl
    exact .inr ⟨_, List.mem_singleton.mpr rfl⟩
  have hThird : Runs chain
      [.inserted ⟨1, 0⟩ [7], .deleted ⟨1, 0⟩,
        .inserted ⟨1, 0⟩ [1, 2]]
      (heapAfter (.insert [7])
        (heapAfter (.delete ⟨1, 0⟩)
          (heapAfter (.insert [1, 2]) heapCreated))) :=
    @Runs.returned Bytes _ chain _ _
      [.inserted ⟨1, 0⟩ [7]] _ (.insert [7]) hSecond
      (by simp [HeapCall.names]) rfl (by decide)
  have hHolds := (heap_file_holds hThird).1
  have hSame : contents chain.get
      [.inserted ⟨1, 0⟩ [7], .deleted ⟨1, 0⟩,
        .inserted ⟨1, 0⟩ [1, 2]] =
      Function.update (fun _ : RecordId => none) ⟨1, 0⟩
        (some [7]) := by
    simp [contents, hGet]
  rw [hSame] at hHolds
  exact ⟨_, hHolds⟩

end Storage

end ChenDB
