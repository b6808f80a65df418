import ChenDB.Indexing.TreeRuns

/-
  What an insert leaves behind when it raises. A leaf that is
  full is split and written before its separator is offered to
  the parent, and a separator is wider than the leaf's entry.
-/

--
-- Inserts That Keep the Tree
--

namespace ChenDB

namespace Indexing

open Executor (Value)
open Storage (RecordId)

variable {σ α β : Type}

/- The tree as a call leaves it, and whether it raised. -/
structure Outcome (σ : Type) where
  tree : BPlusTree σ
  result : Except EngineError Unit

namespace Outcome

/- The tree, where nothing was raised. -/
def toExcept
    (outcome : Outcome σ) :
    Except EngineError (BPlusTree σ) :=
  match outcome.result with
  | .ok () => .ok outcome.tree
  | .error raised => .error raised

/- One more step, on a tree that stays as it is when the step
   raises. -/
def attempt
    (tree : BPlusTree σ)
    (step : Except EngineError β)
    (next : β → Outcome σ) : Outcome σ :=
  match step with
  | .ok value => next value
  | .error raised => ⟨tree, .error raised⟩

@[simp] theorem attempt_ok
    (tree : BPlusTree σ)
    (value : β)
    (next : β → Outcome σ) :
    attempt tree (.ok value) next = next value := rfl

@[simp] theorem attempt_error
    (tree : BPlusTree σ)
    (raised : EngineError)
    (next : β → Outcome σ) :
    attempt tree (.error raised) next =
      ⟨tree, .error raised⟩ := rfl

theorem toExcept_attempt
    (tree : BPlusTree σ)
    (step : Except EngineError β)
    (next : β → Outcome σ) :
    (attempt tree step next).toExcept =
      step >>= fun value => (next value).toExcept := by
  cases step with
  | ok value => rfl
  | error raised => rfl

theorem toExcept_of_ok
    {outcome : Outcome σ}
    (hResult : outcome.result = .ok ()) :
    outcome.toExcept = .ok outcome.tree := by
  unfold toExcept
  rw [hResult]

theorem attempt_keeps
    {P : BPlusTree σ → Prop}
    {tree : BPlusTree σ}
    {step : Except EngineError β}
    {next : β → Outcome σ}
    (hHere : P tree)
    (hNext : ∀ value, step = .ok value → P (next value).tree) :
    P (attempt tree step next).tree := by
  cases step with
  | ok value => exact hNext value rfl
  | error raised => exact hHere

end Outcome

open Outcome (attempt)

namespace BPlusTree

section Outcomes

variable [LinearOrder σ] (layout : Layout σ)

/- `_grow_root`. The page is allocated when the entries turn
   out not to fit it. -/
def growRootIn
    (tree : BPlusTree σ)
    (leftId : PageId)
    (separator : σ × PageId) : Outcome σ :=
  attempt tree tree.allocate fun allocated =>
    let entries := [(layout.least, leftId), separator]
    attempt allocated.2
      (replaceAll layout layout.childWidth allocated.1
        entries) fun _ =>
      ⟨{ allocated.2.write allocated.1 (.internal entries)
          with root := allocated.1 }, .ok ()⟩

/- `_insert_into_parent`: what was written below stays
   written. -/
def insertIntoParentIn :
    Path → BPlusTree σ → PageId → σ × PageId → Outcome σ
  | [], tree, leftId, separator =>
    growRootIn layout tree leftId separator
  | (parentId, _) :: rest, tree, _, separator =>
    match tree.nodes parentId with
    | some (.internal entries) =>
      attempt tree (insertEntry layout Prod.fst
          layout.childWidth entries separator) fun
      | some grown =>
        ⟨tree.write parentId (.internal grown), .ok ()⟩
      | none =>
        let all := insertSorted Prod.fst entries
          separator
        attempt tree (planSplit
          (all.map layout.childWidth)
          layout.usableBytes) fun cut =>
        match all[cut]? with
        | none =>
          ⟨tree, .error
            (.indexingError "no such cut")⟩
        | some promoted =>
          let left := all.take cut
          let right := (layout.least, promoted.2) ::
            all.drop (cut + 1)
          attempt tree tree.allocate fun allocated =>
          attempt allocated.2 (replaceAll layout
            layout.childWidth allocated.1
            right) fun _ =>
          attempt allocated.2 (replaceAll layout
            layout.childWidth parentId left) fun _ =>
          insertIntoParentIn rest
            ((allocated.2.write allocated.1
              (.internal right)).write parentId
                (.internal left))
            parentId (promoted.1, allocated.1)
    | _ => ⟨tree, .error (notANode parentId)⟩

/- `_split_leaf`. -/
def splitLeafIn
    (tree : BPlusTree σ)
    (leaf : Landing σ)
    (entry : σ) : Outcome σ :=
  let all := insertSorted id leaf.entries entry
  attempt tree (planSplit (all.map layout.leafWidth)
    layout.usableBytes) fun cut =>
  match all[cut]? with
  | none => ⟨tree, .error (.indexingError "no such cut")⟩
  | some first =>
    let left := all.take cut
    let right := all.drop cut
    attempt tree tree.allocate fun allocated =>
    attempt allocated.2 (replaceAll layout
      layout.leafWidth allocated.1 right) fun _ =>
    attempt allocated.2 (replaceAll layout
      layout.leafWidth leaf.pageId left) fun _ =>
    insertIntoParentIn layout leaf.path
      ((allocated.2.write allocated.1
        (.leaf right leaf.next)).write leaf.pageId
          (.leaf left (some allocated.1)))
      leaf.pageId (first, allocated.1)

/- `insert`, from the descent on. -/
def insertAtIn
    (tree : BPlusTree σ)
    (entry : σ) : Outcome σ :=
  attempt tree (tree.descendFrom entry) fun leaf =>
  attempt tree (insertEntry layout id layout.leafWidth
    leaf.entries entry) fun
  | some grown =>
    ⟨tree.write leaf.pageId (.leaf grown leaf.next), .ok ()⟩
  | none => splitLeafIn layout tree leaf entry

variable {layout : Layout σ}

omit [LinearOrder σ] in
theorem growRoot_eq_outcome
    (tree : BPlusTree σ)
    (leftId : PageId)
    (separator : σ × PageId) :
    growRoot layout tree leftId separator =
      (growRootIn layout tree leftId separator).toExcept := by
  unfold growRoot growRootIn
  simp only [Outcome.toExcept_attempt]
  rfl

theorem insertIntoParent_eq_outcome
    (path : Path)
    (tree : BPlusTree σ)
    (leftId : PageId)
    (separator : σ × PageId) :
    insertIntoParent layout path tree leftId separator =
      (insertIntoParentIn layout path tree leftId
        separator).toExcept := by
  induction path generalizing tree leftId separator with
  | nil => exact growRoot_eq_outcome tree leftId separator
  | cons step rest ih =>
    rcases step with ⟨parentId, index⟩
    unfold insertIntoParent insertIntoParentIn
    cases hNode : tree.nodes parentId with
    | none => rfl
    | some node =>
      cases node with
      | leaf entries next => rfl
      | internal entries =>
        simp only
        rw [Outcome.toExcept_attempt]
        refine congrArg _ (funext fun result => ?_)
        cases result with
        | some grown => rfl
        | none =>
          simp only [Outcome.toExcept_attempt]
          refine congrArg _ (funext fun cut => ?_)
          cases (insertSorted Prod.fst entries
              separator)[cut]? with
          | none => rfl
          | some promoted =>
            simp only [Outcome.toExcept_attempt, ih]

/- Where it does not raise, the insert is the one it was. -/
theorem insertAt_eq_outcome
    (tree : BPlusTree σ)
    (entry : σ) :
    insertAt layout tree entry =
      (insertAtIn layout tree entry).toExcept := by
  unfold insertAt insertAtIn
  rw [Outcome.toExcept_attempt]
  refine congrArg _ (funext fun leaf => ?_)
  rw [Outcome.toExcept_attempt]
  refine congrArg _ (funext fun result => ?_)
  cases result with
  | some grown => rfl
  | none =>
    simp only [splitLeaf, splitLeafIn, Outcome.toExcept_attempt]
    refine congrArg _ (funext fun cut => ?_)
    cases (insertSorted id leaf.entries entry)[cut]? with
    | none => rfl
    | some first =>
      simp only [Outcome.toExcept_attempt,
        insertIntoParent_eq_outcome]

--
-- Pages
--

omit [LinearOrder σ] in
/- The pager has so many pages that are not in use. -/
structure Supplied
    (tree : BPlusTree σ)
    (count : Nat) : Prop where
  enough : count ≤ tree.supply.length
  distinct : tree.supply.Nodup
  fresh : ∀ pageId ∈ tree.supply, pageId ∉ tree.pages

variable {tree : BPlusTree σ} {count : Nat}

omit [LinearOrder σ] in
theorem Supplied.allocate
    (hSupplied : Supplied tree (count + 1)) :
    ∃ pageId grown,
      tree.allocate = .ok (pageId, grown) ∧
      pageId ∉ tree.pages ∧
      grown.pages = pageId :: tree.pages ∧
      grown.nodes = tree.nodes ∧
      Supplied grown count := by
  rcases hSupplied with ⟨hEnough, hDistinct, hFresh⟩
  cases hSupply : tree.supply with
  | nil =>
    rw [hSupply] at hEnough
    cases hEnough
  | cons pageId rest =>
    rw [hSupply] at hEnough hDistinct hFresh
    have hNew := hFresh pageId (.head _)
    refine ⟨pageId, { tree with
      pages := pageId :: tree.pages, supply := rest },
      ?_, hNew, rfl, rfl, ?_⟩
    · unfold BPlusTree.allocate
      simp only [hSupply, if_neg hNew]
    · refine ⟨Nat.le_of_succ_le_succ hEnough,
        (List.nodup_cons.mp hDistinct).2, ?_⟩
      intro other hMem hHeld
      rcases List.mem_cons.mp hHeld with rfl | hOld
      · exact (List.nodup_cons.mp hDistinct).1 hMem
      · exact hFresh other (.tail _ hMem)
          hOld

omit [LinearOrder σ] in
theorem Supplied.write
    (hSupplied : Supplied tree count)
    (pageId : PageId)
    (node : Node σ) :
    Supplied (tree.write pageId node) count :=
  ⟨hSupplied.enough, hSupplied.distinct, hSupplied.fresh⟩

variable {pageId : PageId}

omit [LinearOrder σ] in
theorem replaceAll_ok
    {width : α → Nat}
    {entries : List α}
    (hFits : (entries.map width).sum ≤ layout.usableBytes) :
    replaceAll layout width pageId entries = .ok () :=
  if_neg (Nat.not_lt.mpr hFits)

omit [LinearOrder σ] in
theorem replaceAll_error
    {width : α → Nat}
    {pageId : PageId}
    {entries : List α}
    (hFull : layout.usableBytes < (entries.map width).sum) :
    ∃ raised,
      replaceAll layout width pageId entries =
        .error raised :=
  ⟨_, if_pos hFull⟩

--
-- Separators
--

/- Payload and slot of a separator in an internal page. -/
def separatorWidth (layout : Layout σ) (separator : σ) :
    Nat :=
  layout.payload separator + childSize + Storage.slotSize

/- The separators of a full parent with one more among them. -/
def withSeparator
    (entries : List (σ × PageId))
    (separator : σ) : List σ :=
  insertSorted id (entries.map Prod.fst) separator

theorem map_insertSorted
    (entries : List (σ × PageId))
    (separator : σ × PageId) :
    (insertSorted Prod.fst entries separator).map Prod.fst =
      withSeparator entries separator.1 := by
  have hBound : lowerBound Prod.fst entries separator.1 =
      lowerBound id (entries.map Prod.fst) separator.1 := by
    unfold lowerBound
    rw [List.length_map]
    congr 1
    funext index
    rw [List.getElem?_map]
    cases entries[index]? <;> rfl
  unfold withSeparator insertSorted
  rw [hBound, List.map_insertIdx]
  rfl

theorem widths_insertSorted
    (layout : Layout σ)
    (entries : List (σ × PageId))
    (separator : σ × PageId) :
    (insertSorted Prod.fst entries separator).map
        layout.childWidth =
      (withSeparator entries separator.1).map
        (separatorWidth layout) := by
  rw [← map_insertSorted, List.map_map]
  rfl

/- What the right half of a split parent takes: the least key
   stands for the separator that moved up. -/
theorem right_width
    (layout : Layout σ)
    (entries : List (σ × PageId))
    (separator : σ × PageId)
    (cut : Nat)
    (childId : PageId) :
    (((layout.least, childId) ::
        (insertSorted Prod.fst entries separator).drop
          (cut + 1)).map layout.childWidth).sum =
      separatorWidth layout layout.least +
        (((withSeparator entries separator.1).drop
          (cut + 1)).map (separatorWidth layout)).sum := by
  rw [List.map_cons, List.sum_cons, List.map_drop,
    widths_insertSorted, ← List.map_drop]
  rfl

/-
  Whether a separator finds a place: in a new root beside the
  least key, or in its parent, or at a cut of its full parent
  whose own separator finds a place in turn.
-/
def Accepts
    (layout : Layout σ)
    (tree : BPlusTree σ) : Path → σ → Prop
  | [], separator =>
    separatorWidth layout layout.least +
      separatorWidth layout separator ≤ layout.usableBytes
  | (parentId, _) :: rest, separator =>
    ∃ entries,
      tree.nodes parentId = some (.internal entries) ∧
      separatorWidth layout separator ≤ layout.usableBytes ∧
      ((entries.map layout.childWidth).sum +
          separatorWidth layout separator ≤ layout.usableBytes ∨
        ∃ cut promoted,
          planSplit ((withSeparator entries separator).map
            (separatorWidth layout)) layout.usableBytes =
              .ok cut ∧
          (withSeparator entries separator)[cut]? =
            some promoted ∧
          separatorWidth layout layout.least +
            (((withSeparator entries separator).drop
              (cut + 1)).map
                (separatorWidth layout)).sum ≤
              layout.usableBytes ∧
          Accepts layout tree rest promoted)

/- The place in the tree is one the separators fit: the leaf has
   room, or cannot be cut at all, or its separator is
   accepted. -/
def Placeable
    (layout : Layout σ)
    (tree : BPlusTree σ)
    (entry : σ) : Prop :=
  ∀ leaf, tree.descendFrom entry = .ok leaf →
    (leaf.entries.map layout.leafWidth).sum +
        layout.leafWidth entry ≤ layout.usableBytes ∨
    ∀ cut first,
      planSplit ((insertSorted id leaf.entries entry).map
        layout.leafWidth) layout.usableBytes = .ok cut →
      (insertSorted id leaf.entries entry)[cut]? = some first →
      Accepts layout tree leaf.path first

theorem growRootIn_iff
    (hSupplied : Supplied tree 1)
    (leftId : PageId)
    (separator : σ × PageId) :
    (growRootIn layout tree leftId separator).result =
        .ok () ↔
      Accepts layout tree [] separator.1 := by
  rcases hSupplied.allocate with ⟨pageId, grown, hAllocate, _⟩
  have hSum : ([(layout.least, leftId), separator].map
      layout.childWidth).sum =
        separatorWidth layout layout.least +
          separatorWidth layout separator.1 := by
    simp [Layout.childWidth, separatorWidth]
  unfold growRootIn Accepts
  rw [hAllocate, Outcome.attempt_ok]
  by_cases hFits : separatorWidth layout layout.least +
      separatorWidth layout separator.1 ≤ layout.usableBytes
  · simp only
    rw [replaceAll_ok (hSum ▸ hFits), Outcome.attempt_ok]
    exact iff_of_true rfl hFits
  · rcases @replaceAll_error _ _ layout layout.childWidth
      pageId [(layout.least, leftId), separator]
      (by omega) with ⟨raised, hRaised⟩
    simp only
    rw [hRaised, Outcome.attempt_error]
    exact iff_of_false nofun hFits

section Entries

variable {width : α → Nat} {sortKey : α → σ} {entries : List α}
variable {entry : α}

theorem insertEntry_oversized
    (hWide : layout.usableBytes < width entry) :
    insertEntry layout sortKey width entries entry =
      .error (oversized layout
        (width entry - Storage.slotSize)) :=
  if_pos hWide

theorem insertEntry_full
    (hFits : width entry ≤ layout.usableBytes)
    (hFull : layout.usableBytes <
      (entries.map width).sum + width entry) :
    insertEntry layout sortKey width entries entry =
      .ok none := by
  unfold insertEntry
  rw [if_neg (Nat.not_lt.mpr hFits), if_pos hFull]

theorem insertEntry_room
    (hRoom : (entries.map width).sum + width entry ≤
      layout.usableBytes) :
    insertEntry layout sortKey width entries entry =
      .ok (some (insertSorted sortKey entries entry)) := by
  unfold insertEntry
  rw [if_neg (by omega), if_neg (Nat.not_lt.mpr hRoom)]

end Entries

variable {path : Path}

theorem insertIntoParentIn_iff
    {original : BPlusTree σ}
    (hSame : ∀ step ∈ path,
      tree.nodes step.1 = original.nodes step.1)
    (hHeld : ∀ step ∈ path, step.1 ∈ tree.pages)
    (hDistinct : (path.map Prod.fst).Nodup)
    (hSupplied : Supplied tree (path.length + 1))
    (leftId : PageId)
    (separator : σ × PageId) :
    (insertIntoParentIn layout path tree leftId
        separator).result = .ok () ↔
      Accepts layout original path separator.1 := by
  induction path generalizing tree leftId separator with
  | nil => exact growRootIn_iff hSupplied leftId separator
  | cons step rest ih =>
    rcases step with ⟨parentId, index⟩
    have hNode := hSame _ (.head _)
    unfold insertIntoParentIn Accepts
    rw [← hNode]
    simp only
    split
    · rename_i entries hInternal
      have hWidths :=
        widths_insertSorted layout entries separator
      have hHere : ∀ {P : List (σ × PageId) → Prop},
          (∃ others, tree.nodes parentId =
              some (.internal others) ∧ P others) ↔
            P entries := by
        intro P
        constructor
        · rintro ⟨others, hOthers, hHolds⟩
          rw [hInternal] at hOthers
          cases hOthers
          exact hHolds
        · exact fun hHolds => ⟨entries, hInternal, hHolds⟩
      rw [hHere]
      by_cases hWide : layout.usableBytes <
          layout.childWidth separator
      · rw [insertEntry_oversized hWide,
          Outcome.attempt_error]
        refine iff_of_false nofun ?_
        rintro ⟨hFits, _⟩
        exact absurd hFits (Nat.not_le.mpr hWide)
      have hFits : separatorWidth layout separator.1 ≤
          layout.usableBytes := Nat.not_lt.mp hWide
      by_cases hFull : layout.usableBytes <
          (entries.map layout.childWidth).sum +
            layout.childWidth separator
      · have hMore : ¬ (entries.map layout.childWidth).sum +
            separatorWidth layout separator.1 ≤
              layout.usableBytes := Nat.not_le.mpr hFull
        rw [insertEntry_full (Nat.not_lt.mp hWide) hFull,
          Outcome.attempt_ok, and_iff_right hFits,
          or_iff_right hMore]
        simp only
        rw [hWidths]
        cases hCut : planSplit
            ((withSeparator entries separator.1).map
              (separatorWidth layout))
            layout.usableBytes with
        | error raised =>
          refine iff_of_false nofun ?_
          rintro ⟨cut, promoted, hOk, _⟩
          cases hOk
        | ok cut =>
          have hLegal := planSplit_legal hCut
          have hLess : cut < (insertSorted Prod.fst
              entries separator).length := by
            have hBound := hLegal.right
            rwa [← hWidths, List.length_map] at hBound
          rcases hPromoted :
              (insertSorted Prod.fst entries
                separator)[cut] with ⟨promoted, childId⟩
          have hSome : (insertSorted Prod.fst entries
              separator)[cut]? =
                some (promoted, childId) := by
            rw [List.getElem?_eq_getElem hLess, hPromoted]
          have hKey : (withSeparator entries
              separator.1)[cut]? = some promoted := by
            rw [← map_insertSorted, List.getElem?_map, hSome]
            rfl
          have hRights := right_width layout entries
            separator cut childId
          have hLefts : (((insertSorted Prod.fst entries
              separator).take cut).map
                layout.childWidth).sum ≤
              layout.usableBytes := by
            rw [List.map_take, hWidths]
            exact hLegal.leftFits
          rcases hSupplied.allocate with ⟨siblingId,
            grown, hAllocate, hFresh, hPages, hNodes,
            hMore⟩
          have hCondition :
              ∀ {P : Nat → Prop} {Q : σ → Prop},
              (∃ found key,
                (Except.ok cut :
                  Except EngineError Nat) = .ok found ∧
                (withSeparator entries
                  separator.1)[found]? = some key ∧
                P found ∧ Q key) ↔
              P cut ∧ Q promoted := by
            intro P Q
            constructor
            · rintro ⟨found, key, hFound, hAt, hBoth⟩
              cases hFound
              rw [hKey] at hAt
              cases hAt
              exact hBoth
            · exact fun hBoth =>
                ⟨cut, promoted, rfl, hKey, hBoth⟩
          rw [Outcome.attempt_ok, hCondition]
          simp only [hSome]
          rw [hAllocate, Outcome.attempt_ok]
          by_cases hRight :
              separatorWidth layout layout.least +
                (((withSeparator entries
                  separator.1).drop (cut + 1)).map
                    (separatorWidth layout)).sum ≤
                layout.usableBytes
          · simp only
            rw [replaceAll_ok (hRights ▸ hRight),
              Outcome.attempt_ok, replaceAll_ok hLefts,
              Outcome.attempt_ok, and_iff_right hRight]
            have hApart : ∀ step ∈ rest,
                step.1 ≠ parentId := by
              intro step hMem hEqual
              have hAgain :=
                List.mem_map_of_mem (f := Prod.fst) hMem
              rw [hEqual] at hAgain
              exact (List.nodup_cons.mp hDistinct).1
                hAgain
            apply ih
            · intro step hMem
              have hOther : step.1 ≠ siblingId :=
                fun hEqual => hFresh (hEqual ▸ hHeld step
                  (.tail _ hMem))
              unfold BPlusTree.write
              simp only
              rw [Function.update_of_ne
                  (hApart step hMem),
                Function.update_of_ne hOther, hNodes]
              exact hSame step
                (.tail _ hMem)
            · intro step hMem
              exact hPages ▸ List.mem_cons_of_mem _
                (hHeld step (.tail _ hMem))
            · exact (List.nodup_cons.mp hDistinct).2
            · exact (hMore.write _ _).write _ _
          · rcases @replaceAll_error _ _ layout
              layout.childWidth siblingId
              ((layout.least, childId) ::
                (insertSorted Prod.fst entries
                  separator).drop (cut + 1))
              (by omega) with ⟨raised, hRaised⟩
            simp only
            rw [hRaised, Outcome.attempt_error]
            exact iff_of_false nofun
              fun hBoth => hRight hBoth.1
      · rw [insertEntry_room (Nat.not_lt.mp hFull),
          Outcome.attempt_ok]
        exact iff_of_true rfl
          ⟨hFits, .inl (Nat.not_lt.mp hFull)⟩
    · rename_i hOther
      refine iff_of_false nofun ?_
      rintro ⟨entries, hInternal, _⟩
      exact hOther entries hInternal

omit [LinearOrder σ] in
theorem growRootIn_frame
    (hHeld : pageId ∈ tree.pages)
    (leftId : PageId)
    (separator : σ × PageId) :
    (growRootIn layout tree leftId separator).tree.nodes
      pageId = tree.nodes pageId := by
  unfold growRootIn
  refine Outcome.attempt_keeps
    (P := fun after => after.nodes pageId = tree.nodes pageId)
    rfl fun allocated hAllocate => ?_
  rcases allocated with ⟨rootId, grown⟩
  rcases allocate_ok hAllocate with ⟨hFresh, _, hNodes, _⟩
  refine Outcome.attempt_keeps
    (P := fun after => after.nodes pageId = tree.nodes pageId)
    (congrFun hNodes pageId) fun _ _ => ?_
  have hOther : pageId ≠ rootId :=
    fun hEqual => hFresh (hEqual ▸ hHeld)
  exact (Function.update_of_ne hOther _ _).trans
    (congrFun hNodes pageId)

/- A page in use that is not on the path keeps its node. -/
theorem insertIntoParentIn_frame
    (hHeld : pageId ∈ tree.pages)
    (hAside : pageId ∉ path.map Prod.fst)
    (leftId : PageId)
    (separator : σ × PageId) :
    (insertIntoParentIn layout path tree leftId
      separator).tree.nodes pageId = tree.nodes pageId := by
  induction path generalizing tree leftId separator with
  | nil => exact growRootIn_frame hHeld leftId separator
  | cons step rest ih =>
    rcases step with ⟨parentId, index⟩
    rw [List.map_cons, List.mem_cons, not_or] at hAside
    unfold insertIntoParentIn
    split
    · refine Outcome.attempt_keeps (P := fun after =>
        after.nodes pageId = tree.nodes pageId)
        rfl fun result _ => ?_
      cases result with
      | some grown =>
        exact Function.update_of_ne hAside.1 _ _
      | none =>
        refine Outcome.attempt_keeps (P := fun after =>
          after.nodes pageId = tree.nodes pageId)
          rfl fun cut _ => ?_
        split
        · rfl
        · refine Outcome.attempt_keeps (P := fun after =>
            after.nodes pageId = tree.nodes pageId)
            rfl fun allocated hAllocate => ?_
          rcases allocated with ⟨siblingId, grown⟩
          rcases allocate_ok hAllocate with
            ⟨hFresh, hPages, hNodes, _⟩
          have hOld := congrFun hNodes pageId
          refine Outcome.attempt_keeps (P := fun after =>
            after.nodes pageId = tree.nodes pageId)
            hOld fun _ _ => ?_
          refine Outcome.attempt_keeps (P := fun after =>
            after.nodes pageId = tree.nodes pageId)
            hOld fun _ _ => ?_
          have hOther : pageId ≠ siblingId :=
            fun hEqual => hFresh (hEqual ▸ hHeld)
          have hWritten : ∀ right left : Node σ,
              ((grown.write siblingId right).write
                parentId left).nodes pageId =
                  grown.nodes pageId := fun _ _ =>
            (Function.update_of_ne hAside.1 _ _).trans
              (Function.update_of_ne hOther _ _)
          refine (ih ?_ hAside.2 _ _).trans
            ((hWritten _ _).trans hOld)
          exact hPages ▸ .tail _ hHeld
    · rfl

--
-- Leaves That Were Cut
--

variable {target : σ}

/- The path is of pages in use, each higher than the one
   before it. -/
theorem path_placed
    {heights : PageId → Nat}
    {least : σ}
    {height : Nat}
    {items : Items σ}
    (hDescended : Descended tree heights least target height
      items path) :
    (∀ step ∈ path, step.1 ∈ tree.pages ∧
      height < heights step.1) ∧
    (path.map Prod.fst).Nodup := by
  induction hDescended with
  | root _ => exact ⟨by simp, List.nodup_nil⟩
  | down hAbove _ _ hLocated ih =>
    rename_i height parents items path before item after
      index _ _
    have hPlaced := hAbove.level.placed item
      (by rw [hLocated.1]; simp)
    constructor
    · intro step hMem
      rcases List.mem_cons.mp hMem with rfl | hRest
      · exact ⟨hPlaced.1, by
          rw [hPlaced.2]
          exact Nat.lt_succ_self _⟩
      · have hHigher := ih.1 step hRest
        exact ⟨hHigher.1, Nat.lt_of_succ_lt hHigher.2⟩
    · rw [List.map_cons, List.nodup_cons]
      refine ⟨?_, ih.2⟩
      intro hIn
      rcases List.mem_map.mp hIn with ⟨step, hStep, hEqual⟩
      have hHigher := (ih.1 step hStep).2
      rw [hEqual, hPlaced.2] at hHigher
      exact Nat.lt_irrefl _ hHigher

theorem descend_length
    {fuel : Nat}
    {landing : Landing σ}
    (hLanding : tree.descend target fuel pageId path =
      .ok landing) :
    landing.path.length ≤ path.length + fuel := by
  induction fuel generalizing pageId path with
  | zero =>
    unfold BPlusTree.descend at hLanding
    split at hLanding
    · cases hLanding
    · cases hLanding
      exact Nat.le_refl _
    · cases hLanding
    · rename_i hFuel
      cases hFuel
  | succ fuel ih =>
    unfold BPlusTree.descend at hLanding
    split at hLanding
    · cases hLanding
    · cases hLanding
      exact Nat.le_add_right _ _
    · rename_i hFuel
      cases hFuel
    · rename_i hFuel
      cases hFuel
      rcases Library.StateExcept.ok_of_bind hLanding with
        ⟨index, _, hRest⟩
      split at hRest
      · cases hRest
      · have hLength := ih hRest
        rw [List.length_cons] at hLength
        omega

omit [LinearOrder σ] in
theorem Supplied.mono
    {fewer : Nat}
    (hSupplied : Supplied tree count)
    (hFewer : fewer ≤ count) : Supplied tree fewer :=
  ⟨le_trans hFewer hSupplied.enough, hSupplied.distinct,
    hSupplied.fresh⟩

omit [LinearOrder σ] in
/- The root and every page in use are as they were. -/
structure Unchanged
    (tree after : BPlusTree σ) : Prop where
  root : after.root = tree.root
  stored : ∀ pageId ∈ tree.pages,
    after.nodes pageId = tree.nodes pageId

omit [LinearOrder σ] in
/- The call succeeds, or leaves the tree as it was. -/
def AllOrNothing
    (tree : BPlusTree σ)
    (outcome : Outcome σ) : Prop :=
  outcome.result = .ok () ∨ Unchanged tree outcome.tree

section Landed

variable {tree : BPlusTree σ} {heights : PageId → Nat}
variable {entry lo : σ} {before after : Items σ}
variable {landing : Landing σ}

section SplitLeaf

variable
    (hDescended : Descended tree heights layout.least entry
      0 (before ++ (lo, landing.pageId) :: after)
        landing.path)
    (hNode : tree.nodes landing.pageId =
      some (.leaf landing.entries landing.next))
    (hNext : landing.next = after.head?.map Prod.snd)
    (hShort : landing.path.length ≤ maxDepth)

include hDescended hNode hNext hShort

/- A leaf that is cut is written, whatever becomes of its
   separator. -/
theorem splitLeafIn_cut
    (hSupplied : Supplied tree (maxDepth + 2))
    {cut : Nat}
    {first : σ}
    (hCut : planSplit ((insertSorted id landing.entries
      entry).map layout.leafWidth) layout.usableBytes = .ok cut)
    (hFirst : (insertSorted id landing.entries entry)[cut]? =
      some first) :
    ((splitLeafIn layout tree landing entry).result =
        .ok () ↔
      Accepts layout tree landing.path first) ∧
    ¬ Unchanged tree
      (splitLeafIn layout tree landing entry).tree := by
  have hLevel := hDescended.level
  have hLanded := hLevel.apart
  have hPath := path_placed hDescended
  unfold splitLeafIn
  simp only
  generalize insertSorted id landing.entries entry = all
    at hCut hFirst ⊢
  have hLegal := planSplit_legal hCut
  have hLefts : ((all.take cut).map
      layout.leafWidth).sum ≤ layout.usableBytes := by
    rw [List.map_take]
    exact hLegal.leftFits
  have hRights : ((all.drop cut).map
      layout.leafWidth).sum ≤ layout.usableBytes := by
    rw [List.map_drop]
    exact hLegal.rightFits
  rcases hSupplied.allocate with ⟨siblingId, grown,
    hAllocate, hFresh, hPages, hNodes, hMore⟩
  rw [hCut, Outcome.attempt_ok]
  simp only [hFirst]
  rw [hAllocate, Outcome.attempt_ok]
  simp only
  rw [replaceAll_ok hRights, Outcome.attempt_ok,
    replaceAll_ok hLefts, Outcome.attempt_ok]
  generalize hWritten :
    (grown.write siblingId (.leaf (all.drop cut)
      landing.next)).write landing.pageId (.leaf
        (all.take cut) (some siblingId)) = written
  have hHeld : ∀ pageId ∈ tree.pages,
      pageId ∈ written.pages := by
    intro pageId hMem
    rw [← hWritten]
    exact hPages ▸ .tail _ hMem
  have hAside : landing.pageId ∉
      landing.path.map Prod.fst := by
    intro hIn
    rcases List.mem_map.mp hIn with ⟨step, hStep, hEqual⟩
    have hHigher := (hPath.1 step hStep).2
    rw [hEqual, hLanded.2.1] at hHigher
    exact Nat.lt_irrefl 0 hHigher
  have hSame : ∀ step ∈ landing.path,
      written.nodes step.1 = tree.nodes step.1 := by
    intro step hStep
    have hNot : step.1 ≠ landing.pageId := fun hEqual =>
      hAside (hEqual ▸ List.mem_map_of_mem
        (f := Prod.fst) hStep)
    have hOther : step.1 ≠ siblingId := fun hEqual =>
      hFresh (hEqual ▸ (hPath.1 step hStep).1)
    rw [← hWritten, ← hNodes]
    exact (Function.update_of_ne hNot _ _).trans
      (Function.update_of_ne hOther _ _)
  constructor
  · apply insertIntoParentIn_iff hSame
    · exact fun step hStep =>
        hHeld _ (hPath.1 step hStep).1
    · exact hPath.2
    · rw [← hWritten]
      exact ((hMore.mono (by omega)).write _ _).write _ _
  · intro hUnchanged
    have hLeaf := hUnchanged.stored _ hLanded.1
    rw [insertIntoParentIn_frame (hHeld _ hLanded.1)
      hAside, hNode, ← hWritten] at hLeaf
    unfold BPlusTree.write at hLeaf
    simp only at hLeaf
    rw [Function.update_self, Option.some.injEq,
      Node.leaf.injEq, hNext] at hLeaf
    -- the chain now goes through a page that is new
    rcases Option.map_eq_some_iff.mp hLeaf.2.symm with
      ⟨other, hOther, hEqual⟩
    apply hFresh
    rw [← hEqual]
    exact (hLevel.placed other (by
      simp [List.mem_of_head? hOther])).1

theorem splitLeafIn_iff
    (hSupplied : Supplied tree (maxDepth + 2)) :
    AllOrNothing tree (splitLeafIn layout tree landing
        entry) ↔
      ∀ cut first,
        planSplit ((insertSorted id landing.entries
          entry).map layout.leafWidth) layout.usableBytes =
            .ok cut →
        (insertSorted id landing.entries entry)[cut]? =
          some first →
        Accepts layout tree landing.path first := by
  cases hCut : planSplit ((insertSorted id landing.entries
      entry).map layout.leafWidth) layout.usableBytes with
  | error raised =>
    unfold splitLeafIn
    simp only
    rw [hCut]
    exact iff_of_true
      (.inr ⟨rfl, fun _ _ => rfl⟩) nofun
  | ok cut =>
    have hLess := (planSplit_legal hCut).right
    rw [List.length_map] at hLess
    have hFirst := List.getElem?_eq_getElem hLess
    have hBoth := splitLeafIn_cut hDescended hNode hNext
      hShort hSupplied hCut hFirst
    constructor
    · intro hEither found first hFound hAt
      cases hFound
      rw [hFirst, Option.some.injEq] at hAt
      exact hAt ▸
        hBoth.1.mp (hEither.resolve_right hBoth.2)
    · exact fun hAll =>
        .inl (hBoth.1.mpr (hAll cut _ rfl hFirst))

end SplitLeaf

end Landed

/- An insert of an entry that fits a leaf succeeds or changes
   nothing, exactly where its separators find a place. -/
theorem insertAtIn_iff
    {contents : List σ}
    {entry : σ}
    (hWell : WellFormed layout tree contents)
    (hEntry : layout.least ≤ entry)
    (hFits : layout.leafWidth entry ≤ layout.usableBytes)
    (hSupplied : Supplied tree (maxDepth + 2)) :
    AllOrNothing tree (insertAtIn layout tree entry) ↔
      Placeable layout tree entry := by
  rcases hWell with ⟨heights, items, hRooted, hLeaves⟩
  rcases descendFrom_spec hRooted hLeaves with
    ⟨top, _, hDescend, _⟩
  unfold insertAtIn Placeable
  cases hLanding : tree.descendFrom entry with
  | error raised =>
    exact iff_of_true (.inr ⟨rfl, fun _ _ => rfl⟩) nofun
  | ok landing =>
    have hShallow : top ≤ maxDepth := by
      by_contra hDeep
      have hError := (hDescend entry hEntry).1 (by omega)
      rw [hLanding] at hError
      cases hError
    rcases (hDescend entry hEntry).2 hShallow with
      ⟨found, before, lo, after, hFound, hDescended,
        hLocated, hNode⟩
    rw [hLanding, Except.ok.injEq] at hFound
    subst hFound
    rcases hLocated with ⟨rfl, _, _⟩
    rcases hLeaves.context with ⟨_, entries, _, _, hHere, _⟩
    rw [hNode, Option.some.injEq, Node.leaf.injEq] at hHere
    have hShort := descend_length hLanding
    rw [List.length_nil, Nat.zero_add] at hShort
    have hOnly : ∀ {P : Landing σ → Prop},
        (∀ leaf, (Except.ok landing :
          Except EngineError (Landing σ)) = .ok leaf →
            P leaf) ↔ P landing := by
      intro P
      constructor
      · exact fun hAll => hAll landing rfl
      · intro hHolds leaf hSame
        cases hSame
        exact hHolds
    rw [hOnly, Outcome.attempt_ok]
    by_cases hRoom : (landing.entries.map
        layout.leafWidth).sum + layout.leafWidth entry ≤
          layout.usableBytes
    · rw [insertEntry_room hRoom, Outcome.attempt_ok]
      exact iff_of_true (.inl rfl) (.inl hRoom)
    · rw [insertEntry_full hFits (Nat.not_le.mp hRoom),
        Outcome.attempt_ok, or_iff_right hRoom]
      exact splitLeafIn_iff hDescended hNode hHere.2
        hShort hSupplied

end Outcomes

--
-- Refused Inserts
--

/- `insert`, with the tree it leaves. -/
def insertIn
    (options : TreeOptions)
    (tree : BPlusTree SortKey)
    (key : Key)
    (recordId : RecordId) : Outcome SortKey :=
  attempt tree (rivals options tree key) fun held =>
    if held ≠ [] then
      ⟨tree, .error (.uniqueViolation
        (s!"index '{options.name}' is unique and already " ++
          s!"contains {options.describe key}"))⟩
    else
      attempt tree (sortKeyOf key recordId) fun entry =>
        insertAtIn (keyLayout options.pageSize) tree entry

/- The insert is refused before it descends, or its place is
   one the separators fit. -/
def Settles
    (options : TreeOptions)
    (tree : BPlusTree SortKey)
    (key : Key)
    (recordId : RecordId) : Prop :=
  rivals options tree key = .ok [] →
    ∀ entry, sortKeyOf key recordId = .ok entry →
      Placeable (keyLayout options.pageSize) tree entry

/- A refused insert changes nothing exactly where no leaf is
   cut for a separator that finds no place. -/
theorem insert_allOrNothing
    {φ : Type}
    [SortableDouble φ]
    {options : TreeOptions}
    {tree : BPlusTree SortKey}
    {contents : List SortKey}
    (hWell : WellFormed (keyLayout options.pageSize) tree
      contents)
    {key : Key}
    (hKey : Encoded φ key)
    (recordId : RecordId)
    (hFits : (keyLayout options.pageSize).leafWidth
      ⟨key, some recordId⟩ ≤
        (keyLayout options.pageSize).usableBytes)
    (hSupplied : Supplied tree (maxDepth + 2)) :
    AllOrNothing tree (insertIn options tree key recordId) ↔
      Settles options tree key recordId := by
  have hUnchanged : ∀ raised,
      AllOrNothing tree
        (⟨tree, .error raised⟩ : Outcome SortKey) :=
    fun _ => .inr ⟨rfl, fun _ _ => rfl⟩
  unfold insertIn Settles
  cases hRivals : rivals options tree key with
  | error raised =>
    exact iff_of_true (hUnchanged raised) nofun
  | ok held =>
    rw [Outcome.attempt_ok]
    by_cases hHeld : held ≠ []
    · rw [if_pos hHeld]
      refine iff_of_true (hUnchanged _) ?_
      intro hNone
      exact absurd (Except.ok.inj hNone) hHeld
    · have hNone : held = [] := not_not.mp hHeld
      subst hNone
      rw [if_neg hHeld]
      cases hEntry : sortKeyOf key recordId with
      | error raised =>
        exact iff_of_true (hUnchanged raised)
          fun _ => nofun
      | ok entry =>
        have hSame := sortKeyOf_ok hEntry
        subst hSame
        rw [Outcome.attempt_ok,
          insertAtIn_iff hWell
            (least_le options.pageSize hKey _) hFits
            hSupplied]
        constructor
        · intro hPlace _ entry hEqual
          cases hEqual
          exact hPlace
        · exact fun hAll => hAll rfl _ rfl

/- Texts of which a page of 256 bytes holds one, and which do
   not go into a page beside the least key. -/
def wideText (index : Nat) : Value Empty :=
  .text (String.ofList
    (List.replicate 210 (Char.ofNat (97 + index))))

def wideKey (index : Nat) : Key :=
  2 :: List.replicate 210 (UInt8.ofNat (97 + index))

/- A root leaf that holds one of them, and pages enough. -/
def oneWide : BPlusTree SortKey :=
  { (BPlusTree.create 1 : BPlusTree SortKey) with
    nodes := fun pageId =>
      if pageId = 1 then
        some (.leaf [⟨wideKey 0, some ⟨1, 0⟩⟩] none)
      else none
    supply := List.range' 2 (maxDepth + 2) }

theorem wideKey_encodes :
    ∀ index < 2, encodeKey (wideText index) .text =
      .ok (wideKey index) := by
  decide +kernel

theorem oneWide_wellFormed :
    WellFormed (keyLayout smallPages.pageSize) oneWide
      [⟨wideKey 0, some ⟨1, 0⟩⟩] := by
  refine ⟨fun _ => 0,
    [((keyLayout smallPages.pageSize).least, 1)], ?_, ?_⟩
  · apply Rooted.root
    exact
      { distinct := by simp
        ordered := by simp
        above := by simp
        placed := by simp [oneWide, BPlusTree.create] }
  · have hLeaf : Leaves oneWide.nodes
        [((keyLayout smallPages.pageSize).least, 1)]
        ([⟨wideKey 0, some ⟨1, 0⟩⟩] ++ []) := by
      apply Leaves.cons
      · simp [oneWide]
      · exact List.pairwise_singleton _ _
      · intro entry hMem
        rw [List.mem_singleton.mp hMem]
        exact least_le (φ := Empty) _
          ⟨wideText 0, .text, wideKey_encodes 0 (by omega)⟩ _
      · simp
      · exact .nil
    exact hLeaf

theorem oneWide_supplied :
    Supplied oneWide (maxDepth + 2) where
  enough := by decide
  distinct := List.nodup_range' 1
  fresh := by decide

/- The second such key is refused, and is in the tree. -/
theorem wideInsert_refused :
    WellFormed (keyLayout smallPages.pageSize) oneWide
      [⟨wideKey 0, some ⟨1, 0⟩⟩] ∧
    Encoded Empty (wideKey 1) ∧
    (keyLayout smallPages.pageSize).leafWidth
        ⟨wideKey 1, some ⟨1, 1⟩⟩ ≤
      (keyLayout smallPages.pageSize).usableBytes ∧
    Supplied oneWide (maxDepth + 2) ∧
    (insertIn smallPages oneWide (wideKey 1)
        ⟨1, 1⟩).result =
      .error (.indexingError
        ("page 3: 2 entries do not fit after a split " ++
          "(failed at 1)")) ∧
    ¬ Unchanged oneWide
      (insertIn smallPages oneWide (wideKey 1)
        ⟨1, 1⟩).tree ∧
    (insertIn smallPages oneWide (wideKey 1)
        ⟨1, 1⟩).tree.search (wideKey 1) = .ok [⟨1, 1⟩] := by
  refine ⟨oneWide_wellFormed, ⟨wideText 1, .text,
    wideKey_encodes 1 (by omega)⟩, by decide +kernel,
    oneWide_supplied, by decide +kernel, ?_,
    by decide +kernel⟩
  intro hUnchanged
  have hRoot := hUnchanged.stored 1 (by decide)
  revert hRoot
  decide +kernel

theorem insert_allOrNothing_wide :
    AllOrNothing oneWide
        (insertIn smallPages oneWide (wideKey 1) ⟨1, 1⟩) ↔
      Settles smallPages oneWide (wideKey 1) ⟨1, 1⟩ :=
  insert_allOrNothing (φ := Empty) oneWide_wellFormed
    ⟨wideText 1, .text, wideKey_encodes 1 (by omega)⟩ ⟨1, 1⟩
    (by decide +kernel) oneWide_supplied

end BPlusTree

end Indexing

end ChenDB
