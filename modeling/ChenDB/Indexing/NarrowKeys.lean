import ChenDB.Indexing.RefusedInserts

/-
  Trees with narrow keys, of which eight fit a page. A full
  node then has a cut in its middle, every separator finds a
  place, and a tree that only grew is too wide to be deep.
-/

--
-- Cuts in the Middle
--

namespace ChenDB

namespace Indexing

open Library.StateExcept (ok_of_bind)

variable {widths : List Nat} {capacity : Nat}

/- So many narrow entries take up no more than their share. -/
theorem sum_narrow
    (hNarrow : ∀ width ∈ widths, 8 * width ≤ capacity) :
    8 * widths.sum ≤ widths.length * capacity := by
  induction widths with
  | nil => simp
  | cons width rest ih =>
    have hFirst := hNarrow width (.head _)
    have hRest := ih fun other hOther =>
      hNarrow other (.tail _ hOther)
    rw [List.sum_cons, List.length_cons,
      Nat.add_one_mul rest.length capacity]
    omega

/- The loop stops at the first cut whose left half is no
   lighter than the right one. -/
theorem balancePoint_spec
    {total running index : Nat}
    (hBefore : running * 2 < total)
    (hReached : total ≤ (running + widths.sum) * 2) :
    ∃ cut,
      balancePoint total running index widths =
        some (index + cut) ∧
      0 < cut ∧ cut ≤ widths.length ∧
      total ≤ (running + (widths.take cut).sum) * 2 ∧
      (running + (widths.take (cut - 1)).sum) * 2 <
        total := by
  induction widths generalizing running index with
  | nil =>
    simp only [List.sum_nil] at hReached
    omega
  | cons width rest ih =>
    rw [List.sum_cons] at hReached
    unfold balancePoint
    by_cases hHere : (running + width) * 2 ≥ total
    · rw [if_pos hHere]
      exact ⟨1, rfl, Nat.one_pos, by simp,
        by simpa using hHere, by simpa using hBefore⟩
    · rw [if_neg hHere]
      rcases @ih (running + width) (index + 1) (by omega)
        (by omega) with ⟨cut, hCut, hPos, hLe, hLeft, hRight⟩
      obtain ⟨less, rfl⟩ : ∃ less, cut = less + 1 :=
        ⟨cut - 1, by omega⟩
      rw [Nat.add_sub_cancel] at hRight
      refine ⟨less + 2, ?_, by omega, ?_, ?_, ?_⟩
      · rw [hCut]
        exact congrArg some (by omega)
      · rw [List.length_cons]
        omega
      · rw [List.take_succ_cons, List.sum_cons]
        omega
      · rw [show less + 2 - 1 = less + 1 from rfl,
          List.take_succ_cons, List.sum_cons]
        omega

/-
  An overfull node of narrow entries is cut where its halves
  are even: neither gets fewer than two entries, and the
  right one is the lighter.
-/
theorem planSplit_middle
    (hNarrow : ∀ width ∈ widths, 8 * width ≤ capacity)
    (hFull : capacity < widths.sum)
    (hSum : 8 * widths.sum ≤ 9 * capacity) :
    ∃ cut, planSplit widths capacity = .ok cut ∧
      2 ≤ cut ∧ cut + 2 ≤ widths.length ∧
      (widths.drop cut).sum * 2 ≤ widths.sum := by
  rcases @balancePoint_spec widths widths.sum 0 0 (by omega)
    (by omega) with ⟨cut, hCut, hPos, hLe, hLeft, hRight⟩
  simp only [Nat.zero_add] at hCut hLeft hRight
  have hParts : (widths.take cut).sum +
      (widths.drop cut).sum = widths.sum := by
    rw [← List.sum_append, List.take_append_drop]
  -- one entry more than the left half that was too light
  have hStep : 8 * (widths.take cut).sum ≤
      8 * (widths.take (cut - 1)).sum + capacity := by
    obtain ⟨less, rfl⟩ : ∃ less, cut = less + 1 :=
      ⟨cut - 1, by omega⟩
    have hLast := hNarrow widths[less] (List.getElem_mem _)
    rw [Nat.add_sub_cancel,
      List.take_succ_eq_append_getElem (by omega),
      List.sum_append, List.sum_singleton]
    omega
  have hTake := @sum_narrow (widths.take cut) capacity
    fun width hWidth =>
      hNarrow width (List.mem_of_mem_take hWidth)
  have hDrop := @sum_narrow (widths.drop cut) capacity
    fun width hWidth =>
      hNarrow width (List.mem_of_mem_drop hWidth)
  have hTwo : 2 ≤ cut := by
    by_contra hFew
    have hOne : cut = 1 := by omega
    rw [List.length_take, hOne, Nat.min_eq_left (by omega),
      Nat.one_mul] at hTake
    rw [hOne] at hLeft
    omega
  have hTwoMore : cut + 2 ≤ widths.length := by
    by_contra hFew
    have hOne : widths.length - cut ≤ 1 := by omega
    have hLess := Nat.mul_le_mul_right capacity hOne
    rw [List.length_drop] at hDrop
    omega
  have hMost : cut ≤ fitting capacity 0 widths :=
    (le_fitting (Nat.zero_le _) hLe).mpr (by omega)
  have hLeast : widths.length -
      fitting capacity 0 widths.reverse ≤ cut :=
    (le_fitting_reverse hLe).mpr (by omega)
  refine ⟨cut, ?_, hTwo, hTwoMore, by omega⟩
  unfold planSplit
  simp only
  rw [if_neg (by omega), if_neg (by omega), hCut]
  exact congrArg Except.ok
    (by simp only [Option.getD_some]; omega)

--
-- Nodes with Room
--

namespace BPlusTree

variable {σ α : Type} {layout : Layout σ}

/- Eight separators with this key fit a page. -/
def Narrow (layout : Layout σ) (sortKey : σ) : Prop :=
  8 * separatorWidth layout sortKey ≤ layout.usableBytes

/- A node of narrow entries that is no fuller than its page;
   a leaf has an entry, and another node two children. -/
def Roomy (layout : Layout σ) : Node σ → Prop
  | .leaf entries _ =>
    (∀ entry ∈ entries, Narrow layout entry) ∧
      (entries.map layout.leafWidth).sum ≤ layout.usableBytes ∧
      1 ≤ entries.length
  | .internal entries =>
    (∀ entry ∈ entries, Narrow layout entry.1) ∧
      (entries.map layout.childWidth).sum ≤ layout.usableBytes ∧
      2 ≤ entries.length

def Bushy (layout : Layout σ) (tree : BPlusTree σ) : Prop :=
  ∀ pageId node, tree.nodes pageId = some node →
    Roomy layout node

theorem Narrow.leaf
    {entry : σ}
    (hNarrow : Narrow layout entry) :
    8 * layout.leafWidth entry ≤ layout.usableBytes := by
  unfold Narrow separatorWidth at hNarrow
  unfold Layout.leafWidth
  omega

variable {tree after : BPlusTree σ}

theorem Bushy.write
    (hBushy : Bushy layout tree)
    (pageId : PageId)
    {node : Node σ}
    (hRoomy : Roomy layout node) :
    Bushy layout (tree.write pageId node) := by
  intro other held hHeld
  unfold BPlusTree.write at hHeld
  simp only at hHeld
  by_cases hSame : other = pageId
  · rw [hSame, Function.update_self] at hHeld
    exact Option.some.inj hHeld ▸ hRoomy
  · rw [Function.update_of_ne hSame] at hHeld
    exact hBushy other held hHeld

theorem replaceAll_fits
    {width : α → Nat}
    {pageId : PageId}
    {entries : List α}
    (hOk : replaceAll layout width pageId entries = .ok ()) :
    (entries.map width).sum ≤ layout.usableBytes := by
  unfold replaceAll at hOk
  split at hOk
  · cases hOk
  · rename_i hFits
    exact Nat.not_lt.mp hFits

section Ordered

variable [LinearOrder σ]

theorem bisect_le
    (before : Nat → Bool)
    {fuel low high : Nat}
    (hLow : low ≤ high) :
    bisect before fuel low high ≤ high := by
  induction fuel generalizing low high with
  | zero => exact hLow
  | succ fuel ih =>
    unfold bisect
    split
    · simp only
      split
      · exact ih (by omega)
      · exact (ih (by omega)).trans (by omega)
    · exact hLow

/- An insert adds the entry and nothing else. -/
theorem insertSorted_perm
    (sortKey : α → σ)
    (entries : List α)
    (entry : α) :
    (insertSorted sortKey entries entry).Perm
      (entry :: entries) :=
  List.perm_insertIdx _ _ (bisect_le _ (Nat.zero_le _))

/- What a node holds once an entry was offered to it: either
   it has room, or it has a cut in its middle. -/
theorem cut_of_full
    (sortKey : α → σ)
    {width : α → Nat}
    {entries : List α}
    {entry : α}
    (hEntries : ∀ other ∈ entry :: entries,
      8 * width other ≤ layout.usableBytes)
    (hFits : (entries.map width).sum ≤ layout.usableBytes)
    (hFull : layout.usableBytes <
      (entries.map width).sum + width entry) :
    ∃ cut,
      planSplit ((insertSorted sortKey entries entry).map
        width) layout.usableBytes = .ok cut ∧
      2 ≤ cut ∧ cut + 2 ≤ entries.length + 1 ∧
      (((insertSorted sortKey entries entry).map width).drop
        cut).sum * 2 ≤
          (entries.map width).sum + width entry := by
  have hPerm := insertSorted_perm sortKey entries entry
  have hSum : ((insertSorted sortKey entries entry).map
      width).sum = (entries.map width).sum + width entry := by
    rw [(hPerm.map width).sum_nat, List.map_cons,
      List.sum_cons, Nat.add_comm]
  have hEntry := hEntries entry (.head _)
  have hCut := @planSplit_middle
    ((insertSorted sortKey entries entry).map width)
    layout.usableBytes (by
      intro other hOther
      rcases List.mem_map.mp hOther with ⟨held, hHeld, rfl⟩
      exact hEntries held (hPerm.mem_iff.mp hHeld))
    (by omega) (by omega)
  rw [hSum, List.length_map, hPerm.length_eq,
    List.length_cons] at hCut
  exact hCut

--
-- Inserts
--

variable {leftId : PageId} {separator : σ × PageId}

omit [LinearOrder σ] in
theorem growRoot_bushy
    (hLeast : Narrow layout layout.least)
    (hBushy : Bushy layout tree)
    (hSeparator : Narrow layout separator.1)
    (hGrow : growRoot layout tree leftId separator =
      .ok after) :
    Bushy layout after := by
  unfold growRoot at hGrow
  rcases ok_of_bind hGrow with
    ⟨⟨pageId, grown⟩, hAllocate, hRest⟩
  rcases ok_of_bind hRest with ⟨⟨⟩, hFits, hDone⟩
  cases hDone
  have hNodes := (allocate_ok hAllocate).2.2.1
  have hGrown : Bushy layout grown := by
    intro other node hNode
    exact hBushy other node (hNodes ▸ hNode)
  refine hGrown.write pageId ⟨?_, replaceAll_fits hFits,
    le_refl 2⟩
  intro entry hEntry
  rcases List.mem_cons.mp hEntry with rfl | hEntry
  · exact hLeast
  · rcases List.mem_singleton.mp hEntry with rfl
    exact hSeparator

/- A separator that is placed leaves every node roomy. -/
theorem insertIntoParent_bushy
    {path : Path}
    (hLeast : Narrow layout layout.least)
    (hBushy : Bushy layout tree)
    (hSeparator : Narrow layout separator.1)
    (hInsert : insertIntoParent layout path tree leftId
      separator = .ok after) :
    Bushy layout after := by
  induction path generalizing tree leftId separator with
  | nil =>
    exact growRoot_bushy hLeast hBushy hSeparator hInsert
  | cons step rest ih =>
    rcases step with ⟨parentId, index⟩
    unfold insertIntoParent at hInsert
    split at hInsert
    · rename_i entries hNode
      rcases hBushy parentId _ hNode with
        ⟨hEntries, hFits, hTwo⟩
      rcases ok_of_bind hInsert with ⟨placed, hPlaced, hRest⟩
      have hPerm := insertSorted_perm Prod.fst entries separator
      have hAll : ∀ entry ∈
          insertSorted Prod.fst entries separator,
          Narrow layout entry.1 := by
        intro entry hEntry
        rcases List.mem_cons.mp (hPerm.mem_iff.mp hEntry) with
          rfl | hOld
        · exact hSeparator
        · exact hEntries entry hOld
      by_cases hRoom : (entries.map layout.childWidth).sum +
          layout.childWidth separator ≤ layout.usableBytes
      · rw [insertEntry_room hRoom] at hPlaced
        cases hPlaced
        cases hRest
        refine hBushy.write parentId ⟨hAll, ?_, ?_⟩
        · rw [(hPerm.map _).sum_nat, List.map_cons,
            List.sum_cons]
          omega
        · rw [hPerm.length_eq, List.length_cons]
          omega
      · have hOne : 8 * layout.childWidth separator ≤
            layout.usableBytes := hSeparator
        rw [insertEntry_full (by omega) (by omega)] at hPlaced
        cases hPlaced
        rcases @cut_of_full _ _ layout _ Prod.fst
          layout.childWidth entries separator (by
            intro other hOther
            rcases List.mem_cons.mp hOther with rfl | hOld
            · exact hSeparator
            · exact hEntries other hOld) hFits (by omega)
          with ⟨cut, hCut, hLow, hHigh, _⟩
        rcases ok_of_bind hRest with ⟨found, hFound, hRest⟩
        rw [hCut] at hFound
        cases hFound
        split at hRest
        · cases hRest
        · rename_i promoted hAt
          rcases ok_of_bind hRest with
            ⟨⟨siblingId, grown⟩, hAllocate, hRest⟩
          rcases ok_of_bind hRest with ⟨⟨⟩, hRight, hRest⟩
          rcases ok_of_bind hRest with ⟨⟨⟩, hLeft, hUp⟩
          have hNodes := (allocate_ok hAllocate).2.2.1
          have hGrown : Bushy layout grown := by
            intro other node hOther
            exact hBushy other node (hNodes ▸ hOther)
          have hLength := hPerm.length_eq
          rw [List.length_cons] at hLength
          have hRightRoomy : Roomy layout (.internal
              ((layout.least, promoted.2) ::
                (insertSorted Prod.fst entries
                  separator).drop (cut + 1))) := by
            refine ⟨fun entry hEntry => ?_,
              replaceAll_fits hRight, ?_⟩
            · rcases List.mem_cons.mp hEntry with rfl | hOld
              · exact hLeast
              · exact hAll entry (List.mem_of_mem_drop hOld)
            · rw [List.length_cons, List.length_drop]
              omega
          have hLeftRoomy : Roomy layout (.internal
              ((insertSorted Prod.fst entries
                separator).take cut)) := by
            refine ⟨fun entry hEntry =>
              hAll entry (List.mem_of_mem_take hEntry),
              replaceAll_fits hLeft, ?_⟩
            rw [List.length_take]
            omega
          refine ih ((hGrown.write siblingId
            hRightRoomy).write parentId hLeftRoomy) ?_ hUp
          exact hAll promoted (List.mem_of_getElem? hAt)
    · cases hInsert

/- So does an insert of a narrow entry. -/
theorem insertAt_bushy
    {entry : σ}
    (hLeast : Narrow layout layout.least)
    (hBushy : Bushy layout tree)
    (hEntry : Narrow layout entry)
    (hLanded : ∀ leaf, tree.descendFrom entry = .ok leaf →
      tree.nodes leaf.pageId =
        some (.leaf leaf.entries leaf.next))
    (hInsert : insertAt layout tree entry = .ok after) :
    Bushy layout after := by
  unfold insertAt at hInsert
  rcases ok_of_bind hInsert with ⟨leaf, hLeaf, hRest⟩
  rcases hBushy leaf.pageId _ (hLanded leaf hLeaf) with
    ⟨hEntries, hFits, hOne⟩
  rcases ok_of_bind hRest with ⟨placed, hPlaced, hRest⟩
  have hPerm := insertSorted_perm id leaf.entries entry
  have hAll : ∀ other ∈ insertSorted id leaf.entries entry,
      Narrow layout other := by
    intro other hOther
    rcases List.mem_cons.mp (hPerm.mem_iff.mp hOther) with
      rfl | hOld
    · exact hEntry
    · exact hEntries other hOld
  have hLeafEntry := hEntry.leaf
  by_cases hRoom : (leaf.entries.map layout.leafWidth).sum +
      layout.leafWidth entry ≤ layout.usableBytes
  · rw [insertEntry_room hRoom] at hPlaced
    cases hPlaced
    cases hRest
    refine hBushy.write leaf.pageId ⟨hAll, ?_, ?_⟩
    · rw [(hPerm.map _).sum_nat, List.map_cons, List.sum_cons]
      omega
    · rw [hPerm.length_eq, List.length_cons]
      omega
  · rw [insertEntry_full (by omega) (by omega)] at hPlaced
    cases hPlaced
    rcases @cut_of_full _ _ layout _ id layout.leafWidth
      leaf.entries entry (by
        intro other hOther
        rcases List.mem_cons.mp hOther with rfl | hOld
        · exact hLeafEntry
        · exact (hEntries other hOld).leaf) hFits (by omega)
      with ⟨cut, hCut, hLow, hHigh, _⟩
    unfold splitLeaf at hRest
    rcases ok_of_bind hRest with ⟨found, hFound, hRest⟩
    rw [hCut] at hFound
    cases hFound
    split at hRest
    · cases hRest
    · rename_i first hAt
      rcases ok_of_bind hRest with
        ⟨⟨siblingId, grown⟩, hAllocate, hRest⟩
      rcases ok_of_bind hRest with ⟨⟨⟩, hRight, hRest⟩
      rcases ok_of_bind hRest with ⟨⟨⟩, hLeft, hUp⟩
      have hNodes := (allocate_ok hAllocate).2.2.1
      have hGrown : Bushy layout grown := by
        intro other node hOther
        exact hBushy other node (hNodes ▸ hOther)
      have hLength := hPerm.length_eq
      rw [List.length_cons] at hLength
      have hRightRoomy : Roomy layout (.leaf
          ((insertSorted id leaf.entries entry).drop cut)
          leaf.next) := by
        refine ⟨fun other hOther =>
          hAll other (List.mem_of_mem_drop hOther),
          replaceAll_fits hRight, ?_⟩
        rw [List.length_drop]
        omega
      have hLeftRoomy : Roomy layout (.leaf
          ((insertSorted id leaf.entries entry).take cut)
          (some siblingId)) := by
        refine ⟨fun other hOther =>
          hAll other (List.mem_of_mem_take hOther),
          replaceAll_fits hLeft, ?_⟩
        rw [List.length_take]
        omega
      refine insertIntoParent_bushy hLeast
        ((hGrown.write siblingId hRightRoomy).write
          leaf.pageId hLeftRoomy) ?_ hUp
      exact hAll first (List.mem_of_getElem? hAt)

--
-- Depth
--

variable {heights : PageId → Nat} {least : σ}
variable {items : Items σ} {contents : List σ}

omit [LinearOrder σ] in
/- A level has two nodes for each node above it. -/
theorem double_of_children
    {parents : Items σ}
    (hBushy : Bushy layout tree)
    (hChildren : Children tree.nodes least parents items) :
    2 * parents.length ≤ items.length := by
  induction hChildren with
  | nil => exact Nat.le_refl _
  | @cons lo pageId child rest parents items hNode _ ih =>
    have hTwo : 2 ≤ rest.length + 1 :=
      (hBushy pageId _ hNode).2.2
    simp only [List.length_cons, List.length_append]
    omega

theorem wide_of_rooted
    {height : Nat}
    (hBushy : Bushy layout tree)
    (hRooted : Rooted tree heights least height items) :
    2 ^ heights tree.root ≤ items.length * 2 ^ height := by
  induction hRooted with
  | root hLevel =>
    have hHere := (hLevel.placed _ (.head _)).2
    simp only at hHere
    rw [hHere, List.length_singleton, Nat.one_mul]
  | @down height parents items _ hChildren _ ih =>
    have hDouble := double_of_children hBushy hChildren
    calc 2 ^ heights tree.root
        ≤ parents.length * 2 ^ (height + 1) := ih
      _ = 2 * parents.length * 2 ^ height := by
          rw [Nat.pow_succ, Nat.mul_comm 2,
            Nat.mul_assoc, Nat.mul_comm 2]
      _ ≤ items.length * 2 ^ height :=
          Nat.mul_le_mul_right _ hDouble

omit [LinearOrder σ] in
theorem filled_of_leaves [LinearOrder σ]
    (hBushy : Bushy layout tree)
    (hLeaves : Leaves tree.nodes items contents) :
    items.length ≤ contents.length := by
  induction hLeaves with
  | nil => exact Nat.le_refl _
  | cons hNode _ _ _ _ ih =>
    have hOne := (hBushy _ _ hNode).2.2
    simp only [List.length_cons, List.length_append]
    omega

/- With fewer than 2^33 entries no descent is too long. -/
theorem shallow_of_bushy
    (hRooted : Rooted tree heights layout.least 0 items)
    (hLeaves : Leaves tree.nodes items contents)
    (hBushy : Bushy layout tree)
    (hFew : contents.length < 2 ^ 33)
    {top : Nat}
    (hLevels : Levels tree.nodes tree.root top) :
    top ≤ maxDepth := by
  rcases hRooted.reaches .leaves with ⟨height, hLevel, hBelow⟩
  have hSame := hLevels.unique
    (hBelow.levels hLeaves.leaf rfl).1
  have hRoot := (hLevel.placed _ (.head _)).2
  simp only at hRoot
  have hWide := wide_of_rooted hBushy hRooted
  have hFilled := filled_of_leaves hBushy hLeaves
  rw [hRoot, ← hSame, Nat.pow_zero, Nat.mul_one] at hWide
  have hLess : top < 33 :=
    (Nat.pow_lt_pow_iff_right (Nat.lt_succ_self 1)).mp
      (hWide.trans_lt (hFilled.trans_lt hFew))
  exact Nat.le_of_lt_succ hLess

--
-- Inserts That Return
--

/- Every node on the way down has children. -/
theorem path_internal
    {target : σ}
    {height : Nat}
    {path : Path}
    (hDescended : Descended tree heights least target height
      items path) :
    ∀ step ∈ path, ∃ entries,
      tree.nodes step.1 = some (.internal entries) := by
  induction hDescended with
  | root _ => simp
  | down _ hChildren _ hLocated ih =>
    intro step hStep
    rcases List.mem_cons.mp hStep with rfl | hStep
    · rw [hLocated.1] at hChildren
      rcases hChildren.split with ⟨_, _, _, _, _, _, hNode, _⟩
      exact ⟨_, hNode⟩
    · exact ih step hStep

/- A narrow separator finds a place. -/
theorem accepts_of_narrow
    {path : Path}
    {separator : σ}
    (hLeast : Narrow layout layout.least)
    (hBushy : Bushy layout tree)
    (hPath : ∀ step ∈ path, ∃ entries,
      tree.nodes step.1 = some (.internal entries))
    (hSeparator : Narrow layout separator) :
    Accepts layout tree path separator := by
  induction path generalizing separator with
  | nil =>
    unfold Accepts
    unfold Narrow at hLeast hSeparator
    omega
  | cons step rest ih =>
    rcases hPath step (.head _) with ⟨entries, hNode⟩
    rcases hBushy step.1 _ hNode with ⟨hEntries, hFits, _⟩
    have hOne : 8 * layout.childWidth (separator, 0) ≤
        layout.usableBytes := hSeparator
    have hWidth : separatorWidth layout separator =
        layout.childWidth (separator, 0) := rfl
    unfold Accepts
    refine ⟨entries, hNode, by omega, ?_⟩
    by_cases hRoom : (entries.map layout.childWidth).sum +
        separatorWidth layout separator ≤ layout.usableBytes
    · exact .inl hRoom
    · rcases @cut_of_full _ _ layout _ Prod.fst
        layout.childWidth entries (separator, 0) (by
          intro other hOther
          rcases List.mem_cons.mp hOther with rfl | hOld
          · exact hSeparator
          · exact hEntries other hOld) hFits (by omega)
        with ⟨cut, hCut, hLow, hHigh, hRight⟩
      have hPerm := insertSorted_perm Prod.fst entries
        (separator, 0)
      have hLength := hPerm.length_eq
      rw [List.length_cons] at hLength
      have hLess : cut < (insertSorted Prod.fst entries
          (separator, 0)).length := by omega
      have hKeys := map_insertSorted entries (separator, 0)
      rw [widths_insertSorted] at hCut hRight
      simp only at hCut hRight
      have hDrop : (((withSeparator entries separator).drop
          (cut + 1)).map (separatorWidth layout)).sum ≤
          (((withSeparator entries separator).map
            (separatorWidth layout)).drop cut).sum := by
        rw [List.map_drop, ← List.drop_drop]
        generalize ((withSeparator entries separator).map
          (separatorWidth layout)).drop cut = right
        cases right with
        | nil => exact Nat.le_refl _
        | cons first others =>
          rw [List.drop_one, List.tail_cons, List.sum_cons]
          omega
      have hLeastOne : 8 * separatorWidth layout
          layout.least ≤ layout.usableBytes := hLeast
      refine .inr ⟨cut, (insertSorted Prod.fst entries
        (separator, 0))[cut].1, hCut, ?_, by omega,
        ih (fun other hOther => hPath other
          (.tail _ hOther)) ?_⟩
      · rw [← hKeys, List.getElem?_map,
          List.getElem?_eq_getElem hLess]
        rfl
      · rcases List.mem_cons.mp (hPerm.mem_iff.mp
          (List.getElem_mem hLess)) with hNew | hOld
        · rw [hNew]
          exact hSeparator
        · exact hEntries _ hOld

/- In a tree that only grew with narrow entries an insert of
   one more returns, and leaves such a tree. -/
theorem insertAt_returns
    {entry : σ}
    (hWell : WellFormed layout tree contents)
    (hLeast : Narrow layout layout.least)
    (hBushy : Bushy layout tree)
    (hFew : contents.length < 2 ^ 33)
    (hAbove : layout.least ≤ entry)
    (hEntry : Narrow layout entry)
    (hSupplied : Supplied tree (maxDepth + 2)) :
    ∃ after, insertAt layout tree entry = .ok after ∧
      Bushy layout after := by
  rcases hWell with ⟨heights, items, hRooted, hLeaves⟩
  rcases descendFrom_spec hRooted hLeaves with
    ⟨top, hLevels, hDescend, _⟩
  rcases (hDescend entry hAbove).2 (shallow_of_bushy hRooted
      hLeaves hBushy hFew hLevels) with
    ⟨landing, before, lo, later, hLanding, hDescended,
      hLocated, hNode⟩
  rcases hLocated with ⟨rfl, _, _⟩
  rcases hBushy landing.pageId _ hNode with ⟨hEntries, hFits, _⟩
  have hReturns : ∃ after,
      insertAt layout tree entry = .ok after := by
    rw [insertAt_eq_outcome]
    unfold insertAtIn
    rw [hLanding, Outcome.attempt_ok]
    have hLeafEntry := hEntry.leaf
    by_cases hRoom : (landing.entries.map
        layout.leafWidth).sum + layout.leafWidth entry ≤
          layout.usableBytes
    · rw [insertEntry_room hRoom, Outcome.attempt_ok]
      exact ⟨_, rfl⟩
    · rw [insertEntry_full (by omega) (by omega),
        Outcome.attempt_ok]
      rcases @cut_of_full _ _ layout _ id layout.leafWidth
        landing.entries entry (by
          intro other hOther
          rcases List.mem_cons.mp hOther with rfl | hOld
          · exact hLeafEntry
          · exact (hEntries other hOld).leaf) hFits
        (by omega) with ⟨cut, hCut, hLow, hHigh, _⟩
      have hPerm := insertSorted_perm id landing.entries entry
      have hLength := hPerm.length_eq
      rw [List.length_cons] at hLength
      have hFirst := List.getElem?_eq_getElem
        (show cut < (insertSorted id landing.entries
          entry).length by omega)
      rcases hLeaves.context with ⟨_, entries, _, _, hHere, _⟩
      rw [hNode, Option.some.injEq, Node.leaf.injEq] at hHere
      have hShort := descend_length hLanding
      rw [List.length_nil, Nat.zero_add] at hShort
      have hNarrow : ∀ other ∈
          insertSorted id landing.entries entry,
          Narrow layout other := by
        intro other hOther
        rcases List.mem_cons.mp (hPerm.mem_iff.mp hOther) with
          rfl | hOld
        · exact hEntry
        · exact hEntries _ hOld
      have hResult := (splitLeafIn_cut hDescended hNode
        hHere.2 hShort hSupplied hCut hFirst).1.mpr
          (accepts_of_narrow hLeast hBushy
            (path_internal hDescended)
            (hNarrow _ (List.mem_of_getElem? hFirst)))
      exact ⟨_, Outcome.toExcept_of_ok hResult⟩
  rcases hReturns with ⟨after, hOk⟩
  refine ⟨after, hOk, insertAt_bushy hLeast hBushy hEntry
    (fun leaf hLeaf => ?_) hOk⟩
  rw [hLanding, Except.ok.injEq] at hLeaf
  exact hLeaf ▸ hNode

end Ordered

end BPlusTree

end Indexing

end ChenDB
