import ChenDB.Indexing.TreeShape

/-
  What inserts, deletes and walks do to the entries of a tree,
  taken together in order.
-/

--
-- Leaves in a Row
--

namespace ChenDB

namespace Indexing

open Library.StateExcept (ok_of_bind)

variable {σ : Type} [LinearOrder σ]
variable {nodes : PageId → Option (Node σ)} {items : Items σ}
variable {contents : List σ}

section Rows

variable {nodes' : PageId → Option (Node σ)}

theorem Leaves.congr
    (hLeaves : Leaves nodes items contents)
    (hSame : ∀ item ∈ items, nodes' item.2 = nodes item.2) :
    Leaves nodes' items contents := by
  induction hLeaves with
  | nil => exact .nil
  | cons hNode hOrdered hLow hHigh _ ih =>
    apply Leaves.cons _ hOrdered hLow hHigh
    · exact ih fun item hMem =>
        hSame item (.tail _ hMem)
    · rw [hSame _ (.head _)]
      exact hNode

theorem Leaves.leaf
    (hLeaves : Leaves nodes items contents) :
    ∀ item ∈ items, ∃ entries next,
      nodes item.2 = some (.leaf entries next) := by
  induction hLeaves with
  | nil => simp
  | cons hNode _ _ _ _ ih =>
    intro item hMem
    rcases List.mem_cons.mp hMem with hHere | hLater
    · rw [hHere]
      exact ⟨_, _, hNode⟩
    · exact ih item hLater

/- No entry is below all leaves. -/
theorem Leaves.lower
    (hLeaves : Leaves nodes items contents) :
    ∀ entry ∈ contents, ∃ item ∈ items,
      item.1 ≤ entry := by
  induction hLeaves with
  | nil => simp
  | cons _ _ hLow _ _ ih =>
    intro entry hMem
    rcases List.mem_append.mp hMem with hHere | hLater
    · exact ⟨_, .head _, hLow entry hHere⟩
    · rcases ih entry hLater with ⟨item, hItem, hLe⟩
      exact ⟨item, .tail _ hItem, hLe⟩

theorem Leaves.sorted
    (hLeaves : Leaves nodes items contents) :
    contents.Pairwise (· < ·) := by
  induction hLeaves with
  | nil => exact List.Pairwise.nil
  | cons _ hOrdered _ hHigh hRest ih =>
    apply List.pairwise_append.mpr
    refine ⟨hOrdered, ih, ?_⟩
    intro entry hEntry other hOther
    rcases hRest.lower other hOther with ⟨item, hItem, hLe⟩
    exact lt_of_lt_of_le (hHigh entry hEntry item hItem) hLe

/- A leaf among the others, and what may stand in its place:
   leaves that begin at its page and not below it. -/
theorem Leaves.context
    {before after : Items σ}
    {item : σ × PageId}
    (hLeaves : Leaves nodes (before ++ item :: after)
      contents) :
    ∃ earlier entries later,
      contents = earlier ++ (entries ++ later) ∧
      nodes item.2 = some (.leaf entries
        (after.head?.map Prod.snd)) ∧
      entries.Pairwise (· < ·) ∧
      (∀ entry ∈ entries, item.1 ≤ entry) ∧
      (∀ entry ∈ entries, ∀ other ∈ after, entry < other.1) ∧
      Leaves nodes after later ∧
      (∀ entry ∈ earlier, entry < item.1) ∧
      ∀ (nodes' : PageId → Option (Node σ)) tail rest,
        (∀ other ∈ before, nodes' other.2 = nodes other.2) →
        tail.head?.map Prod.snd = some item.2 →
        (∀ other ∈ tail, item.1 ≤ other.1) →
        Leaves nodes' tail rest →
        Leaves nodes' (before ++ tail) (earlier ++ rest) := by
  induction before generalizing contents with
  | nil =>
    cases hLeaves with
    | cons hNode hOrdered hLow hHigh hRest =>
      refine ⟨[], _, _, rfl, hNode, hOrdered, hLow, hHigh,
        hRest, by simp, ?_⟩
      intro _ _ _ _ _ _ hTail
      exact hTail
  | cons head front ih =>
    cases hLeaves with
    | cons hNode hOrdered hLow hHigh hRest =>
      rename_i lo pageId held rest
      rcases ih hRest with ⟨earlier, entries, later,
        hContents, hHere, hSorted, hAbove, hUnder, hAfter,
        hBelow, hReplace⟩
      refine ⟨held ++ earlier, entries, later, ?_, hHere,
        hSorted, hAbove, hUnder, hAfter, ?_, ?_⟩
      · rw [hContents, List.append_assoc]
      · intro entry hMem
        rcases List.mem_append.mp hMem with hIn | hLater
        · exact hHigh entry hIn item (by simp)
        · exact hBelow entry hLater
      · intro nodes' tail contents' hSame hHead hFrom
          hTail
        rw [List.append_assoc, List.cons_append]
        apply Leaves.cons _ hOrdered hLow
        · intro entry hEntry other hOther
          rcases List.mem_append.mp hOther with
            hIn | hInTail
          · exact hHigh entry hEntry other
              (List.mem_append_left _ hIn)
          · exact lt_of_lt_of_le
              (hHigh entry hEntry item (by simp))
              (hFrom other hInTail)
        · exact hReplace nodes' tail contents'
            (fun other hOther => hSame other
              (.tail _ hOther))
            hHead hFrom hTail
        · rw [hSame _ (.head _), hNode]
          cases front with
          | nil =>
            simp only [List.nil_append] at hHead ⊢
            rw [hHead]
            rfl
          | cons other others => rfl

/- A list in order, cut at a sort key. -/
theorem sorted_cut
    {entries : List σ}
    (hSorted : entries.Pairwise (· < ·))
    (target : σ) :
    ∃ below above, entries = below ++ above ∧
      (∀ entry ∈ below, entry < target) ∧
      (∀ entry ∈ above, target ≤ entry) := by
  induction entries with
  | nil => exact ⟨[], [], rfl, by simp, by simp⟩
  | cons entry rest ih =>
    rw [List.pairwise_cons] at hSorted
    by_cases hLess : entry < target
    · rcases ih hSorted.2 with
        ⟨below, above, hRest, hBelow, hAbove⟩
      refine ⟨entry :: below, above, by rw [hRest]; rfl,
        ?_, hAbove⟩
      intro other hMem
      rcases List.mem_cons.mp hMem with hHere | hIn
      · rw [hHere]
        exact hLess
      · exact hBelow other hIn
    · refine ⟨[], entry :: rest, rfl, by simp, ?_⟩
      intro other hMem
      rcases List.mem_cons.mp hMem with hHere | hIn
      · rw [hHere]
        exact not_lt.mp hLess
      · exact le_trans (not_lt.mp hLess)
          (le_of_lt (hSorted.1 other hIn))

end Rows

--
-- Well-Formed Trees
--

/- A tree whose leaves hold these entries: its levels are in
   order, separators bound what is under them, the leaves are
   all at one depth, and their chain goes through them in
   order. -/
def WellFormed
    (layout : Layout σ)
    (tree : BPlusTree σ)
    (contents : List σ) : Prop :=
  ∃ heights items,
    Rooted tree heights layout.least 0 items ∧
    Leaves tree.nodes items contents

omit [LinearOrder σ] in
/- So many internal nodes lie above the first leaf. -/
inductive Levels
    (nodes : PageId → Option (Node σ)) :
    PageId → Nat → Prop where
  | leaf {pageId entries next} :
      nodes pageId = some (.leaf entries next) →
      Levels nodes pageId 0
  | internal {pageId separator child rest count} :
      nodes pageId = some
        (.internal ((separator, child) :: rest)) →
      Levels nodes child count →
      Levels nodes pageId (count + 1)

variable {pageId : PageId}
variable {layout : Layout σ} {tree tree' : BPlusTree σ}
variable {heights : PageId → Nat} {target : σ}

omit [LinearOrder σ] in
theorem Levels.unique
    {first second : Nat}
    (hFirst : Levels nodes pageId first)
    (hSecond : Levels nodes pageId second) :
    first = second := by
  induction hFirst generalizing second with
  | leaf hNode =>
    cases hSecond with
    | leaf => rfl
    | internal hOther =>
      rw [hNode] at hOther
      cases hOther
  | internal hNode _ ih =>
    cases hSecond with
    | leaf hOther =>
      rw [hNode] at hOther
      cases hOther
    | internal hOther hRest =>
      rw [hNode] at hOther
      cases hOther
      rw [ih hRest]

section Trees

theorem Below.levels
    {least : σ}
    {leaves : Items σ}
    {height : Nat}
    (hBelow : Below tree heights least leaves height items)
    (hLeaves : ∀ item ∈ leaves, ∃ entries next,
      tree.nodes item.2 = some (.leaf entries next))
    {item : σ × PageId}
    (hHead : items.head? = some item) :
    Levels tree.nodes item.2 height ∧
      ∀ fuel, height ≤ fuel → ∃ first entries next,
        leaves.head? = some first ∧
        tree.nodes first.2 = some (.leaf entries next) ∧
        tree.leftmostLeaf fuel item.2 =
          .ok ⟨first.2, entries, next, []⟩ := by
  induction hBelow generalizing item with
  | leaves =>
    rcases hLeaves item (List.mem_of_head? hHead) with
      ⟨entries, next, hNode⟩
    refine ⟨.leaf hNode, ?_⟩
    intro fuel _
    refine ⟨item, entries, next, hHead, hNode, ?_⟩
    unfold BPlusTree.leftmostLeaf
    simp only [hNode]
  | step hChildren _ _ ih =>
    cases hChildren with
    | nil => cases hHead
    | cons hNode _ =>
      rename_i lo pageId child rest parents others
      rw [List.head?_cons, Option.some.injEq] at hHead
      subst hHead
      rcases ih rfl with ⟨hLevels, hFind⟩
      refine ⟨.internal hNode hLevels, ?_⟩
      intro fuel hLe
      cases fuel with
      | zero => omega
      | succ fuel =>
        rcases hFind fuel (by omega) with
          ⟨first, entries, next, hFirst, hLeaf, hFound⟩
        refine ⟨first, entries, next, hFirst, hLeaf, ?_⟩
        unfold BPlusTree.leftmostLeaf
        simp only [hNode, masked, List.head?_cons]
        exact hFound

/- Every descent, of trees that are not too deep and of those
   that are. -/
theorem descendFrom_spec
    (hRooted : Rooted tree heights layout.least 0 items)
    (hLeaves : Leaves tree.nodes items contents) :
    ∃ top, Levels tree.nodes tree.root top ∧
      (∀ target, layout.least ≤ target →
        (maxDepth < top →
          tree.descendFrom target = .error BPlusTree.tooDeep) ∧
        (top ≤ maxDepth → ∃ landing earlier lo later,
          tree.descendFrom target = .ok landing ∧
          Descended tree heights layout.least target 0 items
            landing.path ∧
          Located items target earlier (lo, landing.pageId)
            later ∧
          tree.nodes landing.pageId =
            some (.leaf landing.entries landing.next))) ∧
      (top ≤ maxDepth → ∃ first entries next,
        items.head? = some first ∧
        tree.nodes first.2 = some (.leaf entries next) ∧
        tree.leftmostLeaf maxDepth tree.root =
          .ok ⟨first.2, entries, next, []⟩) := by
  rcases hRooted.reaches .leaves with ⟨top, hLevel, hBelow⟩
  rcases hBelow.levels hLeaves.leaf rfl with ⟨hLevels, hFirst⟩
  refine ⟨top, hLevels, ?_, hFirst maxDepth⟩
  intro target hTarget
  have hLocated : Located [(layout.least, tree.root)] target
      [] (layout.least, tree.root) [] :=
    ⟨rfl, hTarget, by simp⟩
  exact descend_spec hBelow hLeaves.leaf (.root hLevel)
    hLocated

end Trees

--
-- Inserting
--

/- A new leaf behind the one it was split from. -/
theorem Leaves.split
    {lo : σ}
    {sibling : PageId}
    {left right later : List σ}
    {first : σ}
    {after : Items σ}
    (hAll : (left ++ first :: right).Pairwise (· < ·))
    (hLow : ∀ entry ∈ left ++ first :: right, lo ≤ entry)
    (hHigh : ∀ entry ∈ left ++ first :: right,
      ∀ other ∈ after, entry < other.1)
    (hLeft : nodes pageId = some (.leaf left (some sibling)))
    (hRight : nodes sibling = some (.leaf (first :: right)
      (after.head?.map Prod.snd)))
    (hAfter : Leaves nodes after later) :
    Leaves nodes
      ((lo, pageId) :: (first, sibling) :: after)
      (left ++ ((first :: right) ++ later)) := by
  have hParts := List.pairwise_append.mp hAll
  apply Leaves.cons hLeft hParts.1
  · exact fun entry hMem =>
      hLow entry (List.mem_append_left _ hMem)
  · intro entry hEntry other hOther
    rcases List.mem_cons.mp hOther with hHere | hLater
    · rw [hHere]
      exact hParts.2.2 entry hEntry first (.head _)
    · exact hHigh entry (List.mem_append_left _ hEntry) other
        hLater
  · apply Leaves.cons hRight hParts.2.1
    · intro entry hMem
      rcases List.mem_cons.mp hMem with hHere | hIn
      · rw [hHere]
      · exact le_of_lt
          ((List.pairwise_cons.mp hParts.2.1).1 entry hIn)
    · exact fun entry hMem =>
        hHigh entry (List.mem_append_right _ hMem)
    · exact hAfter

section Inserts

variable {before after : Items σ} {lo : σ}
variable {landing : BPlusTree.Landing σ}

/- A leaf rewritten in place. -/
theorem write_rooted
    (hDescended : Descended tree heights layout.least target
      0 (before ++ (lo, landing.pageId) :: after)
        landing.path)
    (node : Node σ) :
    Rooted (tree.write landing.pageId node) heights
      layout.least 0
      (before ++ (lo, landing.pageId) :: after) := by
  have hLanded := hDescended.level.apart
  have hSame : Descended (tree.write landing.pageId node)
      heights layout.least target 0
      (before ++ (lo, landing.pageId) :: after)
        landing.path := by
    apply hDescended.frame
    · rfl
    · exact fun _ hHeld => hHeld
    · exact fun _ _ => rfl
    · intro held _ hHigher
      apply Function.update_of_ne
      intro hEqual
      rw [hEqual, hLanded.2.1] at hHigher
      omega
  exact hSame.rooted

theorem splitLeaf_spec
    (hDescended : Descended tree heights layout.least target
      0 (before ++ (lo, landing.pageId) :: after)
        landing.path)
    (hItem : lo ≤ target)
    (hAfter : ∀ other ∈ after, target < other.1)
    {earlier all later : List σ}
    (hReplace : ∀ (nodes' : PageId → Option (Node σ)) tail
      rest,
      (∀ other ∈ before, nodes' other.2 = tree.nodes other.2) →
      tail.head?.map Prod.snd = some landing.pageId →
      (∀ other ∈ tail, lo ≤ other.1) →
      Leaves nodes' tail rest →
      Leaves nodes' (before ++ tail) (earlier ++ rest))
    (hAll : BPlusTree.insertSorted id landing.entries
      target = all)
    (hSorted : all.Pairwise (· < ·))
    (hLow : ∀ entry ∈ all, lo ≤ entry)
    (hHigh : ∀ entry ∈ all, ∀ other ∈ after, entry < other.1)
    (hNext : landing.next = after.head?.map Prod.snd)
    (hLater : Leaves tree.nodes after later)
    (hSplit : BPlusTree.splitLeaf layout tree landing
      target = .ok tree') :
    WellFormed layout tree'
      (earlier ++ (all ++ later)) := by
  have hLevel := hDescended.level
  have hLanded := hLevel.apart
  unfold BPlusTree.splitLeaf at hSplit
  simp only [hAll] at hSplit
  rcases ok_of_bind hSplit with ⟨cut, hCut, hRest⟩
  have hBounds := planSplit_bounds hCut
  rw [List.length_map] at hBounds
  split at hRest
  · cases hRest
  rename_i first hFirst
  rcases ok_of_bind hRest with
    ⟨⟨sibling, grown⟩, hAllocate, hWrites⟩
  rcases ok_of_bind hWrites with ⟨_, _, hLefts⟩
  rcases ok_of_bind hLefts with ⟨_, _, hUp⟩
  rcases List.getElem?_eq_some_iff.mp hFirst with ⟨hLess, hHere⟩
  have hRight : all.drop cut = first :: all.drop (cut + 1) := by
    rw [← hHere, List.getElem_cons_drop]
  have hWhole : all.take cut ++ first :: all.drop (cut + 1) =
      all := by
    rw [← hRight, List.take_append_drop]
  rw [hRight] at hUp
  have hHalved := halved_of_allocate hAllocate hLanded.1
    (.leaf (all.take cut) (some sibling))
    (.leaf (first :: all.drop (cut + 1)) landing.next)
  -- the left half is not empty, so its first entry separates
  have hAbove : lo < first := by
    have hTake : 0 < (all.take cut).length := by
      rw [List.length_take]
      omega
    have hHead := List.getElem_mem hTake
    rw [← hWhole] at hSorted hLow
    exact lt_of_le_of_lt
      (hLow _ (List.mem_append_left _ hHead))
      ((List.pairwise_append.mp hSorted).2.2 _ hHead first
        (.head _))
  have hUnder : ∀ other ∈ after, first < other.1 := by
    apply hHigh
    rw [← hWhole]
    simp
  have hGrown := hLevel.insert hHalved.fresh hHalved.pages
    hAbove hUnder
  rcases insertIntoParent_rooted (hHalved.descended hDescended
      (le_of_eq hLanded.2.1)) hItem hAfter hGrown hUp with
    ⟨heights', hRooted, hUntouched⟩
  refine ⟨heights', _, hRooted, ?_⟩
  have hLeaves := hReplace _ ((lo, landing.pageId) ::
    (first, sibling) :: after) (all ++ later)
    (fun other hMem => hHalved.stored _
      (hLevel.placed other (List.mem_append_left _ hMem)).1
      (hLanded.2.2.1 other hMem)) rfl ?_ ?_
  · apply hLeaves.congr
    intro other hMem
    have hPlaced := hGrown.placed other hMem
    exact hUntouched.stored other.2 hPlaced.1
      (le_of_eq hPlaced.2)
  · intro other hMem
    rcases List.mem_cons.mp hMem with hOne | hRest
    · rw [hOne]
    · rcases List.mem_cons.mp hRest with hTwo | hIn
      · rw [hTwo]
        exact le_of_lt hAbove
      · exact le_of_lt (lt_trans hAbove
          (hUnder other hIn))
  · have hParts : all ++ later = all.take cut ++
        (first :: all.drop (cut + 1) ++ later) := by
      rw [← List.append_assoc, hWhole]
    rw [← hWhole] at hSorted hLow hHigh
    rw [hParts]
    apply Leaves.split hSorted hLow hHigh hHalved.left
    · rw [hHalved.right, hNext]
    · apply hLater.congr
      intro other hMem
      exact hHalved.stored _
        (hLevel.placed other (by simp [hMem])).1
        (hLanded.2.2.2 other hMem)

/- An entry that was absent is put in at its place. -/
theorem insertAt_spec
    {contents : List σ}
    (hWell : WellFormed layout tree contents)
    (hTarget : layout.least ≤ target)
    (hAbsent : target ∉ contents)
    (hInsert : tree.insertAt layout target = .ok tree') :
    ∃ below above, contents = below ++ above ∧
      WellFormed layout tree' (below ++ target :: above) := by
  rcases hWell with ⟨heights, items, hRooted, hLeaves⟩
  rcases descendFrom_spec hRooted hLeaves with
    ⟨top, _, hDescend, _⟩
  unfold BPlusTree.insertAt at hInsert
  rcases ok_of_bind hInsert with ⟨landing, hLanding, hRest⟩
  have hShallow : top ≤ maxDepth := by
    by_contra hDeep
    have hError := (hDescend target hTarget).1 (by omega)
    rw [hLanding] at hError
    cases hError
  rcases (hDescend target hTarget).2 hShallow with
    ⟨found, before, lo, after, hFound, hDescended, hLocated,
      hNode⟩
  rw [hLanding, Except.ok.injEq] at hFound
  subst hFound
  rcases hLocated with ⟨rfl, hItem, hAfter⟩
  rcases hLeaves.context with ⟨earlier, entries, later,
    rfl, hHere, hSorted, hLow, hHigh, hLater, hEarlier,
    hReplace⟩
  simp only at hHere hLow hEarlier hReplace hItem
  rw [hNode, Option.some.injEq, Node.leaf.injEq] at hHere
  rcases hHere with ⟨rfl, hNext⟩
  rcases sorted_cut hSorted target with
    ⟨below, above, hCut, hBelow, hAbove⟩
  have hAbove' : ∀ entry ∈ above, target < entry := by
    intro entry hMem
    apply lt_of_le_of_ne (hAbove entry hMem)
    intro hSame
    apply hAbsent
    rw [hCut, hSame]
    simp [hMem]
  have hAll : BPlusTree.insertSorted id landing.entries
      target = below ++ target :: above := by
    rw [hCut]
    exact insertSorted_append hBelow hAbove
  have hGrownSorted : (below ++ target :: above).Pairwise
      (· < ·) := by
    rw [hCut] at hSorted
    have hParts := List.pairwise_append.mp hSorted
    rw [List.pairwise_append, List.pairwise_cons]
    refine ⟨hParts.1, ⟨hAbove', hParts.2.1⟩, ?_⟩
    intro entry hEntry other hOther
    rcases List.mem_cons.mp hOther with hIs | hIn
    · rw [hIs]
      exact hBelow entry hEntry
    · exact hParts.2.2 entry hEntry other hIn
  have hMembers : ∀ entry ∈ below ++ target :: above,
      entry = target ∨ entry ∈ landing.entries := by
    intro entry hMem
    rw [hCut]
    simp only [List.mem_append, List.mem_cons] at hMem ⊢
    tauto
  have hGrownLow : ∀ entry ∈ below ++ target :: above,
      lo ≤ entry := by
    intro entry hMem
    rcases hMembers entry hMem with hIs | hIn
    · rw [hIs]
      exact hItem
    · exact hLow entry hIn
  have hGrownHigh : ∀ entry ∈ below ++ target :: above,
      ∀ other ∈ after, entry < other.1 := by
    intro entry hMem other hOther
    rcases hMembers entry hMem with hIs | hIn
    · rw [hIs]
      exact hAfter other hOther
    · exact hHigh entry hIn other hOther
  refine ⟨earlier ++ below, above ++ later, by
    rw [hCut]
    simp, ?_⟩
  have hShape : (earlier ++ below) ++ target ::
      (above ++ later) = earlier ++
        ((below ++ target :: above) ++ later) := by simp
  rw [hShape]
  rcases ok_of_bind hRest with ⟨result, hResult, hDone⟩
  have hLanded := hDescended.level.apart
  rcases insertEntry_some hResult with rfl | rfl
  · exact splitLeaf_spec hDescended hItem hAfter hReplace hAll
      hGrownSorted hGrownLow hGrownHigh hNext hLater hDone
  · rw [hAll] at hDone
    cases hDone
    refine ⟨heights, _, write_rooted hDescended _, ?_⟩
    apply hReplace
    · exact fun other hMem =>
        Function.update_of_ne (hLanded.2.2.1 other hMem) _ _
    · rfl
    · intro other hMem
      rcases List.mem_cons.mp hMem with hOne | hIn
      · rw [hOne]
      · exact le_of_lt (lt_of_le_of_lt hItem
          (hAfter other hIn))
    · apply Leaves.cons _ hGrownSorted hGrownLow hGrownHigh
      · apply hLater.congr
        exact fun other hMem =>
          Function.update_of_ne (hLanded.2.2.2 other hMem) _ _
      · rw [← hNext]
        exact Function.update_self ..

end Inserts

--
-- Deleting
--

section Deletes

omit [LinearOrder σ] in
theorem eraseIdx_append
    (below above : List σ)
    (entry : σ) :
    (below ++ entry :: above).eraseIdx below.length =
      below ++ above := by
  induction below with
  | nil => rfl
  | cons head rest ih => simp [ih]

/- An entry goes if and only if it was there, and nothing
   else does. -/
theorem deleteAt_spec
    {contents : List σ}
    (hWell : WellFormed layout tree contents)
    (hTarget : layout.least ≤ target)
    {removed : Bool}
    (hDelete : tree.deleteAt target = .ok (tree', removed)) :
    (removed = true ∧ ∃ below above,
      contents = below ++ target :: above ∧
      WellFormed layout tree' (below ++ above)) ∨
    (removed = false ∧ target ∉ contents ∧ tree' = tree) := by
  rcases hWell with ⟨heights, items, hRooted, hLeaves⟩
  rcases descendFrom_spec hRooted hLeaves with
    ⟨top, _, hDescend, _⟩
  unfold BPlusTree.deleteAt at hDelete
  rcases ok_of_bind hDelete with ⟨landing, hLanding, hRest⟩
  have hShallow : top ≤ maxDepth := by
    by_contra hDeep
    have hError := (hDescend target hTarget).1 (by omega)
    rw [hLanding] at hError
    cases hError
  rcases (hDescend target hTarget).2 hShallow with
    ⟨found, before, lo, after, hFound, hDescended, hLocated,
      hNode⟩
  rw [hLanding, Except.ok.injEq] at hFound
  subst hFound
  rcases hLocated with ⟨rfl, hItem, hAfter⟩
  rcases hLeaves.context with ⟨earlier, entries, later,
    rfl, hHere, hSorted, hLow, hHigh, hLater, hEarlier,
    hReplace⟩
  simp only at hHere hLow hEarlier hReplace hItem
  rw [hNode, Option.some.injEq, Node.leaf.injEq] at hHere
  rcases hHere with ⟨rfl, hNext⟩
  rcases sorted_cut hSorted target with
    ⟨below, above, hCut, hBelow, hAbove⟩
  have hIndex : lowerBound id landing.entries target =
      below.length := by
    rw [hCut]
    exact lowerBound_append hBelow hAbove
  simp only [hIndex] at hRest
  split at hRest
  · rename_i hThere
    left
    cases hRest
    rw [hCut, List.getElem?_append_right (Nat.le_refl _),
      Nat.sub_self] at hThere
    cases above with
    | nil => cases hThere
    | cons first rest =>
      rw [List.getElem?_cons_zero, Option.some.injEq]
        at hThere
      subst hThere
      have hLanded := hDescended.level.apart
      refine ⟨rfl, earlier ++ below, rest ++ later, by
        rw [hCut]
        simp, heights, _, write_rooted hDescended _, ?_⟩
      have hErased : landing.entries.eraseIdx
          below.length = below ++ rest := by
        rw [hCut, eraseIdx_append]
      have hIn : ∀ entry ∈ below ++ rest,
          entry ∈ landing.entries := by
        intro entry hMem
        rw [hCut]
        simp only [List.mem_append, List.mem_cons]
          at hMem ⊢
        tauto
      rw [hErased, List.append_assoc, ← List.append_assoc below]
      apply hReplace
      · exact fun other hMem =>
          Function.update_of_ne (hLanded.2.2.1 other hMem)
            _ _
      · rfl
      · intro other hMem
        rcases List.mem_cons.mp hMem with hOne | hBack
        · rw [hOne]
        · exact le_of_lt (lt_of_le_of_lt hItem
            (hAfter other hBack))
      · apply Leaves.cons
        · rw [← hNext]
          exact Function.update_self ..
        · rw [hCut] at hSorted
          have hParts := List.pairwise_append.mp hSorted
          exact List.pairwise_append.mpr ⟨hParts.1,
            (List.pairwise_cons.mp hParts.2.1).2,
            fun one hOne other hOther =>
              hParts.2.2 one hOne other
                (.tail _ hOther)⟩
        · exact fun entry hMem => hLow entry (hIn entry hMem)
        · exact fun entry hMem =>
            hHigh entry (hIn entry hMem)
        · apply hLater.congr
          exact fun other hMem =>
            Function.update_of_ne (hLanded.2.2.2 other hMem)
              _ _
  · rename_i hGone
    right
    cases hRest
    refine ⟨rfl, ?_, rfl⟩
    intro hMem
    rcases List.mem_append.mp hMem with hFront | hBack
    · exact absurd (lt_of_lt_of_le (hEarlier target hFront)
        hItem) (lt_irrefl _)
    · rcases List.mem_append.mp hBack with hHere | hEnd
      · rw [hCut] at hHere hGone hSorted
        rw [List.getElem?_append_right (Nat.le_refl _),
          Nat.sub_self] at hGone
        rcases List.mem_append.mp hHere with hIn | hUp
        · exact absurd (hBelow target hIn) (lt_irrefl _)
        · cases above with
          | nil => cases hUp
          | cons first rest =>
            rw [List.getElem?_cons_zero] at hGone
            have hParts := (List.pairwise_append.mp hSorted).2.1
            rw [List.pairwise_cons] at hParts
            rcases List.mem_cons.mp hUp with hIs | hIn
            · exact hGone (by rw [hIs])
            · exact absurd (lt_of_lt_of_le
                (hParts.1 target hIn)
                (hAbove first (.head _)))
                (lt_irrefl _)
      · rcases hLater.lower target hEnd with
          ⟨item, hIn, hLe⟩
        exact absurd (lt_of_lt_of_le (hAfter item hIn) hLe)
          (lt_irrefl _)

end Deletes

--
-- Walking
--

section Walks

omit [LinearOrder σ] in
theorem takeWhile_stops
    {stops : σ → Bool}
    (entries rest : List σ) :
    (entries ++ rest).takeWhile (fun entry => ¬ stops entry) =
      if entries.any stops then
        entries.takeWhile fun entry => ¬ stops entry
      else entries ++
        rest.takeWhile fun entry => ¬ stops entry := by
  induction entries with
  | nil => simp
  | cons entry others ih =>
    rw [List.cons_append, List.takeWhile_cons, ih]
    by_cases hStops : stops entry = true
    · simp [hStops]
    · have hGo : decide (¬ stops entry = true) = true := by
        simp [hStops]
      have hAny : (entry :: others).any stops =
          others.any stops := by
        simp [hStops]
      rw [if_pos hGo, hAny, List.takeWhile_cons,
        if_pos hGo]
      split <;> rfl

/- A walk along the chain gives what is there up to the first
   entry that stops it. -/
theorem walk_spec
    (hLeaves : Leaves tree.nodes items contents)
    (stops : σ → Bool)
    {fuel : Nat}
    (hFuel : items.length ≤ fuel)
    (entries : List σ) :
    tree.walk stops fuel entries
        (items.head?.map Prod.snd) =
      .ok ((entries ++ contents).takeWhile
        fun entry => ¬ stops entry) := by
  induction hLeaves generalizing fuel entries with
  | nil =>
    rw [takeWhile_stops]
    unfold BPlusTree.walk
    split
    · rfl
    · simp
  | cons hNode _ _ _ _ ih =>
    rename_i lo pageId held others rest
    rw [takeWhile_stops]
    unfold BPlusTree.walk
    split
    · rfl
    · rw [List.length_cons] at hFuel
      cases fuel with
      | zero => omega
      | succ fuel =>
        simp only [List.head?_cons, Option.map_some, hNode]
        rw [ih (by omega)]
        rfl

/- There are no more leaves than pages. -/
theorem Level.length_le
    {heights : PageId → Nat}
    {least : σ}
    {height : Nat}
    (hLevel : Level tree heights least height items) :
    items.length ≤ tree.pages.length := by
  have hSub : items.map Prod.snd ⊆ tree.pages := by
    intro pageId hMem
    rcases List.mem_map.mp hMem with ⟨item, hItem, rfl⟩
    exact (hLevel.placed item hItem).1
  have hLength := (hLevel.distinct.subperm hSub).length_le
  rwa [List.length_map] at hLength

theorem dropWhile_cut
    {below above : List σ}
    {target : σ}
    (hBelow : ∀ entry ∈ below, entry < target)
    (hAbove : ∀ entry ∈ above, target ≤ entry) :
    (below ++ above).dropWhile (fun entry =>
      entry < target) = above := by
  induction below with
  | nil =>
    cases above with
    | nil => rfl
    | cons first rest =>
      have hFirst := hAbove first (.head _)
      simp [not_lt.mpr hFirst]
  | cons entry others ih =>
    have hEntry := hBelow entry (.head _)
    rw [List.cons_append, List.dropWhile_cons]
    simp only [hEntry, decide_true, if_true]
    exact ih fun other hOther =>
      hBelow other (.tail _ hOther)

/- What a scan gives, from a tree that is not too deep. -/
def scanned
    (contents : List σ)
    (low : Option σ)
    (stops : σ → Bool) : List σ :=
  let onward := match low with
    | none => contents
    | some target => contents.dropWhile fun entry =>
      entry < target
  onward.takeWhile fun entry => ¬ stops entry

theorem scanFrom_spec
    (hWell : WellFormed layout tree contents) :
    ∃ top, Levels tree.nodes tree.root top ∧
      (maxDepth < top → ∀ target stops,
        layout.least ≤ target →
          tree.scanFrom (some target) stops =
            .error BPlusTree.tooDeep) ∧
      (top ≤ maxDepth → ∀ low stops,
        (∀ target, low = some target → layout.least ≤ target) →
        tree.scanFrom low stops =
          .ok (scanned contents low stops)) := by
  rcases hWell with ⟨heights, items, hRooted, hLeaves⟩
  rcases descendFrom_spec hRooted hLeaves with
    ⟨top, hLevels, hDescend, hFirst⟩
  have hLength := hRooted.level.length_le
  refine ⟨top, hLevels, ?_, ?_⟩
  · intro hDeep target stops hTarget
    unfold BPlusTree.scanFrom
    simp only [(hDescend target hTarget).1 hDeep]
    rfl
  · intro hShallow low stops hLow
    cases low with
    | none =>
      rcases hFirst hShallow with
        ⟨first, entries, next, hHead, hNode, hFound⟩
      unfold BPlusTree.scanFrom scanned
      simp only [hFound, bind, Except.bind]
      cases hLeaves with
      | nil => cases hHead
      | cons hHere hSorted hAbove hUnder hRest =>
        rw [List.head?_cons, Option.some.injEq] at hHead
        subst hHead
        rw [hHere, Option.some.injEq, Node.leaf.injEq]
          at hNode
        rcases hNode with ⟨rfl, rfl⟩
        rw [List.length_cons] at hLength
        exact walk_spec hRest stops (by omega) _
    | some target =>
      rcases (hDescend target (hLow target rfl)).2 hShallow
        with ⟨landing, before, lo, after, hFound, _,
          hLocated, hNode⟩
      rcases hLocated with ⟨rfl, hItem, hAfter⟩
      rcases hLeaves.context with ⟨earlier, entries, later,
        rfl, hHere, hSorted, _, _, hLater, hEarlier, _⟩
      simp only at hHere hEarlier hItem
      rw [hNode, Option.some.injEq, Node.leaf.injEq]
        at hHere
      rcases hHere with ⟨rfl, hNext⟩
      rcases sorted_cut hSorted target with
        ⟨below, above, hCut, hBelow, hAbove⟩
      have hIndex : lowerBound id landing.entries target =
          below.length := by
        rw [hCut]
        exact lowerBound_append hBelow hAbove
      have hDrop : landing.entries.drop below.length =
          above := by
        rw [hCut, List.drop_left]
      have hSkipped : (earlier ++
          (landing.entries ++ later)).dropWhile
            (fun entry => entry < target) =
          above ++ later := by
        rw [hCut, List.append_assoc, ← List.append_assoc
          earlier]
        apply dropWhile_cut
        · intro entry hMem
          rcases List.mem_append.mp hMem with hIn | hBack
          · exact lt_of_lt_of_le (hEarlier entry hIn) hItem
          · exact hBelow entry hBack
        · intro entry hMem
          rcases List.mem_append.mp hMem with hIn | hBack
          · exact hAbove entry hIn
          · rcases hLater.lower entry hBack with
              ⟨item, hOther, hLe⟩
            exact le_of_lt (lt_of_lt_of_le
              (hAfter item hOther) hLe)
      unfold BPlusTree.scanFrom scanned
      simp only [hFound, bind, Except.bind, hIndex, hDrop,
        hSkipped, hNext]
      rw [List.length_append, List.length_cons] at hLength
      exact walk_spec hLater stops (by omega) above

end Walks

end Indexing

end ChenDB
