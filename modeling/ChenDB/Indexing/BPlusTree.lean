import ChenDB.Indexing.Node

/-
  The B+ tree over its pages: descents that remember their
  path, inserts that split nodes upward along it, deletes
  that leave nodes as empty as they get, and walks along the
  chain of leaves.
-/

--
-- Trees over Pages
--

namespace ChenDB

namespace Indexing

variable {σ α : Type}

structure BPlusTree (σ : Type) where
  nodes : PageId → Option (Node σ)
  /- Every page the tree was ever given. -/
  pages : List PageId
  /- What `allocate_page` hands out next. -/
  supply : List PageId
  root : PageId

/- A tree deeper than this is taken for a cycle. -/
def maxDepth : Nat := 32

/- A path, innermost step first: the nodes passed and which
   child was taken there. -/
abbrev Path := List (PageId × Nat)

namespace BPlusTree

def write
    (tree : BPlusTree σ)
    (pageId : PageId)
    (node : Node σ) : BPlusTree σ :=
  { tree with
    nodes := Function.update tree.nodes pageId (some node) }

/- The pager never hands out a page that is in use. -/
def allocate
    (tree : BPlusTree σ) :
    Except EngineError (PageId × BPlusTree σ) :=
  match tree.supply with
  | [] => .error (.chenDBError "no page to allocate")
  | pageId :: rest =>
    if pageId ∈ tree.pages then
      .error (.chenDBError s!"page {pageId} is in use")
    else
      .ok (pageId, { tree with
        pages := pageId :: tree.pages
        supply := rest })

/- `BPlusTree.create`: one empty leaf, which is the root. -/
def create (root : PageId) : BPlusTree σ where
  nodes := fun pageId =>
    if pageId = root then some (.leaf [] none) else none
  pages := [root]
  supply := []
  root := root

def notANode (pageId : PageId) : EngineError :=
  .corruptPage s!"page {pageId} is not a B+ tree node"

def tooDeep : EngineError :=
  .corruptPage
    (s!"descent exceeded {maxDepth} levels, the page " ++
      "chain is cyclic")

/- What a descent comes to: a leaf, and the way there. -/
structure Landing (σ : Type) where
  pageId : PageId
  entries : List σ
  next : Option PageId
  path : Path
deriving DecidableEq, Repr

section Descent

variable [LinearOrder σ]

/- Walk from a node to the leaf that would hold the target,
   through so many levels at most. -/
def descend
    (tree : BPlusTree σ)
    (target : σ) :
    Nat → PageId → Path → Except EngineError (Landing σ)
  | fuel, pageId, path =>
    match tree.nodes pageId, fuel with
    | none, _ => .error (notANode pageId)
    | some (.leaf entries next), _ =>
      .ok ⟨pageId, entries, next, path⟩
    | some (.internal _), 0 => .error tooDeep
    | some (.internal entries), fuel + 1 => do
        let index ← childIndexFor entries target
        match entries[index]? with
        | none => throw (.corruptPage
            s!"page {pageId}: slot {index} is dead")
        | some entry =>
          descend tree target fuel entry.2
            ((pageId, index) :: path)

def descendFrom
    (tree : BPlusTree σ)
    (target : σ) : Except EngineError (Landing σ) :=
  tree.descend target maxDepth tree.root []

end Descent

/- The first leaf of the chain. -/
def leftmostLeaf
    (tree : BPlusTree σ) :
    Nat → PageId → Except EngineError (Landing σ)
  | fuel, pageId =>
    match tree.nodes pageId, fuel with
    | none, _ => .error (notANode pageId)
    | some (.leaf entries next), _ =>
      .ok ⟨pageId, entries, next, []⟩
    | some (.internal _), 0 =>
      .error (.corruptPage "cyclic page chain")
    | some (.internal entries), fuel + 1 =>
      match entries.head? with
      | none => .error (.corruptPage
          s!"page {pageId}: slot 0 is dead")
      | some entry => leftmostLeaf tree fuel entry.2

--
-- Inserting
--

section Insert

variable [LinearOrder σ] (layout : Layout σ)

/- The entry at its place among the others. -/
def insertSorted
    (sortKey : α → σ)
    (entries : List α)
    (entry : α) : List α :=
  entries.insertIdx
    (lowerBound sortKey entries (sortKey entry)) entry

def oversized (layout : Layout σ) (payload : Nat) :
    EngineError :=
  .recordTooLarge
    (s!"index entry of {payload} bytes exceeds the " ++
      s!"{layout.maxPayloadSize}-byte limit for a " ++
      s!"{layout.pageSize}-byte page")

/- `insert_entry`, with the compaction that comes before a
   split: none when the node is full. -/
def insertEntry
    (sortKey : α → σ)
    (width : α → Nat)
    (entries : List α)
    (entry : α) : Except EngineError (Option (List α)) :=
  if width entry > layout.usableBytes then
    .error (oversized layout
      (width entry - Storage.slotSize))
  else if (entries.map width).sum + width entry >
      layout.usableBytes then
    .ok none
  else .ok (some (insertSorted sortKey entries entry))

/- What `replace_all` raises at the first entry that does not
   fit: `insert_at` refuses one that fits no page. -/
def replaceRaises
    (width : α → Nat)
    (pageId : PageId)
    (entries : List α) : EngineError :=
  let failed := fitting layout.usableBytes 0
    (entries.map width)
  match (entries.map width)[failed]?.filter
      (layout.usableBytes < ·) with
  | some wide => oversized layout (wide - Storage.slotSize)
  | none => .indexingError
      (s!"page {pageId}: {entries.length} entries do not " ++
        s!"fit after a split (failed at {failed})")

/- `replace_all`: the entries have to fit. -/
def replaceAll
    (width : α → Nat)
    (pageId : PageId)
    (entries : List α) : Except EngineError Unit :=
  if (entries.map width).sum > layout.usableBytes then
    .error (replaceRaises layout width pageId entries)
  else .ok ()

/- Add a level, the old root as its leftmost child. -/
def growRoot
    (tree : BPlusTree σ)
    (leftId : PageId)
    (separator : σ × PageId) :
    Except EngineError (BPlusTree σ) := do
  let (pageId, tree) ← tree.allocate
  let entries := [(layout.least, leftId), separator]
  replaceAll layout layout.childWidth pageId entries
  return { tree.write pageId (.internal entries) with
    root := pageId }

/- Place a separator in the parent of a node that split,
   splitting upward where that is full. -/
def insertIntoParent :
    Path → BPlusTree σ → PageId → σ × PageId →
      Except EngineError (BPlusTree σ)
  | [], tree, leftId, separator =>
    growRoot layout tree leftId separator
  | (parentId, _) :: rest, tree, _, separator =>
    match tree.nodes parentId with
    | some (.internal entries) => do
        match ← insertEntry layout Prod.fst
            layout.childWidth entries separator with
        | some grown =>
          return tree.write parentId (.internal grown)
        | none =>
          let all := insertSorted Prod.fst entries
            separator
          let cut ← planSplit
            (all.map layout.childWidth)
            layout.usableBytes
          match all[cut]? with
          | none => throw (.indexingError "no such cut")
          | some promoted =>
            let left := all.take cut
            let right := (layout.least, promoted.2) ::
              all.drop (cut + 1)
            let (siblingId, tree) ← tree.allocate
            replaceAll layout layout.childWidth
              siblingId right
            replaceAll layout layout.childWidth
              parentId left
            insertIntoParent rest
              ((tree.write siblingId
                (.internal right)).write parentId
                  (.internal left))
              parentId (promoted.1, siblingId)
    | _ => .error (notANode parentId)

/- Split a full leaf, and push a separator, a copy of the
   right half's first key, into the parent. -/
def splitLeaf
    (tree : BPlusTree σ)
    (leaf : Landing σ)
    (entry : σ) : Except EngineError (BPlusTree σ) := do
  let all := insertSorted id leaf.entries entry
  let cut ← planSplit (all.map layout.leafWidth)
    layout.usableBytes
  match all[cut]? with
  | none => throw (.indexingError "no such cut")
  | some first =>
    let left := all.take cut
    let right := all.drop cut
    let (siblingId, tree) ← tree.allocate
    replaceAll layout layout.leafWidth siblingId right
    replaceAll layout layout.leafWidth leaf.pageId left
    insertIntoParent layout leaf.path
      ((tree.write siblingId
        (.leaf right leaf.next)).write leaf.pageId
          (.leaf left (some siblingId)))
      leaf.pageId (first, siblingId)

/- Add one entry, splitting nodes upward as needed. -/
def insertAt
    (tree : BPlusTree σ)
    (entry : σ) : Except EngineError (BPlusTree σ) := do
  let leaf ← tree.descendFrom entry
  match ← insertEntry layout id layout.leafWidth leaf.entries
      entry with
  | some grown =>
    return tree.write leaf.pageId (.leaf grown leaf.next)
  | none => splitLeaf layout tree leaf entry

end Insert

--
-- Deleting and Walking
--

section Delete

variable [LinearOrder σ]

/- Remove one entry; whether it was there. -/
def deleteAt
    (tree : BPlusTree σ)
    (entry : σ) : Except EngineError (BPlusTree σ × Bool) := do
  let leaf ← tree.descendFrom entry
  let index := lowerBound id leaf.entries entry
  if leaf.entries[index]? = some entry then
    return (tree.write leaf.pageId
      (.leaf (leaf.entries.eraseIdx index) leaf.next), true)
  else return (tree, false)

end Delete

/- The entries from a place in a leaf on, up to the first
   that `stops`; the chain has no more leaves than the tree
   has pages. -/
def walk
    (tree : BPlusTree σ)
    (stops : σ → Bool) :
    Nat → List σ → Option PageId → Except EngineError (List σ)
  | fuel, entries, next =>
    if entries.any stops then
      .ok (entries.takeWhile fun entry => ¬ stops entry)
    else
      match next, fuel with
      | none, _ => .ok entries
      | some _, 0 =>
        .error (.corruptPage "the leaf chain is cyclic")
      | some pageId, fuel + 1 =>
        match tree.nodes pageId with
        | some (.leaf others after) => do
            let rest ← walk tree stops fuel others after
            return entries ++ rest
        | _ => .error (notANode pageId)

/- A walk from the first entry not below a bound, or from the
   first of all. -/
def scanFrom [LinearOrder σ]
    (tree : BPlusTree σ)
    (low : Option σ)
    (stops : σ → Bool) : Except EngineError (List σ) := do
  match low with
  | none =>
    let leaf ← tree.leftmostLeaf maxDepth tree.root
    tree.walk stops tree.pages.length leaf.entries leaf.next
  | some target =>
    let leaf ← tree.descendFrom target
    let index := lowerBound id leaf.entries target
    tree.walk stops tree.pages.length
      (leaf.entries.drop index) leaf.next

end BPlusTree

end Indexing

end ChenDB
