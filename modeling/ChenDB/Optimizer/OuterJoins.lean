import Mathlib.Data.List.Induction
import ChenDB.Executor.Joins
import ChenDB.Optimizer.Nullability

/-
  Turning an outer join into the smaller join it is, when a
  filter above it proves that the rows it preserves cannot
  survive.
-/

--
-- The Rewrite
--

namespace ChenDB

namespace Optimizer

open Executor (Double Expression JoinKind LogicalNode
  LogicalScan Row Value)
open Library.OuterJoin (AgreeUpTo Dooms Step)
open Library.StateExcept (ok_of_bind)

variable {φ : Type} {width : Nat}

/- One join of a chain, without what is to its left. -/
structure Link (φ : Type) (width : Nat) where
  predicate : Expression φ
  right : LogicalNode φ width
  kind : JoinKind

/- A join of a chain whose right is a table. -/
structure ScanLink (φ : Type) (width : Nat) where
  predicate : Expression φ
  right : LogicalScan φ width
  kind : JoinKind

/- What a chain starts from, and its joins in the order they
   were typed. -/
def writtenOrder :
    LogicalNode φ width →
      LogicalNode φ width × List (Link φ width)
  | .join predicate left right kind =>
    let (leftmost, chain) := writtenOrder left
    (leftmost, chain ++
      [{ predicate := predicate
         right := right
         kind := kind }])
  | node => (node, [])

def asScan :
    LogicalNode φ width → Option (LogicalScan φ width)
  | .scan table => some table
  | _ => none

def Link.onScan (link : Link φ width) :
    Option (ScanLink φ width) :=
  (asScan link.right).map fun table =>
    { predicate := link.predicate
      right := table
      kind := link.kind }

/- The kind each join of a chain can be reduced to. The joins
   typed later are reduced first, and count as what they have
   become. -/
def reducedKinds
    (wheres : List (Expression φ)) :
    Finset Nat → List (ScanLink φ width) → List JoinKind
  | _, [] => []
  | lefts, link :: rest =>
    let later := reducedKinds wheres
      (insert link.right.position lefts) rest
    let witnesses := wheres ++
      ((rest.zip later).filter fun entry =>
        !entry.2.preservesLeft).map fun entry =>
          entry.1.predicate
    let kind :=
      if link.kind.isOuter then
        JoinKind.of
          (link.kind.preservesLeft &&
            !rejectsNulls witnesses {link.right.position})
          (link.kind.preservesRight &&
            !rejectsNulls witnesses lefts)
      else link.kind
    kind :: later

/- The chain of some joins, each with a kind. -/
def assemble
    (leftmost : LogicalNode φ width)
    (joins : List (ScanLink φ width × JoinKind)) :
    LogicalNode φ width :=
  joins.foldl (fun node entry =>
    .join entry.1.predicate node (.scan entry.1.right)
      entry.2) leftmost

def reduceJoinChain
    (root : LogicalNode φ width)
    (wheres : List (Expression φ)) : LogicalNode φ width :=
  let (leftmost, chain) := writtenOrder root
  if ¬ chain.any fun link => link.kind.isOuter then root
  else
    match asScan leftmost, chain.mapM Link.onScan with
    | some table, some links =>
      let kinds := reducedKinds wheres {table.position} links
      if kinds = links.map ScanLink.kind then root
      else assemble leftmost (links.zip kinds)
    | _, _ => root

/- `_simplify_outer_joins`, on the filters and joins of a
   plan. -/
def simplifyOuterJoins :
    LogicalNode φ width → LogicalNode φ width
  | .join predicate left right kind =>
    reduceJoinChain (.join predicate left right kind) []
  | .filter predicate (.join on left right kind) =>
    .filter predicate
      (reduceJoinChain (.join on left right kind)
        [predicate])
  | .filter predicate child =>
    .filter predicate (simplifyOuterJoins child)
  | .scan table => .scan table

--
-- Chains
--

/- Every reference to a table of the `FROM` is to a slot of
   it, as the binder leaves it. -/
def Bound
    (tables : List (LogicalScan φ width))
    (predicate : Expression φ) : Prop :=
  ∀ column ∈ references predicate, ∀ table ∈ tables,
    column.scanPosition = some table.position →
      table.owns column.columnIndex

/- No two tables share a position or a slot. -/
def Apart (first second : LogicalScan φ width) : Prop :=
  first.position ≠ second.position ∧
    ∀ index, ¬ (first.owns index ∧ second.owns index)

/- A left-deep chain of joins of tables. -/
structure Chain (φ : Type) (width : Nat) where
  first : LogicalScan φ width
  links : List (ScanLink φ width)
  apart :
    (first :: links.map ScanLink.right).Pairwise Apart
  bound : ∀ link ∈ links,
    Bound (first :: links.map ScanLink.right) link.predicate

namespace Chain

def tables (chain : Chain φ width) :
    List (LogicalScan φ width) :=
  chain.first :: chain.links.map ScanLink.right

def plan (chain : Chain φ width) : LogicalNode φ width :=
  assemble (.scan chain.first)
    (chain.links.map fun link => (link, link.kind))

/- The chain, with a WHERE above it if there is one. -/
def query
    (chain : Chain φ width) :
    Option (Expression φ) → LogicalNode φ width
  | none => chain.plan
  | some predicate => .filter predicate chain.plan

end Chain

theorem writtenOrder_assemble
    (table : LogicalScan φ width)
    (joins : List (ScanLink φ width × JoinKind)) :
    writtenOrder (assemble (.scan table) joins) =
      (.scan table, joins.map fun entry =>
        ⟨entry.1.predicate, .scan entry.1.right,
          entry.2⟩) := by
  induction joins using List.reverseRecOn with
  | nil => rfl
  | append_singleton joins entry ih =>
    unfold assemble at ih ⊢
    rw [List.foldl_append, List.foldl_cons,
      List.foldl_nil, List.map_append]
    unfold writtenOrder
    rw [ih]
    rfl

theorem mapM_onScan
    (links : List (ScanLink φ width)) :
    (links.map fun link =>
        (⟨link.predicate, .scan link.right, link.kind⟩ :
          Link φ width)).mapM Link.onScan =
      some links := by
  induction links with
  | nil => rfl
  | cons link rest ih =>
    rw [List.map_cons, List.mapM_cons, ih]
    rfl

/- The chain with its reduced kinds, which may be the ones it
   has. -/
theorem reduceJoinChain_plan
    (chain : Chain φ width)
    (wheres : List (Expression φ)) :
    reduceJoinChain chain.plan wheres = chain.plan ∨
      reduceJoinChain chain.plan wheres =
        assemble (.scan chain.first)
          (chain.links.zip (reducedKinds wheres
            {chain.first.position} chain.links)) := by
  unfold reduceJoinChain
  have hOrder := writtenOrder_assemble chain.first
    (chain.links.map fun link => (link, link.kind))
  rw [List.map_map] at hOrder
  have hChain : writtenOrder chain.plan =
      (.scan chain.first, chain.links.map fun link =>
        ⟨link.predicate, .scan link.right, link.kind⟩) :=
    hOrder
  rw [hChain]
  simp only [mapM_onScan, asScan]
  split
  · exact .inl rfl
  · split
    · exact .inl rfl
    · exact .inr rfl

--
-- Chains of Joins
--

section Rows

variable [Double φ]

/- A join of a chain, as a join of rows. -/
def stepOf (entry : ScanLink φ width × JoinKind) :
    Step (Row φ width) where
  merge := Executor.merge
    [(entry.1.right.offset, entry.1.right.columns)]
  holds := Executor.holds entry.1.predicate
  keepLeft := entry.2.preservesLeft
  keepRight := entry.2.preservesRight
  rights := entry.1.right.rows

theorem assemble_rows
    {leftmost : LogicalNode φ width}
    {joins : List (ScanLink φ width × JoinKind)}
    {rows : List (Row φ width)}
    (hOk : (assemble leftmost joins).rows = .ok rows) :
    ∃ start, leftmost.rows = .ok start ∧
      rows = Step.runChain (joins.map stepOf) start := by
  induction joins generalizing leftmost with
  | nil => exact ⟨rows, hOk, rfl⟩
  | cons entry rest ih =>
    rcases ih hOk with ⟨joined, hJoined, hRows⟩
    rcases ok_of_bind hJoined with ⟨lefts, hLefts, hRest⟩
    rcases ok_of_bind hRest with ⟨rights, hRights, hJoin⟩
    cases hRights
    refine ⟨lefts, hLefts, ?_⟩
    rw [hRows, Executor.nestedLoopJoin_ok hJoin]
    rfl

/- The row has NULL in every slot of the tables. -/
def BlankAt
    (tables : List (LogicalScan φ width))
    (row : Row φ width) : Prop :=
  ∀ table ∈ tables, ∀ index : Fin width,
    table.owns index → row index = .null

variable {all tables : List (LogicalScan φ width)}

omit [Double φ] in
theorem blank_of_blankAt
    (hSubset : ∀ table ∈ tables, table ∈ all)
    {predicate : Expression φ}
    (hBound : Bound all predicate)
    {row : Row φ width}
    (hBlank : BlankAt tables row) :
    Blank (tables.map LogicalScan.position).toFinset row
      (references predicate) := by
  intro column hColumn hSource hIndex
  cases hPosition : column.scanPosition with
  | none => simp [hPosition] at hSource
  | some position =>
    simp only [hPosition, Option.any_some,
      List.mem_toFinset, decide_eq_true_eq] at hSource
    rcases List.mem_map.mp hSource with ⟨table, hTable, hSame⟩
    apply hBlank table hTable
    apply hBound column hColumn table (hSubset table hTable)
    rw [hPosition, hSame]

omit [Double φ] in
theorem mem_slices
    {table : LogicalScan φ width}
    {left right : Row φ width}
    {index : Fin width} :
    Executor.merge [(table.offset, table.columns)] left right
        index =
      if table.owns index then right index
      else left index := by
  unfold Executor.merge
  by_cases hOwns : table.owns index
  · rw [if_pos hOwns]
    apply if_pos
    simpa [LogicalScan.owns] using hOwns
  · rw [if_neg hOwns]
    apply if_neg
    simpa [LogicalScan.owns] using hOwns

/- Joining a table leaves the slots of others as they are. -/
theorem dooms_blankAt
    {entry : ScanLink φ width × JoinKind}
    (hApart : ∀ table ∈ tables,
      ∀ index, ¬ (table.owns index ∧
        entry.1.right.owns index)) :
    Dooms (stepOf entry) (BlankAt tables) where
  merged := by
    intro left right hLeft hRight table hTable index hOwns
    have hOther : ¬ entry.1.right.owns index :=
      fun hBoth => hApart table hTable index ⟨hOwns, hBoth⟩
    unfold stepOf
    simp only [mem_slices, if_neg hOther]
    exact hLeft table hTable index hOwns
  right := by
    intro right hRight table hTable index hOwns
    apply LogicalScan.place_blank hRight
    exact fun hBoth =>
      hApart table hTable index ⟨hOwns, hBoth⟩

/- A list of predicates that rejects NULLs has one that no
   row with these tables blank meets. -/
theorem rejecting_predicate
    (hSubset : ∀ table ∈ tables, table ∈ all)
    {predicates : List (Expression φ)}
    (hBound : ∀ predicate ∈ predicates, Bound all predicate)
    (hRejects : rejectsNulls predicates
      (tables.map LogicalScan.position).toFinset = true) :
    ∃ predicate ∈ predicates,
      ∀ row : Row φ width, BlankAt tables row →
        Executor.holds predicate row = false := by
  rcases rejectsNulls_sound hRejects with
    ⟨predicate, hMem, hFalse⟩
  refine ⟨predicate, hMem, fun row hBlank => ?_⟩
  have hNot := hFalse row (blank_of_blankAt hSubset
    (hBound predicate hMem) hBlank)
  unfold Executor.holds
  split
  · rename_i hTrue
    exact absurd hTrue hNot
  · rfl

--
-- One Kind Reduced
--

/- The predicates that filter what a join hands on. -/
def witnesses
    (wheres : List (Expression φ))
    (later : List (ScanLink φ width × JoinKind)) :
    List (Expression φ) :=
  wheres ++ (later.filter fun entry =>
    !entry.2.preservesLeft).map fun entry =>
      entry.1.predicate

/- The WHERE of a query: every one of its predicates. -/
def keeps
    (wheres : List (Expression φ))
    (row : Row φ width) : Bool :=
  wheres.all fun predicate => Executor.holds predicate row

variable {wheres : List (Expression φ)}
variable {later : List (ScanLink φ width × JoinKind)}

/- Rows some witness rejects make no difference. -/
theorem agree_of_rejects
    (hSubset : ∀ table ∈ tables, table ∈ all)
    (hApart : ∀ entry ∈ later, ∀ table ∈ tables,
      ∀ index, ¬ (table.owns index ∧ entry.1.right.owns index))
    (hWheres : ∀ predicate ∈ wheres, Bound all predicate)
    (hLater : ∀ entry ∈ later, Bound all entry.1.predicate)
    (hRejects : rejectsNulls (witnesses wheres later)
      (tables.map LogicalScan.position).toFinset = true)
    {first second : List (Row φ width)}
    (hAgree : AgreeUpTo (BlankAt tables) first second) :
    ((Step.runChain (later.map stepOf) first).filter
        (keeps wheres)).Perm
      ((Step.runChain (later.map stepOf) second).filter
        (keeps wheres)) := by
  have hBound : ∀ predicate ∈ witnesses wheres later,
      Bound all predicate := by
    intro predicate hMem
    rcases List.mem_append.mp hMem with hWhere | hOn
    · exact hWheres predicate hWhere
    · rcases List.mem_map.mp hOn with ⟨entry, hEntry, rfl⟩
      exact hLater entry (List.mem_of_mem_filter hEntry)
  rcases rejecting_predicate hSubset hBound hRejects with
    ⟨predicate, hMem, hFalse⟩
  apply Library.OuterJoin.runChain_agree _ _ hAgree
  · intro step hStep
    rcases List.mem_map.mp hStep with ⟨entry, hEntry, rfl⟩
    exact dooms_blankAt (hApart entry hEntry)
  · rcases List.mem_append.mp hMem with hWhere | hOn
    · right
      intro row hBlank
      unfold keeps
      rw [List.all_eq_false]
      exact ⟨predicate, hWhere, by simp [hFalse row hBlank]⟩
    · left
      rcases List.mem_map.mp hOn with ⟨entry, hEntry, hSame⟩
      rcases List.mem_filter.mp hEntry with ⟨hIn, hDrops⟩
      refine ⟨stepOf entry, List.mem_map_of_mem hIn, ?_, ?_⟩
      · simpa [stepOf] using hDrops
      · intro row hBlank
        rw [← hSame] at hFalse
        exact hFalse row hBlank

/- The reduced kind of one join, by what filters after it. -/
def reducedKind
    (wheres : List (Expression φ))
    (later : List (ScanLink φ width × JoinKind))
    (lefts : Finset Nat)
    (link : ScanLink φ width) : JoinKind :=
  if link.kind.isOuter then
    JoinKind.of
      (link.kind.preservesLeft &&
        !rejectsNulls (witnesses wheres later)
          {link.right.position})
      (link.kind.preservesRight &&
        !rejectsNulls (witnesses wheres later) lefts)
  else link.kind

omit [Double φ] in
theorem reducedKinds_cons
    (wheres : List (Expression φ))
    (lefts : Finset Nat)
    (link : ScanLink φ width)
    (rest : List (ScanLink φ width)) :
    reducedKinds wheres lefts (link :: rest) =
      reducedKind wheres
          (rest.zip (reducedKinds wheres
            (insert link.right.position lefts) rest))
          lefts link ::
        reducedKinds wheres
          (insert link.right.position lefts) rest := rfl

variable {seen : List (LogicalScan φ width)}
variable {lefts : List (Row φ width)}

/- Giving one join its reduced kind changes nothing that the
   later joins and the WHERE leave. -/
theorem reducedKind_agree
    (hSeen : ∀ table ∈ seen, table ∈ all)
    {link : ScanLink φ width}
    (hLink : link.right ∈ all)
    (hApart : ∀ table ∈ seen,
      ∀ index, ¬ (table.owns index ∧ link.right.owns index))
    (hLaterSeen : ∀ entry ∈ later, ∀ table ∈ seen,
      ∀ index, ¬ (table.owns index ∧ entry.1.right.owns index))
    (hLaterLink : ∀ entry ∈ later,
      ∀ index, ¬ (link.right.owns index ∧
        entry.1.right.owns index))
    (hWheres : ∀ predicate ∈ wheres, Bound all predicate)
    (hLater : ∀ entry ∈ later, Bound all entry.1.predicate)
    (hLefts : ∀ row ∈ lefts, BlankAt [link.right] row) :
    ((Step.runChain (later.map stepOf)
          ((stepOf (link, link.kind)).run lefts)).filter
        (keeps wheres)).Perm
      ((Step.runChain (later.map stepOf)
          ((stepOf (link, reducedKind wheres later
            (seen.map LogicalScan.position).toFinset
              link)).run lefts)).filter
        (keeps wheres)) := by
  unfold reducedKind
  split
  · rename_i hOuter
    have hLeft : ((Step.runChain (later.map stepOf)
          ((stepOf (link, link.kind)).run lefts)).filter
            (keeps wheres)).Perm
        ((Step.runChain (later.map stepOf)
          ((stepOf (link, JoinKind.of
            (link.kind.preservesLeft &&
              !rejectsNulls (witnesses wheres later)
                {link.right.position})
            link.kind.preservesRight)).run lefts)).filter
              (keeps wheres)) := by
      cases hRejects : rejectsNulls (witnesses wheres later)
          {link.right.position} with
      | false => simp
      | true =>
        have hSources : rejectsNulls
            (witnesses wheres later)
            ([link.right].map
              LogicalScan.position).toFinset = true := by
          simpa using hRejects
        have hHere : ∀ table ∈ [link.right], table ∈ all := by
          simpa using hLink
        apply agree_of_rejects hHere
          (by simpa using hLaterLink) hWheres hLater
          hSources
        cases hKeep : link.kind.preservesLeft with
        | false =>
          simp only [Step.run, stepOf, hKeep,
            JoinKind.preservesLeft_of,
            JoinKind.preservesRight_of, Bool.false_and]
          exact AgreeUpTo.refl _
        | true =>
          simp only [Step.run, stepOf, hKeep,
            JoinKind.preservesLeft_of,
            JoinKind.preservesRight_of, Bool.not_true,
            Bool.and_false]
          exact Library.OuterJoin.agree_dropLeft _ _ _ _
            hLefts
    apply hLeft.trans
    cases hRejects : rejectsNulls (witnesses wheres later)
        (seen.map LogicalScan.position).toFinset with
    | false => simp
    | true =>
      apply agree_of_rejects hSeen hLaterSeen hWheres
        hLater hRejects
      cases hKeep : link.kind.preservesRight with
      | false =>
        simp only [Bool.false_and]
        exact AgreeUpTo.refl _
      | true =>
        simp only [Step.run, stepOf, JoinKind.preservesLeft_of,
          JoinKind.preservesRight_of, Bool.not_true,
          Bool.and_false]
        have hDooms : Dooms (stepOf (link, link.kind))
            (BlankAt seen) := dooms_blankAt hApart
        apply Library.OuterJoin.agree_dropRight
        exact hDooms.right
  · exact List.Perm.refl _

/- Every kind reduced, from the outermost join in. -/
theorem reducedKinds_agree
    (hWheres : ∀ predicate ∈ wheres, Bound all predicate)
    {links : List (ScanLink φ width)}
    (hApart :
      (seen ++ links.map ScanLink.right).Pairwise Apart)
    (hAll : ∀ table ∈ seen ++ links.map ScanLink.right,
      table ∈ all)
    (hLinks : ∀ link ∈ links, Bound all link.predicate)
    (hLefts : ∀ row ∈ lefts,
      BlankAt (links.map ScanLink.right) row) :
    ((Step.runChain
        (links.map fun link => stepOf (link, link.kind))
          lefts).filter (keeps wheres)).Perm
      ((Step.runChain
        ((links.zip (reducedKinds wheres
          (seen.map LogicalScan.position).toFinset
            links)).map stepOf) lefts).filter
              (keeps wheres)) := by
  induction links generalizing seen lefts with
  | nil => exact List.Perm.refl _
  | cons link rest ih =>
    have hPairs := List.pairwise_append.mp hApart
    have hTail := List.pairwise_cons.mp hPairs.2.1
    have hSeen : (seen ++ [link.right] ++
        rest.map ScanLink.right).Pairwise Apart := by
      rw [List.append_assoc]
      exact hApart
    have hPositions :
        ((seen ++ [link.right]).map
          LogicalScan.position).toFinset =
        insert link.right.position
          (seen.map LogicalScan.position).toFinset := by
      ext position
      simp
    have hOnce : ∀ row ∈ (stepOf (link, link.kind)).run
        lefts, BlankAt (rest.map ScanLink.right) row := by
      apply Library.OuterJoin.doomed_of_run
      · apply dooms_blankAt
        intro table hTable index hBoth
        exact (hTail.1 table hTable).2 index
          ⟨hBoth.2, hBoth.1⟩
      · intro row hRow table hTable
        exact hLefts row hRow table
          (.tail _ hTable)
    have hInner := ih hSeen
      (by
        intro table hTable
        apply hAll
        simpa [List.append_assoc] using hTable)
      (fun other hOther =>
        hLinks other (.tail _ hOther))
      hOnce
    rw [hPositions] at hInner
    rw [reducedKinds_cons]
    apply hInner.trans
    have hEntry : ∀ {kinds : List JoinKind},
        ∀ entry ∈ rest.zip kinds, entry.1 ∈ rest := by
      intro kinds entry hMem
      exact (List.of_mem_zip hMem).1
    apply reducedKind_agree
    · intro table hTable
      exact hAll table (List.mem_append_left _ hTable)
    · exact hAll _ (List.mem_append_right _
        (.head _))
    · intro table hTable
      exact (hPairs.2.2 table hTable _
        (.head _)).2
    · intro entry hMem table hTable
      exact (hPairs.2.2 table hTable _
        (.tail _ (List.mem_map_of_mem
          (hEntry entry hMem)))).2
    · intro entry hMem
      exact (hTail.1 _ (List.mem_map_of_mem
        (hEntry entry hMem))).2
    · exact hWheres
    · intro entry hMem
      exact hLinks _ (List.mem_cons_of_mem _
        (hEntry entry hMem))
    · intro row hRow table hTable
      rw [List.mem_singleton] at hTable
      rw [hTable]
      exact hLefts row hRow _ (.head _)

--
-- The Whole Rewrite
--

theorem chain_agree
    (chain : Chain φ width)
    (hWheres : ∀ predicate ∈ wheres,
      Bound chain.tables predicate)
    {before after : List (Row φ width)}
    (hBefore : chain.plan.rows = .ok before)
    (hAfter :
      (reduceJoinChain chain.plan wheres).rows = .ok after) :
    (before.filter (keeps wheres)).Perm
      (after.filter (keeps wheres)) := by
  rcases reduceJoinChain_plan chain wheres with
    hSame | hReduced
  · rw [hSame, hBefore, Except.ok.injEq] at hAfter
    rw [hAfter]
  · rw [hReduced] at hAfter
    rcases assemble_rows hBefore with ⟨start, hStart, hRows⟩
    rcases assemble_rows hAfter with ⟨start', hStart', hRows'⟩
    cases hStart
    cases hStart'
    rw [hRows, hRows', List.map_map]
    have hAgree := reducedKinds_agree hWheres
      (show ([chain.first] ++ chain.links.map
        ScanLink.right).Pairwise Apart from chain.apart)
      (fun table hTable => hTable) chain.bound
      (show ∀ row ∈ chain.first.rows,
          BlankAt (chain.links.map ScanLink.right) row by
        intro row hRow table hTable index hOwns
        apply LogicalScan.place_blank hRow
        intro hFirst
        exact ((List.pairwise_cons.mp chain.apart).1 table
          hTable).2 index ⟨hFirst, hOwns⟩)
    simp only [Function.comp_def]
    simpa using hAgree

omit [Double φ] in
theorem assemble_cases
    (table : LogicalScan φ width)
    (joins : List (ScanLink φ width × JoinKind)) :
    assemble (.scan table) joins = .scan table ∨
      ∃ predicate left right kind,
        assemble (.scan table) joins =
          .join predicate left right kind := by
  induction joins using List.reverseRecOn with
  | nil => exact .inl rfl
  | append_singleton joins entry _ =>
    right
    unfold assemble
    rw [List.foldl_append]
    exact ⟨_, _, _, _, rfl⟩

omit [Double φ] in
theorem simplifyOuterJoins_query
    (chain : Chain φ width)
    (filter : Option (Expression φ)) :
    simplifyOuterJoins (chain.query filter) =
      match filter with
      | none => reduceJoinChain chain.plan []
      | some predicate => .filter predicate
          (reduceJoinChain chain.plan [predicate]) := by
  rcases assemble_cases chain.first
    (chain.links.map fun link => (link, link.kind)) with
      hScan | ⟨predicate, left, right, kind, hJoin⟩
  · have hPlan : chain.plan = .scan chain.first := hScan
    unfold Chain.query
    cases filter with
    | none =>
      simp only [hPlan]
      rfl
    | some condition =>
      simp only [hPlan]
      rfl
  · have hPlan : chain.plan =
        .join predicate left right kind := hJoin
    unfold Chain.query
    cases filter with
    | none =>
      simp only [hPlan]
      rfl
    | some condition =>
      simp only [hPlan]
      rfl

/-
  A chain of joins, rewritten under its WHERE or with none,
  has the rows it had, in some order, whenever neither the
  plan as written nor the rewritten one raises.
-/
theorem simplifyOuterJoins_sound
    (chain : Chain φ width)
    (filter : Option (Expression φ))
    (hFilter : ∀ predicate ∈ filter,
      Bound chain.tables predicate)
    {before after : List (Row φ width)}
    (hBefore : (chain.query filter).rows = .ok before)
    (hAfter : (simplifyOuterJoins
      (chain.query filter)).rows = .ok after) :
    before.Perm after := by
  rw [simplifyOuterJoins_query] at hAfter
  cases filter with
  | none =>
    have hAll : ∀ rows : List (Row φ width),
        rows.filter (keeps []) = rows := by
      intro rows
      apply List.filter_eq_self.mpr
      exact fun row _ => rfl
    have hAgree := chain_agree chain
      (fun predicate hMem => absurd hMem (by simp))
      hBefore hAfter
    rw [hAll, hAll] at hAgree
    exact hAgree
  | some predicate =>
    have hWheres : ∀ other ∈ [predicate],
        Bound chain.tables other := by
      intro other hOther
      rw [List.mem_singleton] at hOther
      rw [hOther]
      exact hFilter predicate rfl
    have hKeeps : ∀ rows : List (Row φ width),
        rows.filter (keeps [predicate]) =
          rows.filter (Executor.holds predicate) := by
      intro rows
      apply List.filter_congr
      intro row _
      simp [keeps]
    rcases ok_of_bind hBefore with ⟨rows, hRows, hFirst⟩
    rcases ok_of_bind hAfter with ⟨rows', hRows', hSecond⟩
    have hAgree := chain_agree chain hWheres hRows hRows'
    rw [hKeeps, hKeeps] at hAgree
    rw [Executor.filterRows_ok hFirst,
      Executor.filterRows_ok hSecond]
    exact hAgree

end Rows

def columnOf
    (name : String)
    (index position : Nat) : Expression Rat :=
  .column
    { name := name
      columnIndex := index
      scanPosition := some position }

/- `a LEFT JOIN b ON a.id = b.id`, over two rows and one. -/
def leftChain : Chain Rat 3 where
  first :=
    { position := 0
      offset := 0
      columns := 1
      contents := [fun _ => .int 1, fun _ => .int 2] }
  links :=
    [{ predicate :=
        .binaryOp .eq (columnOf "id" 0 0) (columnOf "id" 1 1)
       right :=
        { position := 1
          offset := 1
          columns := 2
          contents :=
            [fun index =>
              if index = 0 then .int 1 else .int 5] }
       kind := .left }]
  apart := by
    simp [Apart, LogicalScan.owns]
  bound := by
    simp [Bound, references, columnOf, LogicalScan.owns]

/- `WHERE b.x = 5`. -/
def whereFive : Expression Rat :=
  .binaryOp .eq (columnOf "x" 2 1) (.literal (.int 5))

/- The rows a plan comes to, column by column, if any. -/
def printed
    (plan : LogicalNode Rat 3) :
    Option (List (List (Value Rat))) :=
  plan.rows.toOption.map fun rows => rows.map List.ofFn

theorem rows_of_printed
    {plan : LogicalNode Rat 3}
    {table : List (List (Value Rat))}
    (hPrinted : printed plan = some table) :
    ∃ rows, plan.rows = .ok rows ∧
      rows.map List.ofFn = table := by
  rcases Option.map_eq_some_iff.mp hPrinted with
    ⟨rows, hRows, hTable⟩
  refine ⟨rows, ?_, hTable⟩
  cases hOk : plan.rows with
  | error raised =>
    rw [hOk] at hRows
    cases hRows
  | ok found =>
    rw [hOk] at hRows
    cases hRows
    rfl

/- The row of `a` without a partner goes either way. -/
theorem simplifyOuterJoins_left :
    ∃ before after : List (Row Rat 3),
      before.map List.ofFn = [[.int 1, .int 1, .int 5]] ∧
      after.map List.ofFn = [[.int 1, .int 1, .int 5]] ∧
      before.Perm after := by
  rcases rows_of_printed (show
    printed (leftChain.query (some whereFive)) =
      some [[.int 1, .int 1, .int 5]] by decide +kernel) with
    ⟨before, hBefore, hRows⟩
  rcases rows_of_printed (show
    printed (simplifyOuterJoins
        (leftChain.query (some whereFive))) =
      some [[.int 1, .int 1, .int 5]] by decide +kernel) with
    ⟨after, hAfter, hRows'⟩
  have hFilter : ∀ predicate ∈ some whereFive,
      Bound leftChain.tables predicate := by
    simp [Bound, references, whereFive, columnOf,
      Chain.tables, leftChain, LogicalScan.owns]
  exact ⟨before, after, hRows, hRows',
    simplifyOuterJoins_sound leftChain (some whereFive)
      hFilter hBefore hAfter⟩

end Optimizer

end ChenDB
