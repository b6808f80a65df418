import ChenDB.Executor.GroupedSelects

/-
  The output column that each `ORDER BY` term comes to.

  A name and an expression come to a column that is there and
  reads the same. An ordinal is checked against the number of
  distinct names and distinct signatures taken together, and
  not against the number of columns.
-/

--
-- New Lists
--

namespace ChenDB

namespace Executor

open BoundExpression (bare walk walkItems)
open Indexing (DataType)
open Library.StateExcept (Triple ok_of_run_bind)
open Library.Traversal (exists_of_forall₂ forall₂_of_mem
  ok_of_run_tryCatch triple_liftExcept)

variable {φ : Type}
variable {start next : Nat}

/- Every `IN` list here was made at `start` or later. -/
def MadeFrom
    (start : Nat)
    (nodes : List (BoundExpression φ)) : Prop :=
  ∀ node ∈ nodes, ∀ identity,
    node.identity = some identity → start ≤ identity

namespace MadeFrom

variable {nodes others : List (BoundExpression φ)}

theorem mono
    (hMade : MadeFrom start nodes)
    (hSub : others ⊆ nodes) :
    MadeFrom start others :=
  fun node hNode => hMade node (hSub hNode)

theorem cons
    (hMade : MadeFrom start nodes)
    {node : BoundExpression φ}
    (hIdentity : ∀ identity,
      node.identity = some identity → start ≤ identity) :
    MadeFrom start (node :: nodes) := by
  intro other hOther identity hSame
  rcases List.mem_cons.mp hOther with rfl | hOther
  · exact hIdentity identity hSame
  · exact hMade other hOther identity hSame

theorem append
    (hMade : MadeFrom start nodes)
    (hOthers : MadeFrom start others) :
    MadeFrom start (nodes ++ others) := by
  intro node hNode
  rcases List.mem_append.mp hNode with hNode | hNode
  · exact hMade node hNode
  · exact hOthers node hNode

theorem single
    {node : BoundExpression φ}
    (hIdentity : node.identity = none) :
    MadeFrom start [node] := by
  intro other hOther identity hSame
  rw [List.mem_singleton.mp hOther, hIdentity] at hSame
  cases hSame

end MadeFrom

section Binding

variable [Spelling φ]

/- Binding from `start` on makes its lists from `start` on. -/
abbrev Makes {α : Type}
    (start : Nat)
    (program : BindM α)
    (nodes : α → List (BoundExpression φ)) : Prop :=
  Triple (fun next => start ≤ next) program
    (fun value next =>
      start ≤ next ∧ MadeFrom start (nodes value))
    (fun _ _ => True)

omit [Spelling φ] in
/- What is made of a part adds a node that is no list. -/
theorem Makes.map {α β : Type}
    {start : Nat}
    {first : BindM α}
    {make : α → β}
    {nodes : α → List (BoundExpression φ)}
    {others : β → List (BoundExpression φ)}
    (hFirst : Makes start first nodes)
    (hMake : ∀ value, MadeFrom start (nodes value) →
      MadeFrom start (others (make value))) :
    Makes start (first >>= fun value => pure (make value))
      others := by
  refine Triple.bind hFirst fun value => ?_
  exact Triple.pure fun next hNext =>
    ⟨hNext.1, hMake value hNext.2⟩

mutual

theorem bindExpression_makes
    (scope : Scope)
    (start : Nat) :
    ∀ expression : Parser.Expression φ,
      Makes start (bindExpression scope expression)
        BoundExpression.walk
  | .columnRef node name table => by
      unfold bindExpression
      refine Triple.bind (Q := fun _ next => start ≤ next)
        (triple_liftExcept (fun _ _ _ hNext => hNext)
          (fun _ _ _ => trivial)) fun column => ?_
      exact Triple.pure fun next hNext =>
        ⟨hNext, MadeFrom.single rfl⟩
  | .literal node value dataType => by
      unfold bindExpression
      exact Triple.pure fun next hNext =>
        ⟨hNext, MadeFrom.single rfl⟩
  | .star node table => Triple.throw fun _ _ => trivial
  | .countRows node => by
      unfold bindExpression
      exact Triple.pure fun next hNext =>
        ⟨hNext, MadeFrom.single rfl⟩
  | .functionCall node function argument => by
      unfold bindExpression
      exact (bindExpression_makes scope start argument).map
        fun bound hBound => hBound.cons nofun
  | .unaryOp node op operand => by
      unfold bindExpression
      exact (bindExpression_makes scope start operand).map
        fun bound hBound => hBound.cons nofun
  | .binaryOp node op left right => by
      unfold bindExpression
      refine Triple.bind
        (bindExpression_makes scope start left)
        fun first => Triple.assume fun hFirst => ?_
      exact (bindExpression_makes scope start right).map
        fun second hSecond =>
          (hFirst.append hSecond).cons nofun
  | .isNullTest node operand negated => by
      unfold bindExpression
      exact (bindExpression_makes scope start operand).map
        fun bound hBound => hBound.cons nofun
  | .inList node operand items negated => by
      unfold bindExpression
      refine Triple.bind
        (bindExpression_makes scope start operand)
        fun bound => Triple.assume fun hBound => ?_
      refine Triple.bind (bindItems_makes scope start items)
        fun boundItems => Triple.assume fun hItems => ?_
      intro next hNext
      have hWalk := hBound.append hItems
      refine ⟨Nat.le_succ_of_le hNext, hWalk.cons ?_⟩
      intro identity hIdentity
      cases hIdentity
      exact hNext
  | .scalarSubquery node =>
    Triple.throw fun _ _ => trivial

theorem bindItems_makes
    (scope : Scope)
    (start : Nat) :
    ∀ items : Parser.Items φ,
      Makes start (bindItems scope items) walkItems
  | .one item => by
      unfold bindItems
      exact (bindExpression_makes scope start item).map
        fun bound hBound => hBound
  | .more item rest => by
      unfold bindItems
      refine Triple.bind
        (bindExpression_makes scope start item)
        fun bound => Triple.assume fun hBound => ?_
      exact (bindItems_makes scope start rest).map
        fun others hOthers => hBound.append hOthers

end

end Binding

--
-- Lists in a Signature
--

/- No call, and no list but those made before `next`. -/
def Signature.MadeBefore
    (next : Nat) : Signature φ → Prop
  | .col _ => True
  | .lit _ _ => True
  | .rows => False
  | .agg _ _ => False
  | .un _ operand => operand.MadeBefore next
  | .bin _ left right =>
    left.MadeBefore next ∧ right.MadeBefore next
  | .null _ operand => operand.MadeBefore next
  | .other identity => identity < next

section Rewriting

variable [Spelling φ] [DecidableEq φ]
variable {keys : List (BoundExpression φ)} {seen : Seen φ}
variable {expression rewritten : BoundExpression φ}

theorem rewrites_madeBefore
    (hRewrites : Rewrites keys seen expression rewritten)
    (hCalls : ∀ call ∈ expression.calls,
      (seen.lookup (signature call)).isSome)
    (hLists : ∀ node ∈ expression.walk, ∀ identity,
      node.identity = some identity → identity < next) :
    (signature rewritten).MadeBefore next := by
  induction hRewrites with
  | slot hSlot =>
    rcases groupSlot_cases hSlot with
      ⟨_, _, _, _, _, _, rfl⟩ | ⟨_, _, _, _, rfl⟩ <;>
      exact trivial
  | literal => exact trivial
  | @call expression hSlot hCall =>
    have hSome := hCalls expression
      (List.mem_filter.mpr
        ⟨BoundExpression.mem_walk_self expression, hCall⟩)
    rw [(groupSlot_none hSlot).2] at hSome
    cases hSome
  | inList hSlot =>
    exact hLists _ (BoundExpression.mem_walk_self _) _ rfl
  | unaryOp hSlot hOperand ih =>
    exact ih
      (fun call hCall => hCalls call
        (by simp_all [BoundExpression.calls, walk]))
      fun node hNode => hLists node (by simp [walk, hNode])
  | binaryOp hSlot hLeft hRight ihLeft ihRight =>
    constructor
    · exact ihLeft
        (fun call hCall => hCalls call
          (by simp_all [BoundExpression.calls, walk]))
        fun node hNode =>
          hLists node (by simp [walk, hNode])
    · exact ihRight
        (fun call hCall => hCalls call
          (by simp_all [BoundExpression.calls, walk]))
        fun node hNode =>
          hLists node (by simp [walk, hNode])
  | isNullTest hSlot hOperand ih =>
    exact ih
      (fun call hCall => hCalls call
        (by simp_all [BoundExpression.calls, walk]))
      fun node hNode => hLists node (by simp [walk, hNode])

/- A term with a new list in sight has the signature of no
   column, and one without a list is settled. -/
theorem settled_of_madeBefore
    (hRewrites : Rewrites keys seen expression rewritten)
    (hLists : MadeFrom next expression.walk)
    (hBefore : (signature rewritten).MadeBefore next) :
    settled rewritten := by
  induction hRewrites with
  | slot hSlot =>
    rcases groupSlot_cases hSlot with
      ⟨_, _, _, _, _, _, rfl⟩ | ⟨_, _, _, _, rfl⟩ <;> rfl
  | literal => rfl
  | @call expression hSlot hCall =>
    cases expression with
    | countRows node => exact hBefore.elim
    | functionCall node function argument =>
      exact hBefore.elim
    | _ => cases hCall
  | inList hSlot =>
    have hNew := hLists _
      (BoundExpression.mem_walk_self _) _ rfl
    exact absurd hBefore (Nat.not_lt.mpr hNew)
  | unaryOp hSlot hOperand ih =>
    exact ih (hLists.mono (by simp [walk])) hBefore
  | binaryOp hSlot hLeft hRight ihLeft ihRight =>
    have hFirst := ihLeft (hLists.mono (by simp [walk]))
      hBefore.1
    have hSecond := ihRight (hLists.mono (by simp [walk]))
      hBefore.2
    simp only [settled, hFirst, hSecond, Bool.and_self]
  | isNullTest hSlot hOperand ih =>
    exact ih (hLists.mono (by simp [walk])) hBefore

end Rewriting

--
-- Values of a Term
--

section Values

variable [Double φ] [TrueDivision φ]

/- The grouped row of these rows, one of which is `row`; with
   no key there is one too when there are no rows. -/
def IsGroupRow {width : Nat}
    (aggregation : BoundAggregation φ)
    (rows : List (Row φ width))
    (row : Row φ width)
    (grouped : List (Value φ)) : Prop :=
  (IsGroup aggregation rows grouped ∧ row ∈ rows) ∨
    (rows = [] ∧ aggregation.groupKeys = [] ∧
      aggregation.aggregates.mapM
          (fun entry => overGroup rows entry.aggregate) =
        .ok grouped)

theorem IsGroupRow.holds {width : Nat}
    {aggregation : BoundAggregation φ}
    {rows : List (Row φ width)}
    {row : Row φ width}
    {grouped : List (Value φ)}
    (hGroup : IsGroupRow aggregation rows row grouped) :
    Holds aggregation rows row grouped := by
  rcases hGroup with ⟨hGroup, hRow⟩ | ⟨_, hKeys, hOver⟩
  · exact hGroup.holds hRow
  · constructor
    · intro index key hKey
      rw [hKeys] at hKey
      cases hKey
    · intro index entry hEntry
      have hEach := List.forall₂_iff_get.mp
        (Library.Traversal.forall₂_of_mapM hOver)
      rcases List.getElem?_eq_some_iff.mp hEntry with
        ⟨hIndex, hAt⟩
      have hHere : index < grouped.length := by
        rw [← hEach.1]
        exact hIndex
      refine ⟨grouped[index], ?_, ?_⟩
      · rw [hKeys, List.length_nil, Nat.zero_add]
        exact List.getElem?_eq_getElem hHere
      · have hValue := hEach.2 index hIndex hHere
        rw [List.get_eq_getElem, hAt] at hValue
        exact hValue

/- The projection is what the term is: on every row, and in a
   grouped query on the row of every group. -/
def SameValues
    (width : Nat)
    (aggregation : Option (BoundAggregation φ))
    (term projection : BoundExpression φ) : Prop :=
  match aggregation with
  | none => ∀ row : Row φ width,
      evaluateBound row term = evaluateBound row projection
  | some aggregation =>
    ∀ (rows : List (Row φ width)) row grouped,
      IsGroupRow aggregation rows row grouped →
        evaluateOver rows row term =
          evaluateBound grouped.get projection

theorem SameValues.congr
    {width : Nat}
    {aggregation : Option (BoundAggregation φ)}
    {term term' projection : BoundExpression φ}
    (hSame : SameValues width aggregation term projection)
    (hBare : term.bare = term'.bare) :
    SameValues width aggregation term' projection := by
  cases aggregation with
  | none =>
    intro row
    rw [← evaluateBound_bare, ← hBare, evaluateBound_bare]
    exact hSame row
  | some aggregation =>
    intro rows row grouped hGroup
    rw [← evaluateOver_congr rows row hBare]
    exact hSame rows row grouped hGroup

variable [Spelling φ] [DecidableEq φ]

/- The column that an expression comes to reads the same. -/
theorem sortExpression_same
    {catalog : Catalog}
    {statement : Parser.SelectStatement φ}
    {start next later final : Nat}
    {clauses : BoundClauses φ}
    {planned : List (BoundExpression φ) ×
      Option (BoundAggregation φ)}
    (hClauses : (bindClauses catalog statement).run start =
      .ok clauses next)
    (hPlan : planAggregation clauses.projections
      clauses.groupKeys clauses.having = .ok planned)
    (hLater : next ≤ later)
    {expression : Parser.Expression φ}
    {bound : BoundExpression φ}
    (hBound : (bindExpression clauses.scope expression).run
      later = .ok bound final)
    {index : Nat}
    (hIndex : sortExpression planned.1 planned.2 bound =
      some index)
    (width : Nat) :
    ∃ projection, planned.1[index]? = some projection ∧
      SameValues width planned.2 bound projection := by
  rcases (bindClauses_stored catalog statement).of_ok trivial
    hClauses with ⟨hFirst, hKeys⟩
  have hStored : Stored later clauses.nodes :=
    { objects := hFirst.objects
      fresh := fun node hNode identity hSame =>
        Nat.lt_of_lt_of_le
          (hFirst.fresh node hNode identity hSame) hLater
      tables := hFirst.tables }
  have hBoth := (bindExpression_stored clauses.scope
    expression clauses.nodes).of_ok hStored hBound
  rcases hBoth.objects with ⟨objects, hObjects⟩
  have hNodes := hObjects.mono
    (List.subset_append_left clauses.nodes bound.walk)
  have hTerm := hObjects.mono
    (List.subset_append_right clauses.nodes bound.walk)
  have hMade := ((bindExpression_makes clauses.scope later
    expression).of_ok (Nat.le_refl later) hBound).2
  have hProjection : ∀ expression ∈ clauses.projections,
      ∀ node ∈ expression.walk, node ∈ clauses.nodes := by
    intro expression hMem node hNode
    exact List.mem_append_right _ (List.mem_flatMap.mpr
      ⟨expression, List.mem_append_left _ hMem, hNode⟩)
  rcases planAggregation_ok hPlan with
    ⟨seen, hRegistered, ⟨_, _, rfl⟩ |
      ⟨rewritten, having, hRewritten, _, rfl⟩⟩
  · rcases indexBySignature_some hIndex with
      ⟨projection, hAt, hSignature⟩
    have hMem := List.mem_of_getElem? hAt
    have hBare := bare_eq_of_signature
      (hNodes.mono (hProjection projection hMem)) hTerm
      hSignature
    refine ⟨projection, hAt, fun row => ?_⟩
    rw [← evaluateBound_bare row bound, ← hBare,
      evaluateBound_bare]
  · simp only [sortExpression,
      seenAgain_eq hRegistered.tabled] at hIndex
    cases hTermRewritten : rewriteOverGroup clauses.groupKeys
        seen bound with
    | error raised =>
      rw [hTermRewritten] at hIndex
      cases hIndex
    | ok settledTerm =>
      rw [hTermRewritten] at hIndex
      have hRewrites := rewrites_of_ok hTermRewritten
      rcases indexBySignature_some hIndex with
        ⟨projection, hAt, hSignature⟩
      have hMem := List.mem_of_getElem? hAt
      rcases exists_of_forall₂ hRewritten hMem with
        ⟨original, hOriginal, hOther⟩
      have hBefore : (signature projection).MadeBefore
          later := by
        apply rewrites_madeBefore hOther
        · intro call hCall
          exact hRegistered.found call
            (List.mem_flatMap.mpr ⟨original,
              List.mem_append_left _ hOriginal, hCall⟩)
            (List.mem_filter.mp hCall).2
        · intro node hNode
          exact hStored.fresh node
            (hProjection original hOriginal node hNode)
      have hSettled := settled_of_madeBefore hRewrites hMade
        (hSignature ▸ hBefore)
      have hBare := bare_eq_of_signature
        (rewrites_objects hOther
          (hNodes.mono (hProjection original hOriginal)))
        (rewrites_objects hRewrites hTerm) hSignature
      have hPlanObjects : Objects objects
          (planNodes clauses.groupKeys seen) := by
        refine hRegistered.objects hNodes
          (List.subset_append_left _ _) ?_
        intro call hCall node hNode
        rcases List.mem_flatMap.mp hCall with
          ⟨expression, hListed, hIn⟩
        have hInner := walk_subset expression call
          (List.mem_filter.mp hIn).1 hNode
        exact List.mem_append_right _
          (List.mem_flatMap.mpr
            ⟨expression, hListed, hInner⟩)
      refine ⟨projection, hAt, ?_⟩
      intro rows row grouped hGroup
      rcases rewrites_same hRegistered.tabled hPlanObjects
        hKeys hGroup.holds hRewrites hTerm hSettled with
        ⟨replaced, hReplaced, hSame⟩
      unfold evaluateOver
      rw [hReplaced, ← evaluateBound_bare grouped.get
        projection, hBare, evaluateBound_bare]
      exact hSame

end Values

--
-- The Column of a Term
--

/- The integer that an `ORDER BY` term is. -/
def written : Parser.Expression φ → Option Int
  | .literal _ (.int value) _ => some value
  | _ => none

/- The term is the name of an output column. -/
def Names
    (columns : List ResultColumn)
    (term : Parser.Expression φ)
    (name : String) : Prop :=
  (∃ node, term = .columnRef node name none) ∧
    ∃ column ∈ columns, column.name = name

/- The column is there, and is the one that the term asks
   for. -/
structure Resolved [Double φ] [TrueDivision φ] [Spelling φ]
    (clauses : BoundClauses φ)
    (projections : List (BoundExpression φ))
    (aggregation : Option (BoundAggregation φ))
    (term : Parser.Expression φ)
    (index : Nat) : Prop where
  inRange : index < projections.length
  ordinal : ∀ value, written term = some value →
    (index : Int) = value - 1
  named : ∀ name, Names clauses.outputColumns term name →
    ∃ column, clauses.outputColumns[index]? = some column ∧
      column.name = name
  value : written term = none →
    (∀ name, ¬ Names clauses.outputColumns term name) →
      ∀ bound start final,
        (bindExpression clauses.scope term).run start =
            .ok bound final →
          ∃ projection,
            projections[index]? = some projection ∧
              SameValues clauses.scope.columns.length
                aggregation bound projection

section Sorting

variable [Spelling φ] [DecidableEq φ]

/- Binding, from `next` on, makes this column of the term. -/
def Accepts
    (clauses : BoundClauses φ)
    (projections : List (BoundExpression φ))
    (aggregation : Option (BoundAggregation φ))
    (next : Nat)
    (term : Parser.Expression φ)
    (index : Nat) : Prop :=
  ∃ final,
    (sortPosition clauses.scope projections
      clauses.outputColumns aggregation term).run next =
        .ok (some index) final

/- What a term is accepted for is right, and the ordinals
   accepted are those of the columns. -/
def ResolvesRight [Double φ] [TrueDivision φ]
    (clauses : BoundClauses φ)
    (projections : List (BoundExpression φ))
    (aggregation : Option (BoundAggregation φ))
    (next : Nat)
    (term : Parser.Expression φ) : Prop :=
  (∀ index,
    Accepts clauses projections aggregation next term index →
      Resolved clauses projections aggregation term index) ∧
  ∀ value, written term = some value →
    ((∃ index,
        Accepts clauses projections aggregation next term
          index) ↔
      1 ≤ value ∧ value ≤ projections.length)

/- The number that ordinals are checked against. -/
def ordinals
    (projections : List (BoundExpression φ))
    (columns : List ResultColumn) : Nat :=
  (columns.map ResultColumn.name).dedup.length +
    (projections.map signature).dedup.length

/- An ordinal between the number of columns and the number it
   is checked against, or `TRUE`, taken for the ordinal 1,
   where the first column is something else. -/
def Misread [Double φ] [TrueDivision φ]
    (clauses : BoundClauses φ)
    (projections : List (BoundExpression φ))
    (aggregation : Option (BoundAggregation φ))
    (term : Parser.Expression φ) : Prop :=
  (∃ value, written term = some value ∧
    min projections.length
        (ordinals projections clauses.outputColumns) <
      value ∧
    value ≤ max projections.length
        (ordinals projections clauses.outputColumns)) ∨
  ∃ node dataType, term = .literal node (.bool true) dataType ∧
    ∃ first, projections[0]? = some first ∧
      ¬ SameValues clauses.scope.columns.length aggregation
          (.literal node (.bool true) dataType) first

variable {clauses : BoundClauses φ}
variable {projections : List (BoundExpression φ)}
variable {aggregation : Option (BoundAggregation φ)}
variable {index : Nat} {term : Parser.Expression φ}

variable {value : Int}

theorem accepts_ordinal
    (hOrdinal : ordinal term = some value) :
    Accepts clauses projections aggregation next term index ↔
      (index : Int) = value - 1 ∧
        value ≤ ordinals projections
          clauses.outputColumns := by
  have hPosition : ∀ found final,
      (sortPosition clauses.scope projections
        clauses.outputColumns aggregation term).run next =
          .ok (some found) final ↔
        (0 ≤ value - 1 ∧ value - 1 < ordinals projections
            clauses.outputColumns) ∧
          (value - 1).toNat = found ∧ next = final := by
    intro found final
    unfold sortPosition ordinals
    simp only [hOrdinal]
    simp only [Nat.cast_add]
    by_cases hInside : 0 ≤ value - 1 ∧ value - 1 <
        ((clauses.outputColumns.map
            ResultColumn.name).dedup.length : Int) +
          (projections.map signature).dedup.length
    · rw [if_pos hInside]
      constructor
      · intro hRun
        cases hRun
        exact ⟨hInside, rfl, rfl⟩
      · rintro ⟨_, rfl, rfl⟩
        rfl
    · rw [if_neg hInside]
      constructor
      · intro hRun
        cases hRun
      · rintro ⟨hIn, _⟩
        exact absurd hIn hInside
  unfold Accepts
  simp only [hPosition]
  constructor
  · rintro ⟨final, ⟨hLow, hHigh⟩, rfl, rfl⟩
    omega
  · rintro ⟨hSame, hHigh⟩
    exact ⟨next, by omega, by omega, rfl⟩

omit [Spelling φ] [DecidableEq φ] in
theorem ordinal_of_written
    (hWritten : written term = some value) :
    ordinal term = some value := by
  unfold written at hWritten
  split at hWritten
  · exact hWritten
  · cases hWritten

omit [Spelling φ] [DecidableEq φ] in
/- What is taken for an ordinal is one, or a boolean. -/
theorem ordinal_cases
    (hOrdinal : ordinal term = some value) :
    written term = some value ∨
      ∃ node truth dataType,
        term = .literal node (.bool truth) dataType ∧
          value = truth.toNat := by
  unfold ordinal at hOrdinal
  split at hOrdinal
  · cases hOrdinal
    exact .inl rfl
  · cases hOrdinal
    exact .inr ⟨_, _, _, rfl, rfl⟩
  · cases hOrdinal

variable {columns : List ResultColumn} {name : String}
variable {catalog : Catalog}

theorem indexByName_some
    (hIndex : indexByName columns name = some index) :
    ∃ column, columns[index]? = some column ∧
      column.name = name := by
  unfold indexByName at hIndex
  rcases Option.map_eq_some_iff.mp hIndex with
    ⟨entry, hFind, rfl⟩
  have hMem := List.mem_reverse.mp
    (List.mem_of_find?_eq_some hFind)
  have hSame := List.find?_some hFind
  refine ⟨entry.1, ?_, of_decide_eq_true hSame⟩
  exact List.mem_zipIdx_iff_getElem?.mp hMem

theorem indexByName_none
    (hIndex : indexByName columns name = none) :
    ∀ column ∈ columns, column.name ≠ name := by
  intro column hMem hSame
  unfold indexByName at hIndex
  have hNone := List.find?_eq_none.mp
    (Option.map_eq_none_iff.mp hIndex)
  rcases List.getElem_of_mem hMem with ⟨index, hIndex, hAt⟩
  have hEntry : (column, index) ∈ columns.zipIdx := by
    rw [List.mem_zipIdx_iff_getElem?,
      List.getElem?_eq_getElem hIndex, hAt]
  exact hNone _ (List.mem_reverse.mpr hEntry)
    (decide_eq_true hSame)

variable {statement : Parser.SelectStatement φ}

omit [DecidableEq φ] in
/- The columns are named one for one. -/
theorem bindClauses_columns
    {next : Nat}
    (hClauses : (bindClauses catalog statement).run start =
      .ok clauses next) :
    clauses.outputColumns.length =
      clauses.projections.length := by
  unfold bindClauses at hClauses
  rcases ok_of_run_bind hClauses with ⟨_, _, _, hRest⟩
  rcases ok_of_run_bind hRest with ⟨_, _, _, hRest⟩
  rcases ok_of_run_bind hRest with ⟨_, _, _, hRest⟩
  rcases ok_of_run_bind hRest with ⟨_, _, _, hRest⟩
  rcases ok_of_run_bind hRest with ⟨_, _, _, hRest⟩
  rcases ok_of_run_bind hRest with ⟨_, _, _, hRest⟩
  rcases ok_of_run_bind hRest with ⟨items, _, _, hRest⟩
  rcases ok_of_run_bind hRest with ⟨_, _, _, hRest⟩
  rcases ok_of_run_bind hRest with ⟨_, _, _, hRest⟩
  rcases ok_of_run_bind hRest with ⟨_, _, _, hRest⟩
  cases hRest
  simp

theorem planAggregation_length
    {planned : List (BoundExpression φ) ×
      Option (BoundAggregation φ)}
    (hPlan : planAggregation clauses.projections
      clauses.groupKeys clauses.having = .ok planned) :
    planned.1.length = clauses.projections.length := by
  rcases planAggregation_ok hPlan with
    ⟨_, _, ⟨_, _, rfl⟩ | ⟨_, _, hRewritten, _, rfl⟩⟩
  · rfl
  · exact hRewritten.length_eq.symm

section Selects

variable [Double φ] [TrueDivision φ]
variable {later : Nat}
variable {planned : List (BoundExpression φ) ×
  Option (BoundAggregation φ)}

/- A name, or an expression that is no ordinal, comes to the
   right column. -/
theorem resolved_of_accepts
    (hClauses : (bindClauses catalog statement).run start =
      .ok clauses next)
    (hPlan : planAggregation clauses.projections
      clauses.groupKeys clauses.having = .ok planned)
    (hLater : next ≤ later)
    (hOrdinal : ordinal term = none)
    (hAccepts : Accepts clauses planned.1 planned.2 later term
      index) :
    Resolved clauses planned.1 planned.2 term index := by
  have hWritten : ∀ value, written term ≠ some value := by
    intro value hValue
    rw [ordinal_of_written hValue] at hOrdinal
    cases hOrdinal
  have hLength : clauses.outputColumns.length =
      planned.1.length :=
    (bindClauses_columns hClauses).trans
      (planAggregation_length hPlan).symm
  rcases hAccepts with ⟨final, hRun⟩
  unfold sortPosition at hRun
  simp only [hOrdinal] at hRun
  cases hNamed : namedColumn clauses.outputColumns term with
  | some place =>
    simp only [hNamed] at hRun
    cases hRun
    unfold namedColumn at hNamed
    split at hNamed
    · rename_i node name
      rcases indexByName_some hNamed with ⟨column, hAt, hName⟩
      have hHere := (List.getElem?_eq_some_iff.mp hAt).1
      have hColumn := List.mem_of_getElem? hAt
      exact
        { inRange := hLength ▸ hHere
          ordinal := fun value hValue =>
            absurd hValue (hWritten value)
          named := by
            rintro other ⟨⟨_, hTerm⟩, _⟩
            cases hTerm
            exact ⟨column, hAt, hName⟩
          value := fun _ hNot =>
            absurd ⟨⟨node, rfl⟩, column, hColumn, hName⟩
              (hNot name) }
    · cases hNamed
  | none =>
    simp only [hNamed] at hRun
    have hBound : ∃ bound final,
        (bindExpression clauses.scope term).run later =
            .ok bound final ∧
          sortExpression planned.1 planned.2 bound =
            some index := by
      rcases ok_of_run_tryCatch hRun with hTry | hCatch
      · rcases ok_of_run_bind hTry with
          ⟨bound, middle, hBound, hEnd⟩
        exact ⟨bound, middle, hBound,
          (EStateM.Result.ok.inj hEnd).1⟩
      · rcases hCatch with ⟨raised, middle, _, hEnd⟩
        cases hEnd
    rcases hBound with ⟨bound, middle, hBound, hIndex⟩
    rcases sortExpression_same hClauses hPlan hLater hBound
      hIndex clauses.scope.columns.length with
      ⟨projection, hAt, hSame⟩
    exact
      { inRange := (List.getElem?_eq_some_iff.mp hAt).1
        ordinal := fun value hValue =>
          absurd hValue (hWritten value)
        named := by
          rintro name ⟨⟨node, rfl⟩, column, hMem, hName⟩
          exact absurd hName
            (indexByName_none hNamed column hMem)
        value := fun _ _ other start last hOther =>
          ⟨projection, hAt, hSame.congr
            (bindExpression_bare hBound hOther)⟩ }

omit [Double φ] [TrueDivision φ] [Spelling φ] in
/- Some ordinal is in range when there is a column. -/
theorem ordinals_pos
    {projections : List (BoundExpression φ)}
    (columns : List ResultColumn)
    (hSome : projections ≠ []) :
    0 < ordinals projections columns := by
  have hSignatures : (projections.map signature).dedup ≠
      [] := by
    rw [Ne, List.dedup_eq_nil, List.map_eq_nil_iff]
    exact hSome
  have hLength := List.length_pos_iff.mpr hSignatures
  unfold ordinals
  omega

omit [Double φ] [TrueDivision φ] [Spelling φ] in
theorem ordinals_nil :
    ordinals ([] : List (BoundExpression φ)) [] = 0 := rfl

/- An integer that is accepted and not misread. -/
theorem resolved_ordinal
    {value : Int}
    (hWritten : written term = some value)
    (hRight : ¬ Misread clauses projections aggregation term)
    (hAccepts : Accepts clauses projections aggregation next
      term index) :
    Resolved clauses projections aggregation term index := by
  rcases (accepts_ordinal (ordinal_of_written hWritten)).mp
    hAccepts with ⟨hIndex, hTop⟩
  constructor
  · by_contra hOut
    exact hRight (.inl ⟨value, hWritten, by omega, by omega⟩)
  · intro other hOther
    cases hWritten.symm.trans hOther
    exact hIndex
  · rintro name ⟨⟨node, rfl⟩, _⟩
    cases hWritten
  · intro hNone
    cases hWritten.symm.trans hNone

/- `TRUE` where the first column is `TRUE` as well. -/
theorem resolved_truth
    (hClauses : (bindClauses catalog statement).run start =
      .ok clauses next)
    (hPlan : planAggregation clauses.projections
      clauses.groupKeys clauses.having = .ok planned)
    {node : Parser.Node}
    {truth : Bool}
    {dataType : Option DataType}
    (hRight : ¬ Misread clauses planned.1 planned.2
      (.literal node (.bool truth) dataType))
    (hAccepts : Accepts clauses planned.1 planned.2 later
      (.literal node (.bool truth) dataType) index) :
    Resolved clauses planned.1 planned.2
      (.literal node (.bool truth) dataType) index := by
  rcases (accepts_ordinal rfl).mp hAccepts with ⟨hIndex, hTop⟩
  have hLength : clauses.outputColumns.length =
      planned.1.length :=
    (bindClauses_columns hClauses).trans
      (planAggregation_length hPlan).symm
  cases truth with
  | false =>
    rw [Bool.toNat_false] at hIndex
    omega
  | true =>
    rw [Bool.toNat_true] at hIndex hTop
    have hZero : index = 0 := by omega
    subst hZero
    cases hList : planned.1 with
    | nil =>
      rw [hList, List.length_nil] at hLength
      rw [hList, List.length_eq_zero_iff.mp hLength,
        ordinals_nil] at hTop
      omega
    | cons first rest =>
      have hFirst : planned.1[0]? = some first := by
        rw [hList]
        rfl
      rw [← hList]
      have hSame : SameValues clauses.scope.columns.length
          planned.2 (.literal node (.bool true) dataType)
          first := by
        by_contra hNot
        exact hRight (.inr ⟨node, dataType, rfl, first,
          hFirst, hNot⟩)
      exact
        { inRange := (List.getElem?_eq_some_iff.mp
            hFirst).1
          ordinal := nofun
          named := by
            rintro name ⟨⟨_, hTerm⟩, _⟩
            cases hTerm
          value := by
            intro _ _ bound _ _ hBound
            cases hBound
            exact ⟨first, hFirst, hSame⟩ }

/- Every term comes to the right column, and no ordinal is
   refused, except for the terms that are misread. -/
theorem resolvesRight_iff
    (hClauses : (bindClauses catalog statement).run start =
      .ok clauses next)
    (hPlan : planAggregation clauses.projections
      clauses.groupKeys clauses.having = .ok planned)
    (hLater : next ≤ later)
    (term : Parser.Expression φ) :
    ResolvesRight clauses planned.1 planned.2 later term ↔
      ¬ Misread clauses planned.1 planned.2 term := by
  constructor
  · rintro ⟨hResolved, hOrdinals⟩
      (⟨value, hWritten, hLow, hHigh⟩ |
        ⟨node, dataType, rfl, first, hFirst, hNot⟩)
    · have hAccepts := hOrdinals value hWritten
      have hEach : (∃ index, Accepts clauses planned.1
          planned.2 later term index) ↔
          1 ≤ value ∧ value ≤ ordinals planned.1
            clauses.outputColumns := by
        simp only [accepts_ordinal
          (ordinal_of_written hWritten)]
        constructor
        · rintro ⟨index, hIndex, hTop⟩
          omega
        · rintro ⟨hOne, hTop⟩
          exact ⟨(value - 1).toNat, by omega, hTop⟩
      rw [hEach] at hAccepts
      omega
    · have hSome : planned.1 ≠ [] := by
        intro hNil
        rw [hNil] at hFirst
        cases hFirst
      have hPositive := ordinals_pos clauses.outputColumns
        hSome
      have hAccepts : Accepts clauses planned.1 planned.2
          later (.literal node (.bool true) dataType) 0 :=
        (accepts_ordinal rfl).mpr ⟨rfl, by
          rw [Bool.toNat_true]
          omega⟩
      rcases (hResolved 0 hAccepts).value rfl
        (by rintro name ⟨⟨_, hTerm⟩, _⟩; cases hTerm)
        (.literal node (.bool true) dataType) 0 0 rfl with
        ⟨projection, hAt, hSame⟩
      cases hFirst.symm.trans hAt
      exact hNot hSame
  · intro hRight
    constructor
    · intro index hAccepts
      cases hOrdinal : ordinal term with
      | none =>
        exact resolved_of_accepts hClauses hPlan hLater
          hOrdinal hAccepts
      | some value =>
        rcases ordinal_cases hOrdinal with hWritten |
          ⟨node, truth, dataType, rfl, rfl⟩
        · exact resolved_ordinal hWritten hRight hAccepts
        · exact resolved_truth hClauses hPlan hRight
            hAccepts
    · intro value hWritten
      have hOutside : ¬ (min planned.1.length
            (ordinals planned.1 clauses.outputColumns) <
          value ∧
          value ≤ max planned.1.length
            (ordinals planned.1 clauses.outputColumns)) :=
        fun hInside => hRight (.inl ⟨value, hWritten, hInside⟩)
      simp only [accepts_ordinal
        (ordinal_of_written hWritten)]
      constructor
      · rintro ⟨index, hIndex, hTop⟩
        omega
      · rintro ⟨hOne, hTop⟩
        exact ⟨(value - 1).toNat, by omega, by omega⟩

end Selects

--
-- Whole Selects
--

variable {final : Nat}

/- Each key is the column of its term, bound some time after
   the clauses. -/
theorem bindOrderBy_accepts
    {items : List (Parser.OrderByItem φ)}
    {keys : List BoundSortKey}
    (hStart : next ≤ start)
    (hRun : (bindOrderBy clauses.scope projections
      clauses.outputColumns aggregation items).run start =
        .ok keys final) :
    List.Forall₂ (fun item key => ∃ later, next ≤ later ∧
        Accepts clauses projections aggregation later
          item.expression key.outputIndex) items keys := by
  induction items generalizing start keys with
  | nil =>
    cases hRun
    exact .nil
  | cons item rest ih =>
    unfold bindOrderBy at hRun
    rcases ok_of_run_bind hRun with
      ⟨found, middle, hPosition, hRest⟩
    cases found with
    | none => cases hRest
    | some index =>
      rcases ok_of_run_bind hRest with
        ⟨others, last, hOthers, hEnd⟩
      cases hEnd
      have hMiddle : start ≤ middle := by
        rcases sortPosition_ok hPosition with
          ⟨hSame, _⟩ | ⟨bound, hBound, _⟩
        · exact Nat.le_of_eq hSame
        · exact ((bindExpression_makes clauses.scope start
            item.expression).of_ok (Nat.le_refl start)
              hBound).1
      refine .cons ⟨start, hStart, middle, hPosition⟩ ?_
      exact ih (Nat.le_trans hStart hMiddle) hOthers

/- In an accepted `SELECT` where no term is misread, every
   sort key is the right column. -/
theorem bindSelect_resolved [Double φ] [TrueDivision φ]
    {select : BoundSelect φ}
    (hClauses : (bindClauses catalog statement).run start =
      .ok clauses next)
    (hSelect : (bindSelect catalog statement).run start =
      .ok select final)
    (hRight : ∀ item ∈ statement.orderBy,
      ¬ Misread clauses select.projections select.aggregation
          item.expression) :
    List.Forall₂ (fun item key =>
        Resolved clauses select.projections select.aggregation
          item.expression key.outputIndex)
      statement.orderBy select.orderBy := by
  rcases bindSelect_ok hClauses hSelect with
    ⟨planned, hPlan, hOrderBy, hProjections, hAggregation⟩
  rw [hProjections, hAggregation] at hRight ⊢
  refine forall₂_of_mem
    (bindOrderBy_accepts (Nat.le_refl next) hOrderBy) ?_
  rintro item hItem key _ ⟨later, hLater, hAccepts⟩
  exact ((resolvesRight_iff hClauses hPlan hLater
    item.expression).mpr (hRight item hItem)).1 _ hAccepts

end Sorting

--
-- An Ordinal Past the End
--

/- `SELECT a FROM t ORDER BY term`. -/
def firstColumn
    (term : Parser.Expression Rat) :
    Parser.SelectStatement Rat :=
  { projections :=
      [{ node := nowhere
         expression := .columnRef nowhere "a" none
         alias_ := none }]
    table := { node := nowhere, name := "t", alias_ := none }
    joins := []
    where_ := none
    groupBy := []
    having := none
    orderBy :=
      [{ node := nowhere
         expression := term
         descending := false }] }

/- `ORDER BY a` is right. -/
theorem resolvesRight_named :
    ∃ clauses planned,
      (bindClauses twoColumns
          (firstColumn (.columnRef nowhere "a" none))).run 0 =
        .ok clauses 0 ∧
      planAggregation clauses.projections clauses.groupKeys
          clauses.having = .ok planned ∧
      ResolvesRight clauses planned.1 planned.2 0
        (.columnRef nowhere "a" none) := by
  have hClauses :
      (bindClauses twoColumns
          (firstColumn (.columnRef nowhere "a" none))).run 0 =
        .ok _ 0 := rfl
  refine ⟨_, _, hClauses, rfl,
    (resolvesRight_iff hClauses rfl (Nat.le_refl 0) _).mpr ?_⟩
  rintro (⟨value, hWritten, _⟩ | ⟨node, dataType, hTerm, _⟩)
  · cases hWritten
  · cases hTerm

/- `ORDER BY 2` is accepted, with one column to sort by. -/
theorem ordinal_past_end :
    ¬ ∀ (statement : Parser.SelectStatement Rat)
      (select : BoundSelect Rat)
      (final : Nat),
      (bindSelect twoColumns statement).run 0 =
          .ok select final →
        ∀ key ∈ select.orderBy,
          key.outputIndex < select.projections.length := by
  intro hAll
  have hInside := hAll
    (firstColumn (.literal nowhere (.int 2) (some .integer)))
    _ 0 rfl { outputIndex := 1, descending := false }
    (.head _)
  exact absurd hInside (by decide)

end Executor

end ChenDB
