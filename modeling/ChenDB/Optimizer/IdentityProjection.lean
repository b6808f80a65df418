import ChenDB.Executor.OrderBy

/-
  Dropping a projection that copies every column of a table.

  The rule looks at the first table that the plan scans, but
  what arrives is a joined row or a grouped one, which may be
  wider than that table.
-/

--
-- Plans
--

namespace ChenDB

namespace Optimizer

open Executor
open Library.StateExcept (ok_of_bind ok_of_run_bind)
open Library.Traversal (exists_of_forall₂ forall₂_of_mapM
  mapM_of_forall₂ ok_of_run_liftExcept)

variable {φ : Type} {width : Nat}

/- What a projection reads: joined rows, or grouped rows. -/
inductive RowSource (φ : Type) (width : Nat) where
  | joined (node : LogicalNode φ width)
  | grouped
      (aggregation : BoundAggregation φ)
      (node : LogicalNode φ width)

/- The plan of a `SELECT`; `rows` is one whose projection is
   gone. -/
inductive SelectPlan (φ : Type) (width : Nat) where
  | rows (source : RowSource φ width)
  | project
      (projections : List (BoundExpression φ))
      (outputColumns : List ResultColumn)
      (source : RowSource φ width)
  | distinct (child : SelectPlan φ width)
  | sort
      (keys : List BoundSortKey)
      (child : SelectPlan φ width)
  | limit (count offset : Nat) (child : SelectPlan φ width)

/- How wide the rows are that arrive. -/
def RowSource.arriving : RowSource φ width → Nat
  | .joined _ => width
  | .grouped aggregation _ => aggregation.width

/- The columns of all tables together. -/
def scopeWidth (scope : Scope) : Nat :=
  (scope.map fun entry => entry.schema.length).sum

/- What each table holds, by its name and its number of
   columns. -/
abbrev Contents (φ : Type) :=
  String → (columns : Nat) → List (Fin columns → Value φ)

def scanOf
    (contents : Contents φ)
    (width : Nat)
    (entry : ScopeEntry) : LogicalScan φ width :=
  { position := entry.position
    offset := entry.offset
    columns := entry.schema.length
    contents := contents entry.tableName entry.schema.length }

/- The joins, left-deep in the order they were written. -/
def joinScans [Spelling φ]
    (contents : Contents φ)
    (scope : Scope) :
    LogicalNode φ width → List (BoundJoin φ) →
      Option (LogicalNode φ width)
  | plan, [] => some plan
  | plan, join :: rest => do
      let entry ← scope.entry φ join.bindingName
      joinScans contents scope
        (.join join.condition.toExpression plan
          (.scan (scanOf contents width entry)) join.kind)
        rest

/- `none` where an assertion fails. -/
def buildLogicalPlan [Spelling φ]
    (contents : Contents φ)
    (select : BoundSelect φ)
    (isDistinct : Bool)
    (limit : Option (Nat × Nat)) :
    Option (SelectPlan φ (scopeWidth select.scope)) := do
  let first ← select.scope.head?
  let joined ← joinScans contents select.scope
    (.scan (scanOf contents _ first)) select.joins
  let node :=
    match select.where_ with
    | none => joined
    | some predicate => .filter predicate.toExpression joined
  let source :=
    match select.aggregation with
    | none => .joined node
    | some aggregation => .grouped aggregation node
  let plan :=
    .project select.projections select.outputColumns source
  let plan := if isDistinct then .distinct plan else plan
  let plan :=
    if select.orderBy = [] then plan
    else .sort select.orderBy plan
  match limit with
  | none => some plan
  | some (count, offset) => some (.limit count offset plan)

--
-- The Rule
--

/- The number of columns of the first table that a plan
   scans. -/
def scannedColumns : LogicalNode φ width → Nat
  | .scan table => table.columns
  | .filter _ child => scannedColumns child
  | .join _ left _ _ => scannedColumns left

def RowSource.scannedColumns : RowSource φ width → Nat
  | .joined node => Optimizer.scannedColumns node
  | .grouped _ node => Optimizer.scannedColumns node

/- The expression at each position is the column there. -/
def copiesColumn : BoundExpression φ × Nat → Bool
  | (.column _ reference, position) =>
    reference.columnIndex = position
  | _ => false

/- `_drop_identity_projection`. -/
def dropIdentityProjection :
    SelectPlan φ width → SelectPlan φ width
  | .project projections outputColumns source =>
    if projections.length ≠ source.scannedColumns then
      .project projections outputColumns source
    else if projections.zipIdx.all copiesColumn then
      .rows source
    else .project projections outputColumns source
  | plan => plan

--
-- Rows
--

section Rows

variable [Double φ]

/- One row of a `Project`. -/
def projectRow
    (projections : List (BoundExpression φ))
    (row : List (Value φ)) :
    Except EngineError (List (Value φ)) :=
  projections.mapM (evaluateBound row.get)

variable [TrueDivision φ] [DecidableEq φ]

def RowSource.rows :
    RowSource φ width →
      Except EngineError (List (List (Value φ)))
  | .joined node => do
      let rows ← node.rows
      pure (rows.map List.ofFn)
  | .grouped aggregation node => do
      let rows ← node.rows
      onOpen aggregation rows

/- The rows are those that the projection would have made,
   each as wide as the output. -/
def Unchanged
    (select : BoundSelect φ)
    (rows : List (List (Value φ))) : Prop :=
  ∀ row ∈ rows,
    projectRow select.projections row = .ok row ∧
      row.length = select.outputColumns.length

/- How wide the rows are that a `SELECT` projects. -/
def arrivingWidth (select : BoundSelect φ) : Nat :=
  match select.aggregation with
  | none => scopeWidth select.scope
  | some aggregation => aggregation.width

variable {aggregation : BoundAggregation φ}

omit [DecidableEq φ] in
theorem isGroup_length
    {rows : List (Row φ width)}
    {grouped : List (Value φ)}
    (hGroup : IsGroup aggregation rows grouped) :
    grouped.length = aggregation.width := by
  rcases hGroup with ⟨hRows, key, values, hKeys, hOver, rfl⟩
  rcases List.exists_mem_of_ne_nil rows hRows with ⟨row, hRow⟩
  have hKey := (forall₂_of_mapM (hKeys row hRow)).length_eq
  have hValues := (forall₂_of_mapM hOver).length_eq
  rw [List.length_append, ← hKey, ← hValues]
  rfl

/- The one group that there is without rows. -/
theorem onOpen_nil_length
    {output : List (List (Value φ))}
    (hOpen : onOpen aggregation ([] : List (Row φ width)) =
      .ok output) :
    ∀ grouped ∈ output,
      grouped.length = aggregation.width := by
  unfold onOpen at hOpen
  rcases ok_of_bind hOpen with ⟨groups, hFold, hRest⟩
  cases hFold
  have hGroups : ∀ group ∈
      (if aggregation.groupKeys = [] ∧
          ([] : Groups φ) = [] then
        [([], freshAccumulators aggregation)]
      else ([] : Groups φ)),
      group.1.length = aggregation.groupKeys.length ∧
        group.2.length = aggregation.aggregates.length := by
    intro group hGroup
    by_cases hKeys : aggregation.groupKeys = []
    · rw [if_pos ⟨hKeys, rfl⟩] at hGroup
      rw [List.mem_singleton.mp hGroup, hKeys]
      exact ⟨rfl, List.length_map _⟩
    · rw [if_neg (fun hBoth => hKeys hBoth.1)] at hGroup
      cases hGroup
  rcases ok_of_bind hRest with ⟨filtered, hMap, hEnd⟩
  cases hEnd
  intro grouped hGrouped
  rcases List.mem_filterMap.mp hGrouped with
    ⟨found, hFound, hSome⟩
  cases hSome
  rcases exists_of_forall₂ (forall₂_of_mapM hMap) hFound with
    ⟨group, hGroup, hRow⟩
  rcases hGroups group hGroup with ⟨hKey, hAccumulators⟩
  rcases groupedRow_ok hRow with ⟨values, hValues, rfl⟩
  have hLength := (forall₂_of_mapM hValues).length_eq
  rw [List.length_append, hKey, ← hLength, hAccumulators]
  rfl

variable {source : RowSource φ width}

theorem rows_length
    {rows : List (List (Value φ))}
    (hRows : source.rows = .ok rows) :
    ∀ row ∈ rows, row.length = source.arriving := by
  cases source with
  | joined node =>
    rcases ok_of_bind hRows with ⟨joined, _, hEnd⟩
    cases hEnd
    intro row hRow
    rcases List.mem_map.mp hRow with ⟨tuple, _, rfl⟩
    exact List.length_ofFn
  | grouped aggregation node =>
    rcases ok_of_bind hRows with ⟨joined, _, hOpen⟩
    intro row hRow
    cases joined with
    | nil => exact onOpen_nil_length hOpen row hRow
    | cons first rest =>
      rcases onOpen_groups (List.cons_ne_nil _ _) hOpen
        row hRow with ⟨key, hGroup⟩
      exact isGroup_length hGroup

omit [TrueDivision φ] [DecidableEq φ] in
/- A projection that copies columns changes no row that is
   just as wide. -/
theorem projectRow_identity
    {projections : List (BoundExpression φ)}
    (hCopies : projections.zipIdx.all copiesColumn)
    (row : List (Value φ)) :
    projectRow projections row = .ok row ↔
      projections.length = row.length := by
  constructor
  · intro hOk
    exact (forall₂_of_mapM hOk).length_eq
  · intro hLength
    refine mapM_of_forall₂ (List.forall₂_iff_get.mpr
      ⟨hLength, fun index hIndex hHere => ?_⟩)
    have hMem : (projections[index], index) ∈
        projections.zipIdx :=
      List.mem_zipIdx_iff_getElem?.mpr
        (List.getElem?_eq_getElem hIndex)
    have hCopy := List.all_eq_true.mp hCopies _ hMem
    cases hAt : projections[index] with
    | column node reference =>
      rw [hAt] at hCopy
      have hSame : reference.columnIndex = index :=
        of_decide_eq_true hCopy
      show evaluateBound row.get (projections[index]) =
        .ok row[index]
      rw [hAt]
      have hInside : reference.columnIndex < row.length := by
        rw [hSame]
        exact hHere
      have hValue : evaluateBound row.get
          (.column node reference) =
          .ok (row.get ⟨reference.columnIndex, hInside⟩) :=
        dif_pos hInside
      rw [hValue]
      simp [hSame]
    | _ =>
      rw [hAt] at hCopy
      cases hCopy

--
-- Selects
--

omit [Double φ] [TrueDivision φ] [DecidableEq φ] in
/- Only a projection at the top is ever dropped. -/
theorem dropped_project
    {plan : SelectPlan φ width}
    (hPlan : ∀ other, plan ≠ .rows other)
    (hDropped : dropIdentityProjection plan = .rows source) :
    ∃ projections outputColumns,
      plan = .project projections outputColumns source ∧
        projections.zipIdx.all copiesColumn := by
  cases plan with
  | project projections outputColumns child =>
    simp only [dropIdentityProjection] at hDropped
    by_cases hWidth :
        projections.length ≠ child.scannedColumns
    · rw [if_pos hWidth] at hDropped
      cases hDropped
    · rw [if_neg hWidth] at hDropped
      by_cases hCopies : projections.zipIdx.all copiesColumn
      · rw [if_pos hCopies] at hDropped
        cases hDropped
        exact ⟨projections, outputColumns, rfl, hCopies⟩
      · rw [if_neg hCopies] at hDropped
        cases hDropped
  | rows other => exact absurd rfl (hPlan other)
  | distinct child => cases hDropped
  | sort keys child => cases hDropped
  | limit count offset child => cases hDropped

variable [Spelling φ]

variable {select : BoundSelect φ}

omit [Double φ] [TrueDivision φ] [DecidableEq φ] in
/- The plan that is built, where it is a projection. -/
theorem buildLogicalPlan_ok
    {contents : Contents φ}
    {isDistinct : Bool}
    {limit : Option (Nat × Nat)}
    {plan : SelectPlan φ (scopeWidth select.scope)}
    (hPlan : buildLogicalPlan contents select isDistinct
      limit = some plan) :
    (∀ other, plan ≠ .rows other) ∧
      ∀ projections outputColumns source,
        plan = .project projections outputColumns source →
          projections = select.projections ∧
            source.arriving = arrivingWidth select := by
  unfold buildLogicalPlan at hPlan
  rcases Option.bind_eq_some_iff.mp hPlan with ⟨first, _, hRest⟩
  rcases Option.bind_eq_some_iff.mp hRest with ⟨joined, _, hTop⟩
  unfold arrivingWidth
  cases limit with
  | some bounds =>
    cases hTop
    exact ⟨fun _ => nofun, fun _ _ _ hSame => by
      cases hSame⟩
  | none =>
    by_cases hSorted : select.orderBy = []
    · simp only [hSorted, if_true, Option.some.injEq] at hTop
      cases isDistinct with
      | true =>
        rw [if_pos rfl] at hTop
        subst hTop
        exact ⟨fun _ => nofun, fun _ _ _ hSame => by
          cases hSame⟩
      | false =>
        rw [if_neg (by decide)] at hTop
        subst hTop
        refine ⟨fun _ => nofun,
          fun projections outputColumns source hSame => ?_⟩
        cases hSame
        refine ⟨rfl, ?_⟩
        cases select.aggregation <;> rfl
    · simp only [hSorted, if_false, Option.some.injEq] at hTop
      subst hTop
      exact ⟨fun _ => nofun, fun _ _ _ hSame => by
        cases hSame⟩

omit [Double φ] [TrueDivision φ] in
theorem bindSelect_columns
    {catalog : Catalog}
    {statement : Parser.SelectStatement φ}
    {start final : Nat}
    (hSelect : (bindSelect catalog statement).run start =
      .ok select final) :
    select.outputColumns.length =
      select.projections.length := by
  unfold bindSelect at hSelect
  rcases ok_of_run_bind hSelect with
    ⟨clauses, next, hClauses, hOutput⟩
  unfold bindOutput at hOutput
  rcases ok_of_run_bind hOutput with
    ⟨planned, middle, hPlanned, hRest⟩
  rcases ok_of_run_bind hRest with ⟨orderBy, _, _, hEnd⟩
  have hPlan := (ok_of_run_liftExcept hPlanned).1
  cases hEnd
  exact (bindClauses_columns hClauses).trans
    (planAggregation_length hPlan).symm

/- Dropping the projection of an accepted `SELECT` changes no
   row exactly when what arrives is as wide as the select
   list, or nothing arrives. -/
theorem unchanged_iff
    {catalog : Catalog}
    {statement : Parser.SelectStatement φ}
    {start final : Nat}
    {select : BoundSelect φ}
    (hSelect : (bindSelect catalog statement).run start =
      .ok select final)
    {contents : Contents φ}
    {isDistinct : Bool}
    {limit : Option (Nat × Nat)}
    {plan : SelectPlan φ (scopeWidth select.scope)}
    (hPlan : buildLogicalPlan contents select isDistinct
      limit = some plan)
    {source : RowSource φ (scopeWidth select.scope)}
    (hDropped : dropIdentityProjection plan = .rows source)
    {rows : List (List (Value φ))}
    (hRows : source.rows = .ok rows) :
    Unchanged select rows ↔
      rows = [] ∨
        arrivingWidth select = select.projections.length := by
  rcases buildLogicalPlan_ok hPlan with ⟨hTop, hBuilt⟩
  rcases dropped_project hTop hDropped with
    ⟨projections, outputColumns, rfl, hCopies⟩
  rcases hBuilt projections outputColumns source rfl with
    ⟨rfl, hArriving⟩
  have hLength := rows_length hRows
  rw [hArriving] at hLength
  constructor
  · intro hUnchanged
    cases rows with
    | nil => exact .inl rfl
    | cons row rest =>
      right
      have hFirst := hUnchanged row (.head _)
      rw [← hLength row (.head _)]
      exact ((projectRow_identity hCopies row).mp
        hFirst.1).symm
  · rintro (rfl | hWidth) row hRow
    · cases hRow
    · have hSame := (hLength row hRow).trans hWidth
      refine ⟨(projectRow_identity hCopies row).mpr
        hSame.symm, ?_⟩
      rw [hSame, bindSelect_columns hSelect]

end Rows

--
-- One Table of Two
--

/- Two tables `u` and `o`, of two columns each. -/
def usersAndOrders : Catalog :=
  [{ name := "u"
     schema :=
      [{ name := "id", dataType := .integer },
       { name := "age", dataType := .integer }] },
   { name := "o"
     schema :=
      [{ name := "user_id", dataType := .integer },
       { name := "total", dataType := .integer }] }]

/- Every table holds one row, of ones. -/
def ones : Contents Rat :=
  fun _ _ => [fun _ => .int 1]

/- `SELECT u.* FROM u`, with these joins. -/
def everyUser
    (joins : List (Parser.JoinClause Rat)) :
    Parser.SelectStatement Rat :=
  { projections :=
      [{ node := nowhere
         expression := .star nowhere (some "u")
         alias_ := none }]
    table := { node := nowhere, name := "u", alias_ := none }
    joins := joins
    where_ := none
    groupBy := []
    having := none
    orderBy := [] }

/- `SELECT u.* FROM u`. -/
theorem unchanged_everyUser :
    ∃ select plan source,
      (bindSelect usersAndOrders (everyUser [])).run 0 =
          .ok select 0 ∧
        buildLogicalPlan ones select false none = some plan ∧
        dropIdentityProjection plan = .rows source ∧
        Unchanged select [[.int 1, .int 1]] := by
  have hSelect :
      (bindSelect usersAndOrders (everyUser [])).run 0 =
        .ok _ 0 := rfl
  refine ⟨_, ?plan, ?source, hSelect, ?built, ?dropped,
    (unchanged_iff hSelect ?built ?dropped ?rows).mpr
      (.inr rfl)⟩
  case built => rfl
  case dropped => rfl
  case rows => rfl

/- `JOIN o ON u.id = o.user_id`. -/
def joinOrders : Parser.JoinClause Rat :=
  { table := { node := nowhere, name := "o", alias_ := none }
    on := .binaryOp nowhere .eq
      (.columnRef nowhere "id" (some "u"))
      (.columnRef nowhere "user_id" (some "o"))
    kind := .inner }

/- `SELECT u.* FROM u JOIN o ON u.id = o.user_id` has rows of
   four values. -/
theorem joined_row_too_wide :
    ¬ ∀ (statement : Parser.SelectStatement Rat)
      (select : BoundSelect Rat)
      (plan : SelectPlan Rat (scopeWidth select.scope))
      (source : RowSource Rat (scopeWidth select.scope))
      (rows : List (List (Value Rat))),
      (bindSelect usersAndOrders statement).run 0 =
          .ok select 0 →
        buildLogicalPlan ones select false none = some plan →
          dropIdentityProjection plan = .rows source →
            source.rows = .ok rows → Unchanged select rows := by
  intro hAll
  have hUnchanged := hAll (everyUser [joinOrders]) _ _ _
    [[.int 1, .int 1, .int 1, .int 1]] rfl rfl rfl rfl
  have hWidth := (hUnchanged _ (.head _)).2
  cases hWidth

end Optimizer

end ChenDB
