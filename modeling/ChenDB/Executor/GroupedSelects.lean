import ChenDB.Executor.BoundObjects
import ChenDB.Optimizer.OuterJoins

/-
  Grouped queries as a whole: what an accepted `SELECT` keeps
  of its expressions above the aggregate, and the `IN` lists
  that rewriting passes over.
-/

--
-- The Plan of the Grouping
--

namespace ChenDB

namespace Executor

open BoundExpression (bare isCall isColumn walk)
open Library.StateExcept (ok_of_bind ok_of_run_bind)
open Library.Traversal (exists_of_forall₂ forall₂_of_mapM
  forall₂_of_mem ok_of_run_liftExcept ok_of_run_tryCatch)

variable {φ : Type} [Spelling φ] [DecidableEq φ]
variable {seen : Seen φ}

variable {keys : List (BoundExpression φ)}

theorem forall₂_rewrites
    {expressions rewritten : List (BoundExpression φ)}
    (hOk : expressions.mapM (rewriteOverGroup keys seen) =
      .ok rewritten) :
    List.Forall₂ (Rewrites keys seen) expressions rewritten :=
  (forall₂_of_mapM hOk).imp fun _ _ => rewrites_of_ok

variable {projections : List (BoundExpression φ)}
variable {having : Option (BoundExpression φ)}
variable {expression : BoundExpression φ}

/- What a planned grouping is made of. -/
theorem planAggregation_ok
    {groupKeys : List (BoundExpression φ)}
    {planned : List (BoundExpression φ) ×
      Option (BoundAggregation φ)}
    (hOk : planAggregation projections groupKeys having =
      .ok planned) :
    ∃ seen,
      Registered groupKeys
          ((projections ++ having.toList).flatMap
            BoundExpression.calls) seen ∧
        ((groupKeys = [] ∧ seen = [] ∧
            planned = (projections, none)) ∨
          ∃ rewritten having',
            List.Forall₂ (Rewrites groupKeys seen)
                projections rewritten ∧
              List.Forall₂ (Rewrites groupKeys seen)
                having.toList having'.toList ∧
              planned = (rewritten, some
                { groupKeys := groupKeys
                  aggregates := seen.map Prod.snd
                  having := having' })) := by
  unfold planAggregation at hOk
  rcases ok_of_bind hOk with ⟨seen, hSeen, hRest⟩
  refine ⟨seen, registered_of_foldlM hSeen, ?_⟩
  by_cases hNothing : groupKeys = [] ∧ seen = []
  · rw [if_pos hNothing] at hRest
    cases hRest
    exact .inl ⟨hNothing.1, hNothing.2, rfl⟩
  · rw [if_neg hNothing] at hRest
    rcases ok_of_bind hRest with
      ⟨rewritten, hProjections, hRest⟩
    rcases ok_of_bind hRest with ⟨having', hHaving, hEnd⟩
    cases hEnd
    refine .inr ⟨rewritten, having',
      forall₂_rewrites hProjections, ?_, rfl⟩
    cases having with
    | none =>
      cases hHaving
      exact .nil
    | some condition =>
      rcases ok_of_bind hHaving with
        ⟨condition', hCondition, hEnd⟩
      cases hEnd
      exact .cons (rewrites_of_ok hCondition) .nil

omit [Spelling φ] [DecidableEq φ] in
/- The table of `_sort_position` is the one of the plan. -/
theorem seenAgain_eq
    (hTabled : Tabled keys seen) :
    seenAgain (seen.map Prod.snd) = seen := by
  unfold seenAgain
  rw [List.map_map]
  conv_rhs => rw [← List.map_id seen]
  refine List.map_congr_left fun pair hPair => ?_
  have hSame := hTabled.signatures pair hPair
  refine Prod.ext ?_ rfl
  simp only [Function.comp_apply, id, hSame]
  cases pair.2.aggregate <;> rfl

/- Rewriting makes no lists. -/
theorem rewrites_objects
    {objects : Nat → BoundExpression φ}
    {rewritten : BoundExpression φ}
    (hRewrites : Rewrites keys seen expression rewritten)
    (hObjects : Objects objects expression.walk) :
    Objects objects rewritten.walk := by
  induction hRewrites with
  | slot hSlot =>
    rcases groupSlot_cases hSlot with
      ⟨_, _, _, _, _, _, rfl⟩ | ⟨_, _, _, _, rfl⟩ <;>
    · intro node hNode identity hIdentity
      simp only [slotRef, walk, List.mem_singleton] at hNode
      rw [hNode] at hIdentity
      cases hIdentity
  | literal => exact hObjects
  | call hSlot hCall => exact hObjects
  | inList hSlot => exact hObjects
  | unaryOp hSlot hOperand ih =>
    have hInner := ih (hObjects.mono (by simp [walk]))
    intro node hNode identity hIdentity
    rcases List.mem_cons.mp hNode with rfl | hNode
    · cases hIdentity
    · exact hInner node hNode identity hIdentity
  | binaryOp hSlot hLeft hRight ihLeft ihRight =>
    have hFirst := ihLeft (hObjects.mono (by simp [walk]))
    have hSecond := ihRight (hObjects.mono (by simp [walk]))
    intro node hNode identity hIdentity
    rcases List.mem_cons.mp hNode with rfl | hNode
    · cases hIdentity
    · rcases List.mem_append.mp hNode with hNode | hNode
      · exact hFirst node hNode identity hIdentity
      · exact hSecond node hNode identity hIdentity
  | isNullTest hSlot hOperand ih =>
    have hInner := ih (hObjects.mono (by simp [walk]))
    intro node hNode identity hIdentity
    rcases List.mem_cons.mp hNode with rfl | hNode
    · cases hIdentity
    · exact hInner node hNode identity hIdentity

--
-- Accepted Selects
--

variable {catalog : Catalog}
variable {statement : Parser.SelectStatement φ}
variable {clauses : BoundClauses φ}
variable {start next final : Nat}
variable {select : BoundSelect φ}

/- What went into an accepted `SELECT` after its clauses. -/
theorem bindSelect_ok
    (hClauses : (bindClauses catalog statement).run start =
      .ok clauses next)
    (hSelect : (bindSelect catalog statement).run start =
      .ok select final) :
    ∃ planned,
      planAggregation clauses.projections clauses.groupKeys
          clauses.having = .ok planned ∧
        (bindOrderBy clauses.scope planned.1
          clauses.outputColumns planned.2
          statement.orderBy).run next =
            .ok select.orderBy final ∧
        select.projections = planned.1 ∧
        select.aggregation = planned.2 := by
  unfold bindSelect at hSelect
  rcases ok_of_run_bind hSelect with
    ⟨clauses', next', hClauses', hOutput⟩
  rw [hClauses] at hClauses'
  cases hClauses'
  unfold bindOutput at hOutput
  rcases ok_of_run_bind hOutput with
    ⟨planned, middle, hPlanned, hRest⟩
  rcases ok_of_run_liftExcept hPlanned with ⟨hPlan, rfl⟩
  rcases ok_of_run_bind hRest with
    ⟨orderBy, last, hOrderBy, hEnd⟩
  cases hEnd
  exact ⟨planned, hPlan, hOrderBy, rfl, rfl⟩

/- An `ORDER BY` term that is an expression, with what it
   binds to. -/
def SortsBy
    (clauses : BoundClauses φ)
    (item : Parser.OrderByItem φ)
    (bound : BoundExpression φ) : Prop :=
  ordinal item.expression = none ∧
    namedColumn clauses.outputColumns item.expression = none ∧
    ∃ next final,
      (bindExpression clauses.scope item.expression).run
        next = .ok bound final

variable {aggregation : Option (BoundAggregation φ)}
variable {index : Nat}

theorem sortPosition_ok
    {scope : Scope}
    {columns : List ResultColumn}
    {expression : Parser.Expression φ}
    (hRun : (sortPosition scope projections columns
      aggregation expression).run next =
        .ok (some index) final) :
    (next = final ∧
        (ordinal expression ≠ none ∨
          namedColumn columns expression ≠ none)) ∨
      ∃ bound,
        (bindExpression scope expression).run next =
            .ok bound final ∧
          sortExpression projections aggregation bound =
            some index := by
  unfold sortPosition at hRun
  cases hOrdinal : ordinal expression with
  | some value =>
    left
    simp only [hOrdinal] at hRun
    split at hRun
    · cases hRun
      exact ⟨rfl, .inl (by simp)⟩
    · cases hRun
  | none =>
    simp only [hOrdinal] at hRun
    cases hNamed : namedColumn columns expression with
    | some place =>
      left
      simp only [hNamed] at hRun
      cases hRun
      exact ⟨rfl, .inr (by simp)⟩
    | none =>
      right
      simp only [hNamed] at hRun
      rcases ok_of_run_tryCatch hRun with hTry | hCatch
      · rcases ok_of_run_bind hTry with
          ⟨bound, middle, hBound, hEnd⟩
        rcases EStateM.Result.ok.inj hEnd with ⟨hIndex, rfl⟩
        exact ⟨bound, hBound, hIndex⟩
      · rcases hCatch with ⟨raised, middle, _, hEnd⟩
        cases hEnd

/- How one `ORDER BY` expression came to its column. -/
def SortedBy
    (clauses : BoundClauses φ)
    (projections : List (BoundExpression φ))
    (aggregation : Option (BoundAggregation φ))
    (item : Parser.OrderByItem φ)
    (key : BoundSortKey) : Prop :=
  ∀ bound, SortsBy clauses item bound →
    ∃ next found,
      Stored next (clauses.nodes ++ found.walk) ∧
        found.bare = bound.bare ∧
        sortExpression projections aggregation found =
          some key.outputIndex

theorem sortPosition_sorted
    {item : Parser.OrderByItem φ}
    (hStored : Stored next clauses.nodes)
    (hRun : (sortPosition clauses.scope projections
      clauses.outputColumns aggregation
      item.expression).run next = .ok (some index) final)
    (descending : Bool) :
    Stored final clauses.nodes ∧
      SortedBy clauses projections aggregation item
        { outputIndex := index, descending := descending } := by
  rcases sortPosition_ok hRun with
    ⟨rfl, hNamed⟩ | ⟨found, hFound, hIndex⟩
  · refine ⟨hStored, fun bound hSorts => ?_⟩
    exact (hNamed.elim (fun h => h hSorts.1)
      (fun h => h hSorts.2.1)).elim
  · have hStored' := (bindExpression_stored clauses.scope
      item.expression clauses.nodes).of_ok hStored hFound
    refine ⟨hStored'.mono (List.subset_append_left _ _),
      fun bound hSorts => ?_⟩
    rcases hSorts with ⟨_, _, next', final', hBound⟩
    exact ⟨final, found, hStored',
      bindExpression_bare hFound hBound, hIndex⟩

theorem bindOrderBy_sorted
    {items : List (Parser.OrderByItem φ)}
    {keys : List BoundSortKey}
    (hStored : Stored next clauses.nodes)
    (hRun : (bindOrderBy clauses.scope projections
      clauses.outputColumns aggregation items).run next =
        .ok keys final) :
    List.Forall₂ (SortedBy clauses projections aggregation)
      items keys := by
  induction items generalizing next keys with
  | nil =>
    cases hRun
    exact .nil
  | cons item rest ih =>
    unfold bindOrderBy at hRun
    rcases ok_of_run_bind hRun with
      ⟨found, middle, hPosition, hRest⟩
    cases found with
    | none => cases hRest
    | some index =>
      rcases ok_of_run_bind hRest with
        ⟨others, last, hOthers, hEnd⟩
      cases hEnd
      rcases sortPosition_sorted hStored hPosition
        item.descending with ⟨hMiddle, hSorted⟩
      exact .cons hSorted (ih hMiddle hOthers)

--
-- Faithful Rewriting
--

/- `GROUP BY`, or an aggregate in the select list or in
   `HAVING`. -/
def Grouped (clauses : BoundClauses φ) : Prop :=
  clauses.groupKeys ≠ [] ∨
    ∃ expression ∈ clauses.listed, expression.calls ≠ []

/- On the row of every group with rows, the rewritten
   expression is what the original is on each of its rows,
   with every aggregate call replaced by its value. -/
def SameOverGroups [Double φ] [TrueDivision φ]
    (aggregation : BoundAggregation φ)
    (original rewritten : BoundExpression φ) : Prop :=
  ∀ (width : Nat) (rows : List (Row φ width)) grouped,
    IsGroup aggregation rows grouped →
      ∀ row ∈ rows,
        evaluateOver rows row original =
          evaluateBound grouped.get rewritten

structure GroupedFaithfully [Double φ] [TrueDivision φ]
    (statement : Parser.SelectStatement φ)
    (clauses : BoundClauses φ)
    (select : BoundSelect φ)
    (aggregation : BoundAggregation φ) : Prop where
  slots : ∀ expression ∈
      select.projections ++ aggregation.having.toList,
    Addresses aggregation.width expression
  projections : List.Forall₂ (SameOverGroups aggregation)
    clauses.projections select.projections
  having : List.Forall₂ (SameOverGroups aggregation)
    clauses.having.toList aggregation.having.toList
  orderBy : List.Forall₂
    (fun item (key : BoundSortKey) => ∀ bound,
      SortsBy clauses item bound →
        ∃ projection,
          select.projections[key.outputIndex]? =
              some projection ∧
            SameOverGroups aggregation bound projection)
    statement.orderBy select.orderBy

/- A column outside every aggregate, and not inside a
   grouping expression, in the select list, in `HAVING` or in
   an `ORDER BY` expression. -/
def HasStray
    (statement : Parser.SelectStatement φ)
    (clauses : BoundClauses φ) : Prop :=
  (∃ expression ∈ clauses.listed,
      Stray clauses.groupKeys expression) ∨
    ∃ item ∈ statement.orderBy, ∃ bound,
      SortsBy clauses item bound ∧ Stray clauses.groupKeys bound

structure RewritesFaithfully [Double φ] [TrueDivision φ]
    (catalog : Catalog)
    (statement : Parser.SelectStatement φ) : Prop where
  accepted : ∀ start clauses next select final,
    (bindClauses catalog statement).run start =
        .ok clauses next →
      Grouped clauses →
        (bindSelect catalog statement).run start =
            .ok select final →
          ∃ aggregation,
            select.aggregation = some aggregation ∧
              GroupedFaithfully statement clauses select
                aggregation
  refused : ∀ start clauses next,
    (bindClauses catalog statement).run start =
        .ok clauses next →
      Grouped clauses →
        HasStray statement clauses →
          ∀ select final,
            (bindSelect catalog statement).run start ≠
              .ok select final

/- No `IN` list that rewriting leaves where it stands, in an
   accepted grouped `SELECT`, has such a node in it. -/
def LeavesNone
    (wanted : BoundExpression φ → Bool)
    (catalog : Catalog)
    (statement : Parser.SelectStatement φ) : Prop :=
  ∀ start clauses next select final,
    (bindClauses catalog statement).run start =
        .ok clauses next →
      Grouped clauses →
        (bindSelect catalog statement).run start =
            .ok select final →
          ∀ expression ∈ clauses.listed,
            leaves wanted clauses.groupKeys expression = false

--
-- Planned Selects
--

/- An accepted grouped `SELECT`, with the table of its
   aggregates. -/
structure Planned
    (statement : Parser.SelectStatement φ)
    (clauses : BoundClauses φ)
    (select : BoundSelect φ)
    (seen : Seen φ)
    (having : Option (BoundExpression φ)) : Prop where
  registered : Registered clauses.groupKeys
    (clauses.listed.flatMap BoundExpression.calls) seen
  keys : ∀ key ∈ clauses.groupKeys, ∀ node ∈ key.walk,
    node.isCall = false
  stored : ∃ next, Stored next clauses.nodes
  projections : List.Forall₂ (Rewrites clauses.groupKeys seen)
    clauses.projections select.projections
  condition : List.Forall₂ (Rewrites clauses.groupKeys seen)
    clauses.having.toList having.toList
  aggregation : select.aggregation = some
    { groupKeys := clauses.groupKeys
      aggregates := seen.map Prod.snd
      having := having }
  orderBy : List.Forall₂
    (SortedBy clauses select.projections select.aggregation)
    statement.orderBy select.orderBy

theorem planned_of_accepted
    (hClauses : (bindClauses catalog statement).run start =
      .ok clauses next)
    (hGrouped : Grouped clauses)
    (hSelect : (bindSelect catalog statement).run start =
      .ok select final) :
    ∃ seen having,
      Planned statement clauses select seen having := by
  rcases (bindClauses_stored catalog statement).of_ok trivial
    hClauses with ⟨hStored, hKeys⟩
  rcases bindSelect_ok hClauses hSelect with
    ⟨planned, hPlan, hOrderBy, hProjections, hAggregation⟩
  have hSorted := bindOrderBy_sorted hStored hOrderBy
  rw [← hProjections, ← hAggregation] at hSorted
  rcases planAggregation_ok hPlan with
    ⟨seen, hRegistered, hNothing | hSome⟩
  · rcases hNothing with ⟨hNoKeys, rfl, _⟩
    rcases hGrouped with hGrouped | ⟨expression, hListed,
      hCalls⟩
    · exact absurd hNoKeys hGrouped
    · rcases List.exists_mem_of_ne_nil _ hCalls with
        ⟨call, hCall⟩
      have hFound := hRegistered.found call
        (List.mem_flatMap.mpr ⟨expression, hListed, hCall⟩)
        (List.mem_filter.mp hCall).2
      cases hFound
  · rcases hSome with
      ⟨rewritten, having, hRewritten, hHaving, rfl⟩
    refine ⟨seen, having, ?_⟩
    exact
      { registered := hRegistered
        keys := hKeys
        stored := ⟨next, hStored⟩
        projections := hProjections ▸ hRewritten
        condition := hHaving
        aggregation := hAggregation
        orderBy := hSorted }

namespace Planned

theorem listed
    (hPlanned :
      Planned statement clauses select seen having) :
    List.Forall₂ (Rewrites clauses.groupKeys seen)
      clauses.listed
      (select.projections ++ having.toList) :=
  List.rel_append hPlanned.projections hPlanned.condition

variable {objects : Nat → BoundExpression φ}

omit [DecidableEq φ] [Spelling φ] in
theorem nodes_listed
    (hObjects : Objects objects clauses.nodes)
    (hListed : expression ∈ clauses.listed) :
    Objects objects expression.walk :=
  hObjects.mono (fun _ hNode =>
    List.mem_append_right _
      (List.mem_flatMap.mpr ⟨expression, hListed, hNode⟩))

section Objects

variable (hPlanned :
    Planned statement clauses select seen having)

include hPlanned

theorem plan_objects
    (hObjects : Objects objects clauses.nodes) :
    Objects objects (planNodes clauses.groupKeys seen) := by
  refine hPlanned.registered.objects hObjects
    (List.subset_append_left _ _) ?_
  intro call hCall node hNode
  rcases List.mem_flatMap.mp hCall with
    ⟨expression, hListed, hIn⟩
  have hInner := walk_subset expression call
    (List.mem_filter.mp hIn).1 hNode
  exact List.mem_append_right _
    (List.mem_flatMap.mpr ⟨expression, hListed, hInner⟩)

variable {rewritten : BoundExpression φ}

/- Without a list that is left, everything rewritten is
   settled. -/
theorem settled_listed
    (hLists : ∀ expression ∈ clauses.listed,
      leaves isColumnOrCall clauses.groupKeys expression =
        false)
    (hRewritten :
      rewritten ∈ select.projections ++ having.toList) :
    settled rewritten := by
  rcases exists_of_forall₂ hPlanned.listed hRewritten with
    ⟨expression, hListed, hRewrites⟩
  refine rewrites_settled hRewrites (fun call hCall => ?_)
    (hLists expression hListed)
  exact hPlanned.registered.found call
    (List.mem_flatMap.mpr ⟨expression, hListed, hCall⟩)
    (List.mem_filter.mp hCall).2

/- A rewritten clause is the same over groups, and has no
   column of its own. -/
theorem same_listed [Double φ] [TrueDivision φ]
    (hListed : expression ∈ clauses.listed)
    (hRewrites : Rewrites clauses.groupKeys seen expression
      rewritten)
    (hSettled : settled rewritten) :
    SameOverGroups
        { groupKeys := clauses.groupKeys
          aggregates := seen.map Prod.snd
          having := having } expression rewritten ∧
      ¬ Stray clauses.groupKeys expression := by
  rcases hPlanned.stored with ⟨next, hStored⟩
  rcases hStored.objects with ⟨objects, hObjects⟩
  have hPlan := hPlanned.plan_objects hObjects
  have hExpression := nodes_listed hObjects hListed
  refine ⟨fun width rows grouped hGroup row hRow => ?_,
    rewrites_not_stray hPlanned.registered.tabled hPlan
      hRewrites hExpression hSettled⟩
  rcases rewrites_same hPlanned.registered.tabled hPlan
    hPlanned.keys (hGroup.holds hRow) hRewrites hExpression
    hSettled with ⟨replaced, hReplaced, hSame⟩
  unfold evaluateOver
  rw [hReplaced]
  exact hSame

/- So is an expression to sort by, at the column that it came
   to. -/
theorem same_sorted [Double φ] [TrueDivision φ]
    (hSettled : ∀ rewritten ∈ select.projections,
      settled rewritten)
    {item : Parser.OrderByItem φ}
    {key : BoundSortKey}
    (hSorted : SortedBy clauses select.projections
      select.aggregation item key)
    {bound : BoundExpression φ}
    (hSorts : SortsBy clauses item bound) :
    ¬ Stray clauses.groupKeys bound ∧
      ∃ projection,
        select.projections[key.outputIndex]? =
            some projection ∧
          SameOverGroups
            { groupKeys := clauses.groupKeys
              aggregates := seen.map Prod.snd
              having := having } bound projection := by
  rcases hSorted bound hSorts with
    ⟨next, found, hStored, hBare, hFound⟩
  rcases hStored.objects with ⟨objects, hObjects⟩
  have hNodes := hObjects.mono
    (List.subset_append_left clauses.nodes found.walk)
  have hPlan := hPlanned.plan_objects hNodes
  have hFoundNodes := hObjects.mono
    (List.subset_append_right clauses.nodes found.walk)
  rw [hPlanned.aggregation] at hFound
  simp only [sortExpression,
    seenAgain_eq hPlanned.registered.tabled] at hFound
  cases hRewritten : rewriteOverGroup clauses.groupKeys seen
      found with
  | error raised =>
    rw [hRewritten] at hFound
    cases hFound
  | ok rewritten =>
    rw [hRewritten] at hFound
    rcases indexBySignature_some hFound with
      ⟨projection, hAt, hSignature⟩
    have hMem := List.mem_of_getElem? hAt
    have hRewrites := rewrites_of_ok hRewritten
    rcases exists_of_forall₂ hPlanned.projections hMem with
      ⟨expression, hProjection, hOther⟩
    have hListed : expression ∈ clauses.listed :=
      List.mem_append_left _ hProjection
    -- The two read the same: they share a signature, and
    -- neither has a list that was not there before.
    have hSameBare : projection.bare = rewritten.bare :=
      bare_eq_of_signature
        (rewrites_objects hOther
          (nodes_listed hNodes hListed))
        (rewrites_objects hRewrites hFoundNodes)
        hSignature
    have hSettledHere : settled rewritten := by
      rw [← settled_bare, ← hSameBare, settled_bare]
      exact hSettled projection hMem
    have hNotStray := rewrites_not_stray
      hPlanned.registered.tabled hPlan hRewrites hFoundNodes
      hSettledHere
    refine ⟨?_, projection, hAt, ?_⟩
    · rw [← stray_bare, ← hBare, stray_bare]
      exact hNotStray
    · intro width rows grouped hGroup row hRow
      rcases rewrites_same hPlanned.registered.tabled hPlan
        hPlanned.keys (hGroup.holds hRow) hRewrites
        hFoundNodes hSettledHere with
        ⟨replaced, hReplaced, hSame⟩
      rw [← evaluateOver_congr rows row hBare]
      unfold evaluateOver
      rw [hReplaced, ← evaluateBound_bare grouped.get
        projection, hSameBare, evaluateBound_bare]
      exact hSame

end Objects

end Planned

--
-- Every Grouped Select
--

section Faithful

variable [Double φ] [TrueDivision φ]
variable
    (hPlanned : Planned statement clauses select seen having)
    (hLists : ∀ expression ∈ clauses.listed,
      leaves isColumnOrCall clauses.groupKeys expression =
        false)

include hPlanned hLists

theorem faithful_of_planned :
    GroupedFaithfully statement clauses select
      { groupKeys := clauses.groupKeys
        aggregates := seen.map Prod.snd
        having := having } where
  slots := by
    intro rewritten hRewritten
    rcases exists_of_forall₂ hPlanned.listed hRewritten with
      ⟨expression, hListed, hRewrites⟩
    have hAddresses := rewrites_addresses
      hPlanned.registered.tabled hRewrites
      (hPlanned.settled_listed hLists hRewritten)
    simpa [BoundAggregation.width] using hAddresses
  projections := by
    refine forall₂_of_mem hPlanned.projections
      fun expression hExpression rewritten hRewritten
        hRewrites => ?_
    exact (hPlanned.same_listed
      (List.mem_append_left _ hExpression) hRewrites
      (hPlanned.settled_listed hLists
        (List.mem_append_left _ hRewritten))).1
  having := by
    refine forall₂_of_mem hPlanned.condition
      fun expression hExpression rewritten hRewritten
        hRewrites => ?_
    exact (hPlanned.same_listed
      (List.mem_append_right _ hExpression) hRewrites
      (hPlanned.settled_listed hLists
        (List.mem_append_right _ hRewritten))).1
  orderBy := by
    refine hPlanned.orderBy.imp
      fun item key hSorted bound hSorts => ?_
    exact (hPlanned.same_sorted
      (fun rewritten hRewritten =>
        hPlanned.settled_listed hLists
          (List.mem_append_left _ hRewritten))
      hSorted hSorts).2

theorem no_stray_of_planned :
    ¬ HasStray statement clauses := by
  rintro (⟨expression, hListed, hStray⟩ |
    ⟨item, hItem, bound, hSorts, hStray⟩)
  · rcases exists_of_forall₂ hPlanned.listed.flip hListed with
      ⟨rewritten, hRewritten, hRewrites⟩
    exact (hPlanned.same_listed hListed hRewrites
      (hPlanned.settled_listed hLists hRewritten)).2 hStray
  · rcases exists_of_forall₂ hPlanned.orderBy.flip hItem with
      ⟨key, _, hSorted⟩
    exact (hPlanned.same_sorted
      (fun rewritten hRewritten =>
        hPlanned.settled_listed hLists
          (List.mem_append_left _ hRewritten))
      hSorted hSorts).1 hStray

end Faithful

/- A list that is left with a column in it keeps a reference
   to a table. -/
theorem no_column_of_slots
    {width : Nat}
    (hPlanned :
      Planned statement clauses select seen having)
    (hSlots : ∀ rewritten ∈
        select.projections ++ having.toList,
      Addresses width rewritten)
    (hListed : expression ∈ clauses.listed) :
    leaves isColumn clauses.groupKeys expression = false := by
  rcases exists_of_forall₂ hPlanned.listed.flip hListed with
    ⟨rewritten, hRewritten, hRewrites⟩
  rcases hPlanned.stored with ⟨next, hStored⟩
  cases hLeaves :
      leaves isColumn clauses.groupKeys expression with
  | false => rfl
  | true =>
    rcases rewrites_leaves_column
      hPlanned.registered.tabled hRewrites hLeaves with
      ⟨node, reference, hBefore, hAfter⟩
    have hTable := hStored.tables node reference
      (List.mem_append_right _ (List.mem_flatMap.mpr
        ⟨expression, hListed, hBefore⟩))
    have hNone :=
      (hSlots rewritten hRewritten node reference hAfter).1
    rw [hNone] at hTable
    cases hTable

/- Rewriting is faithful where it leaves no `IN` list with a
   column or an aggregate in it, and unfaithful where it
   leaves one with a column. -/
theorem grouped_rewriting [Double φ] [TrueDivision φ]
    (catalog : Catalog)
    (statement : Parser.SelectStatement φ) :
    (LeavesNone isColumnOrCall catalog statement →
        RewritesFaithfully catalog statement) ∧
      (RewritesFaithfully catalog statement →
        LeavesNone isColumn catalog statement) := by
  constructor
  · intro hNone
    constructor
    · intro start clauses next select final hClauses hGrouped
        hSelect
      have hLists := hNone start clauses next select final
        hClauses hGrouped hSelect
      rcases planned_of_accepted hClauses hGrouped hSelect
        with ⟨seen, having, hPlanned⟩
      exact ⟨_, hPlanned.aggregation,
        faithful_of_planned hPlanned hLists⟩
    · intro start clauses next hClauses hGrouped hStray select
        final hSelect
      have hLists := hNone start clauses next select final
        hClauses hGrouped hSelect
      rcases planned_of_accepted hClauses hGrouped hSelect
        with ⟨seen, having, hPlanned⟩
      exact no_stray_of_planned hPlanned hLists hStray
  · intro hFaithful start clauses next select final hClauses
      hGrouped hSelect expression hListed
    rcases planned_of_accepted hClauses hGrouped hSelect
      with ⟨seen, having, hPlanned⟩
    rcases hFaithful.accepted start clauses next select final
      hClauses hGrouped hSelect with
      ⟨aggregation, hAggregation, hFaithfully⟩
    rw [hPlanned.aggregation] at hAggregation
    cases hAggregation
    exact no_column_of_slots hPlanned hFaithfully.slots hListed

--
-- A List That Is Passed Over
--

/- The names below are in lower case already. -/
instance : Spelling Rat where
  casefold name := name
  repr
    | .null => "None"
    | .bool value => if value then "True" else "False"
    | .int value => toString value
    | .float value => toString value
    | .text value => s!"'{value}'"


/- A table `t` of two integer columns, `a` and `b`. -/
def twoColumns : Catalog :=
  [{ name := "t"
     schema :=
      [{ name := "a", dataType := .integer },
       { name := "b", dataType := .integer }] }]

/- `SELECT b FROM t GROUP BY b HAVING a IN (1)`. -/
def strayInList : Parser.SelectStatement Rat :=
  { projections :=
      [{ node := nowhere
         expression := .columnRef nowhere "b" none
         alias_ := none }]
    table := { node := nowhere, name := "t", alias_ := none }
    joins := []
    where_ := none
    groupBy := [.columnRef nowhere "b" none]
    having := some (.inList nowhere
      (.columnRef nowhere "a" none)
      (.one (.literal nowhere (.int 1) (some .integer)))
      false)
    orderBy := [] }

theorem stray_accepted :
    ¬ RewritesFaithfully twoColumns strayInList := by
  intro hFaithful
  have hClauses :
      (bindClauses twoColumns strayInList).run 0 =
        .ok _ 1 := rfl
  have hSelect :
      (bindSelect twoColumns strayInList).run 0 = .ok _ 1 := rfl
  refine hFaithful.refused 0 _ 1 hClauses
    (.inl (List.cons_ne_nil _ _)) (.inl ?_) _ 1 hSelect
  refine ⟨_, List.mem_append_right _ (.head _), ?_⟩
  constructor
  · intro key hKey
    rw [List.mem_singleton.mp hKey]
    exact nofun
  · left
    intro key hKey
    rw [List.mem_singleton.mp hKey]
    intro hSame
    cases hSame

end Executor

end ChenDB
