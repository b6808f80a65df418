import ChenDB.Executor.Rewriting

/-
  The objects that binding makes: each `IN` list gets an
  identity that no other has, every column is one of a table,
  and what an expression is bound to reads the same wherever
  the identities start.
-/

--
-- Stored Objects
--

namespace ChenDB

namespace Executor

open BoundExpression (bare bareItems isCall walk walkItems)
open Library.StateExcept (Triple)
open Library.Traversal (triple_liftExcept)

variable {φ : Type}

/- The nodes are objects with identities below the next, and
   their columns are columns of tables. -/
structure Stored
    (next : Nat)
    (nodes : List (BoundExpression φ)) : Prop where
  objects : ∃ objects, Objects objects nodes
  fresh : ∀ node ∈ nodes, ∀ identity,
    node.identity = some identity → identity < next
  tables : ∀ node reference,
    .column node reference ∈ nodes → reference.table.isSome

namespace Stored

variable {next : Nat} {nodes fewer : List (BoundExpression φ)}

theorem empty : Stored next ([] : List (BoundExpression φ)) where
  objects := ⟨fun _ => .countRows nowhere,
    fun _ hNode => absurd hNode List.not_mem_nil⟩
  fresh := fun _ hNode => absurd hNode List.not_mem_nil
  tables := fun _ _ hNode => absurd hNode List.not_mem_nil

theorem mono
    (hStored : Stored next nodes)
    (hSub : fewer ⊆ nodes) :
    Stored next fewer where
  objects := by
    rcases hStored.objects with ⟨objects, hObjects⟩
    exact ⟨objects, hObjects.mono hSub⟩
  fresh := fun node hNode => hStored.fresh node (hSub hNode)
  tables := fun node reference hNode =>
    hStored.tables node reference (hSub hNode)

/- A new node that is no list and no column. -/
theorem cons
    (hStored : Stored next nodes)
    (node : BoundExpression φ)
    (hIdentity : node.identity = none)
    (hColumn : node.isColumn = false) :
    Stored next (node :: nodes) where
  objects := by
    rcases hStored.objects with ⟨objects, hObjects⟩
    refine ⟨objects, fun other hOther identity hSame => ?_⟩
    rcases List.mem_cons.mp hOther with rfl | hOther
    · rw [hIdentity] at hSame
      cases hSame
    · exact hObjects other hOther identity hSame
  fresh := by
    intro other hOther identity hSame
    rcases List.mem_cons.mp hOther with rfl | hOther
    · rw [hIdentity] at hSame
      cases hSame
    · exact hStored.fresh other hOther identity hSame
  tables := by
    intro place reference hNode
    rcases List.mem_cons.mp hNode with rfl | hNode
    · cases hColumn
    · exact hStored.tables place reference hNode

theorem cons_column
    (hStored : Stored next nodes)
    (node : Parser.Node)
    (reference : BoundColumn)
    (hTable : reference.table.isSome) :
    Stored next (.column node reference :: nodes) where
  objects := by
    rcases hStored.objects with ⟨objects, hObjects⟩
    refine ⟨objects, fun other hOther identity hSame => ?_⟩
    rcases List.mem_cons.mp hOther with rfl | hOther
    · cases hSame
    · exact hObjects other hOther identity hSame
  fresh := by
    intro other hOther identity hSame
    rcases List.mem_cons.mp hOther with rfl | hOther
    · cases hSame
    · exact hStored.fresh other hOther identity hSame
  tables := by
    intro place other hNode
    rcases List.mem_cons.mp hNode with hSame | hNode
    · cases hSame
      exact hTable
    · exact hStored.tables place other hNode

/- A new list under the next identity. -/
theorem cons_list
    (hStored : Stored next nodes)
    (node : Parser.Node)
    (operand : BoundExpression φ)
    (items : BoundItems φ)
    (negated : Bool) :
    Stored (next + 1)
      (.inList node operand items negated next :: nodes) where
  objects := by
    rcases hStored.objects with ⟨objects, hObjects⟩
    refine ⟨Function.update objects next
      (bare (.inList node operand items negated next)),
      fun other hOther identity hSame => ?_⟩
    rcases List.mem_cons.mp hOther with rfl | hOther
    · cases hSame
      exact Function.update_self ..
    · have hBelow := hStored.fresh other hOther identity hSame
      rw [Function.update_of_ne (by omega)]
      exact hObjects other hOther identity hSame
  fresh := by
    intro other hOther identity hSame
    rcases List.mem_cons.mp hOther with rfl | hOther
    · cases hSame
      omega
    · have hBelow := hStored.fresh other hOther identity hSame
      omega
  tables := by
    intro place reference hNode
    rcases List.mem_cons.mp hNode with hSame | hNode
    · cases hSame
    · exact hStored.tables place reference hNode

end Stored

--
-- Binding an Expression
--

section Binding

variable [Spelling φ]

variable {scope : Scope}

theorem bindColumnRef_table
    {node : Parser.Node}
    {name : String}
    {table : Option String}
    {column : BoundColumn}
    (hBind : bindColumnRef φ scope node name table =
      .ok column) :
    column.table.isSome := by
  unfold bindColumnRef at hBind
  simp only at hBind
  split at hBind
  · cases hBind
  · cases hBind
    rfl
  · cases hBind

/- After binding, the new nodes are stored beside the ones
   there were. -/
abbrev Stores {α : Type}
    (known : List (BoundExpression φ))
    (program : BindM α)
    (nodes : α → List (BoundExpression φ)) : Prop :=
  Triple (fun next => Stored next known) program
    (fun value next => Stored next (known ++ nodes value))
    (fun _ _ => True)

omit [Spelling φ] in
theorem allocate_stored
    (nodes : List (BoundExpression φ)) :
    Triple (fun next => Stored next nodes) allocate
      (fun identity next =>
        Stored identity nodes ∧ next = identity + 1)
      (fun _ _ => True) := by
  intro next hStored
  exact ⟨hStored, rfl⟩

mutual

theorem bindExpression_stored
    (scope : Scope) :
    ∀ (expression : Parser.Expression φ)
      (known : List (BoundExpression φ)),
      Stores known (bindExpression scope expression)
        BoundExpression.walk
  | .columnRef node name table, known => by
      unfold bindExpression
      refine Triple.bind
        (Q := fun column next =>
          Stored next known ∧ column.table.isSome)
        (triple_liftExcept
          (fun column hColumn next hStored =>
            ⟨hStored, bindColumnRef_table hColumn⟩)
          (fun _ _ _ => trivial)) ?_
      intro column
      refine Triple.pure fun next hStored => ?_
      refine (hStored.1.cons_column node column hStored.2).mono ?_
      simp [walk]
  | .literal node value dataType, known => by
      unfold bindExpression
      refine Triple.pure fun next hStored => ?_
      refine (hStored.cons (.literal node value dataType)
        rfl rfl).mono ?_
      simp [walk]
  | .star node table, known =>
    Triple.throw fun _ _ => trivial
  | .countRows node, known => by
      unfold bindExpression
      refine Triple.pure fun next hStored => ?_
      refine (hStored.cons (.countRows node)
        rfl rfl).mono ?_
      simp [walk]
  | .functionCall node function argument, known => by
      unfold bindExpression
      refine Triple.bind
        (bindExpression_stored scope argument known) ?_
      intro bound
      refine Triple.pure fun next hStored => ?_
      refine (hStored.cons (.functionCall node function bound)
        rfl rfl).mono ?_
      simp [walk]
  | .unaryOp node op operand, known => by
      unfold bindExpression
      refine Triple.bind
        (bindExpression_stored scope operand known) ?_
      intro bound
      refine Triple.pure fun next hStored => ?_
      refine (hStored.cons (.unaryOp node op bound)
        rfl rfl).mono ?_
      simp [walk]
  | .binaryOp node op left right, known => by
      unfold bindExpression
      refine Triple.bind
        (bindExpression_stored scope left known) ?_
      intro first
      refine Triple.bind
        (bindExpression_stored scope right _) ?_
      intro second
      refine Triple.pure fun next hStored => ?_
      refine (hStored.cons (.binaryOp node op first second)
        rfl rfl).mono ?_
      simp [walk]
  | .isNullTest node operand negated, known => by
      unfold bindExpression
      refine Triple.bind
        (bindExpression_stored scope operand known) ?_
      intro bound
      refine Triple.pure fun next hStored => ?_
      refine (hStored.cons (.isNullTest node bound negated)
        rfl rfl).mono ?_
      simp [walk]
  | .inList node operand items negated, known => by
      unfold bindExpression
      refine Triple.bind
        (bindExpression_stored scope operand known) ?_
      intro bound
      refine Triple.bind
        (bindItems_stored scope items _) ?_
      intro boundItems
      refine Triple.bind (allocate_stored _) ?_
      intro identity
      refine Triple.pure ?_
      rintro next ⟨hStored, rfl⟩
      refine (hStored.cons_list node bound boundItems
        negated).mono ?_
      simp [walk]
  | .scalarSubquery node, known =>
    Triple.throw fun _ _ => trivial

theorem bindItems_stored
    (scope : Scope) :
    ∀ (items : Parser.Items φ)
      (known : List (BoundExpression φ)),
      Stores known (bindItems scope items) walkItems
  | .one item, known => by
      unfold bindItems
      refine Triple.bind
        (bindExpression_stored scope item known) ?_
      intro bound
      exact Triple.pure fun next hStored => hStored
  | .more item rest, known => by
      unfold bindItems
      refine Triple.bind
        (bindExpression_stored scope item known) ?_
      intro bound
      refine Triple.bind (bindItems_stored scope rest _) ?_
      intro others
      refine Triple.pure fun next hStored => ?_
      refine hStored.mono ?_
      simp [walkItems]

end

--
-- Binding Twice
--

/- Whatever the state, the program's value is one value,
   seen through `f`. -/
def Always {α β : Type}
    (f : α → β)
    (program : BindM α) : Prop :=
  ∃ shape, Triple (fun _ => True) program
    (fun value _ => f value = shape) (fun _ _ => True)

omit [Spelling φ] in
/- A part that has one value, and what is made of it. -/
theorem Always.bind {α β γ δ : Type}
    {f : α → γ}
    {g : β → δ}
    {first : BindM α}
    {next : α → BindM β}
    (hFirst : Always f first)
    (hNext : ∀ shape, ∃ whole, ∀ value, f value = shape →
      Triple (fun _ => True) (next value)
        (fun result _ => g result = whole)
        (fun _ _ => True)) :
    Always g (first >>= next) := by
  rcases hFirst with ⟨shape, hFirst⟩
  rcases hNext shape with ⟨whole, hNext⟩
  refine ⟨whole, Triple.bind hFirst fun value => ?_⟩
  intro state hShape
  exact hNext value hShape state trivial

omit [Spelling φ] in
theorem Always.map {α β γ δ : Type}
    {f : α → γ}
    {g : β → δ}
    {first : BindM α}
    {make : α → β}
    (hFirst : Always f first)
    (combine : γ → δ)
    (hMake : ∀ value, g (make value) = combine (f value)) :
    Always g (first >>= fun value => pure (make value)) :=
  hFirst.bind fun shape => ⟨combine shape,
    fun value hShape => Triple.pure fun _ _ => by
      rw [hMake, hShape]⟩

mutual

theorem bindExpression_always (scope : Scope) :
    ∀ expression : Parser.Expression φ,
      Always bare (bindExpression scope expression)
  | .columnRef node name table => by
      unfold bindExpression
      cases bindColumnRef φ scope node name table with
      | error raised =>
        exact ⟨.countRows nowhere,
          fun _ _ => trivial⟩
      | ok column => exact ⟨_, fun _ _ => rfl⟩
  | .literal node value dataType => ⟨_, fun _ _ => rfl⟩
  | .star node table =>
    ⟨.countRows nowhere, fun _ _ => trivial⟩
  | .countRows node => ⟨_, fun _ _ => rfl⟩
  | .functionCall node function argument => by
      unfold bindExpression
      exact (bindExpression_always scope argument).map
        (.functionCall nowhere function) (fun _ => rfl)
  | .unaryOp node op operand => by
      unfold bindExpression
      exact (bindExpression_always scope operand).map
        (.unaryOp nowhere op) (fun _ => rfl)
  | .binaryOp node op left right => by
      unfold bindExpression
      refine (bindExpression_always scope left).bind
        fun shape => ?_
      rcases bindExpression_always scope right with
        ⟨other, hRight⟩
      refine ⟨.binaryOp nowhere op shape other,
        fun first hFirst => Triple.bind hRight
          fun second => Triple.pure fun _ hSecond => ?_⟩
      simp only [bare, hFirst, hSecond]
  | .isNullTest node operand negated => by
      unfold bindExpression
      exact (bindExpression_always scope operand).map
        (fun shape => .isNullTest nowhere shape negated)
        (fun _ => rfl)
  | .inList node operand items negated => by
      unfold bindExpression
      refine (bindExpression_always scope operand).bind
        fun shape => ?_
      rcases bindItems_always scope items with ⟨others, hItems⟩
      refine ⟨.inList nowhere shape others negated 0,
        fun bound hBound => Triple.bind hItems
          fun boundItems => ?_⟩
      intro state hOthers
      have hSame : bare (.inList node bound boundItems negated
          state) = .inList nowhere shape others negated 0 := by
        simp only [bare, hBound, hOthers]
      exact hSame
  | .scalarSubquery node =>
    ⟨.countRows nowhere, fun _ _ => trivial⟩

theorem bindItems_always (scope : Scope) :
    ∀ items : Parser.Items φ,
      Always bareItems (bindItems scope items)
  | .one item => by
      unfold bindItems
      exact (bindExpression_always scope item).map
        .one (fun _ => rfl)
  | .more item rest => by
      unfold bindItems
      refine (bindExpression_always scope item).bind
        fun shape => ?_
      rcases bindItems_always scope rest with ⟨others, hRest⟩
      refine ⟨.more shape others,
        fun bound hBound => Triple.bind hRest
          fun boundRest => Triple.pure fun _ hOthers => ?_⟩
      simp only [bareItems, hBound, hOthers]

end

variable {next : Nat}

/- Bound twice, an expression reads the same. -/
theorem bindExpression_bare
    {expression : Parser.Expression φ}
    {next' final final' : Nat}
    {first second : BoundExpression φ}
    (hFirst : (bindExpression scope expression).run next =
      .ok first final)
    (hSecond : (bindExpression scope expression).run next' =
      .ok second final') :
    first.bare = second.bare := by
  rcases bindExpression_always scope expression with
    ⟨shape, hShape⟩
  rw [hShape.of_ok trivial hFirst, hShape.of_ok trivial hSecond]

--
-- Binding the Clauses
--

theorem bindOptional_stored
    (scope : Scope)
    (expression : Option (Parser.Expression φ))
    (known : List (BoundExpression φ)) :
    Stores known (bindOptional scope expression)
      (fun bound => bound.toList.flatMap walk) := by
  cases expression with
  | none =>
    refine Triple.pure fun next hStored => ?_
    simpa using hStored
  | some expression =>
    unfold bindOptional
    refine Triple.bind
      (bindExpression_stored scope expression known) ?_
    intro bound
    refine Triple.pure fun next hStored => ?_
    simpa using hStored

theorem bindKeys_stored
    (scope : Scope)
    (keys : List (Parser.Expression φ))
    (known : List (BoundExpression φ)) :
    Stores known (bindKeys scope keys)
      (fun bound => bound.flatMap walk) := by
  induction keys generalizing known with
  | nil =>
    refine Triple.pure fun next hStored => ?_
    simpa using hStored
  | cons key rest ih =>
    unfold bindKeys
    refine Triple.bind
      (bindExpression_stored scope key known) ?_
    intro bound
    refine Triple.bind (ih _) ?_
    intro others
    refine Triple.pure fun next hStored => ?_
    simpa using hStored

omit [Spelling φ] in
theorem expandStar_stored
    (scope : Scope)
    (node : Parser.Node)
    (table : Option String)
    {known : List (BoundExpression φ)}
    (hStored : Stored next known) :
    Stored next (known ++
      ((expandStar scope node table).map Prod.fst).flatMap
        walk) := by
  unfold expandStar
  generalize scope.columns.filter _ = columns
  induction columns with
  | nil => simpa using hStored
  | cons column rest ih =>
    refine (ih.cons_column node (boundColumn column)
      rfl).mono ?_
    simp [walk]

theorem expandItem_stored
    (scope : Scope)
    (item : Parser.SelectItem φ)
    (known : List (BoundExpression φ)) :
    Stores known (expandItem scope item)
      (fun columns =>
        (columns.map Prod.fst).flatMap walk) := by
  have hPlain : Stores known
      (do
        let bound ← bindExpression scope item.expression
        return [(bound, outputName item bound)])
      (fun columns =>
        (columns.map Prod.fst).flatMap walk) := by
    refine Triple.bind
      (bindExpression_stored scope item.expression known) ?_
    intro bound
    refine Triple.pure fun next hStored => ?_
    simpa using hStored
  unfold expandItem
  cases hExpression : item.expression with
  | star node table =>
    refine Triple.ite (fun _ => Triple.throw fun _ _ => trivial)
      fun _ => ?_
    cases table with
    | none =>
      exact Triple.pure fun next hStored =>
        expandStar_stored scope node none hStored
    | some table =>
      exact Triple.ite
        (fun _ => Triple.throw fun _ _ => trivial)
        fun _ => Triple.pure fun next hStored =>
          expandStar_stored scope node (some table) hStored
  | _ =>
    rw [hExpression] at hPlain
    exact hPlain

theorem expandItems_stored
    (scope : Scope)
    (items : List (Parser.SelectItem φ))
    (known : List (BoundExpression φ)) :
    Stores known (expandItems scope items)
      (fun columns =>
        (columns.map Prod.fst).flatMap walk) := by
  induction items generalizing known with
  | nil =>
    refine Triple.pure fun next hStored => ?_
    simpa using hStored
  | cons item rest ih =>
    unfold expandItems
    refine Triple.bind
      (expandItem_stored scope item known) ?_
    intro columns
    refine Triple.bind (ih _) ?_
    intro others
    refine Triple.pure fun next hStored => ?_
    simpa using hStored

theorem bindJoins_stored
    (scope : Scope)
    (clauses : List (Parser.JoinClause φ))
    (known : List (BoundExpression φ)) :
    Triple (fun next => Stored next known)
      (bindJoins scope clauses)
      (fun _ next => Stored next known)
      (fun _ _ => True) := by
  induction clauses with
  | nil => exact Triple.pure fun _ hStored => hStored
  | cons clause rest ih =>
    unfold bindJoins
    refine Triple.bind ?_ fun join =>
      Triple.bind ih fun joins =>
        Triple.pure fun _ hStored => hStored
    unfold bindJoin
    refine Triple.bind
      (bindExpression_stored scope clause.on known) ?_
    intro condition
    refine Triple.bind
      (triple_liftExcept (fun _ _ _ hStored => hStored)
        (fun _ _ _ => trivial)) ?_
    intro _
    refine Triple.bind
      (triple_liftExcept (fun _ _ _ hStored => hStored)
        (fun _ _ _ => trivial)) ?_
    intro _
    exact Triple.pure fun _ hStored =>
      hStored.mono (List.subset_append_left _ _)

omit [Spelling φ] in
theorem no_call_of_rejectAggregates
    {expression : BoundExpression φ}
    {place hint : String}
    (hOk : rejectAggregates expression place hint = .ok ()) :
    ∀ node ∈ expression.walk, node.isCall = false := by
  intro node hNode
  unfold rejectAggregates at hOk
  cases hCalls : expression.calls with
  | nil =>
    have hNone := List.filter_eq_nil_iff.mp hCalls node hNode
    simpa using hNone
  | cons found rest =>
    rw [hCalls] at hOk
    cases hOk

/- The expressions of the clauses that a group is about. -/
def BoundClauses.listed
    (clauses : BoundClauses φ) : List (BoundExpression φ) :=
  clauses.projections ++ clauses.having.toList

def BoundClauses.nodes
    (clauses : BoundClauses φ) : List (BoundExpression φ) :=
  clauses.groupKeys.flatMap walk ++ clauses.listed.flatMap walk

omit [Spelling φ] in
theorem forM_ok
    {ε α : Type}
    {check : α → Except ε Unit}
    {values : List α}
    (hOk : values.forM check = .ok ()) :
    ∀ value ∈ values, check value = .ok () := by
  induction values with
  | nil => exact fun _ hValue => absurd hValue List.not_mem_nil
  | cons value rest ih =>
    rcases Library.StateExcept.ok_of_bind hOk with
      ⟨_, hFirst, hRest⟩
    intro other hOther
    rcases List.mem_cons.mp hOther with rfl | hOther
    · exact hFirst
    · exact ih hRest other hOther

/- The clauses are stored objects, and no grouping key calls
   an aggregate. -/
theorem bindClauses_stored
    (catalog : Catalog)
    (statement : Parser.SelectStatement φ) :
    Triple (fun _ => True) (bindClauses catalog statement)
      (fun clauses next =>
        Stored next clauses.nodes ∧
          ∀ key ∈ clauses.groupKeys, ∀ node ∈ key.walk,
            node.isCall = false)
      (fun _ _ => True) := by
  unfold bindClauses
  refine Triple.bind (Q := fun _ next =>
      Stored next ([] : List (BoundExpression φ)))
    (triple_liftExcept (fun _ _ _ _ => Stored.empty)
      (fun _ _ _ => trivial)) fun scope => ?_
  refine Triple.bind (bindJoins_stored scope _ _)
    fun joins => ?_
  refine Triple.bind (bindOptional_stored scope _ _)
    fun where_ => ?_
  refine Triple.bind
    (triple_liftExcept
      (fun _ _ _ hStored => hStored.mono
        (List.nil_subset _ : [] ⊆ _))
      (fun _ _ _ => trivial)) fun _ => ?_
  refine Triple.bind (bindKeys_stored scope _ _)
    fun groupKeys => ?_
  refine Triple.bind (Q := fun _ next =>
      Stored next (groupKeys.flatMap walk) ∧
        ∀ key ∈ groupKeys, ∀ node ∈ key.walk,
          node.isCall = false)
    (triple_liftExcept
      (fun _ hChecked _ hStored => ⟨hStored,
        fun key hKey => no_call_of_rejectAggregates
          (forM_ok hChecked key hKey)⟩)
      (fun _ _ _ => trivial)) fun _ => ?_
  refine Triple.assume fun hKeys => ?_
  refine Triple.bind (expandItems_stored scope _ _)
    fun items => ?_
  refine Triple.bind (bindOptional_stored scope _ _)
    fun having => ?_
  refine Triple.bind
    (triple_liftExcept (fun _ _ _ hStored => hStored)
      (fun _ _ _ => trivial)) fun _ => ?_
  refine Triple.bind
    (triple_liftExcept (fun _ _ _ hStored => hStored)
      (fun _ _ _ => trivial)) fun _ => ?_
  refine Triple.pure fun next hStored => ⟨?_, hKeys⟩
  refine hStored.mono ?_
  simp [BoundClauses.nodes, BoundClauses.listed]

end Binding

end Executor

end ChenDB
