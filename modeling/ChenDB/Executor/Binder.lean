import Mathlib.Data.List.Dedup
import ChenDB.Parser.Ast

/-
  Binding a `SELECT`: its names become positions in a row, and
  a grouped query is pointed at the row of its group.
-/

--
-- Bound Expressions
--

namespace ChenDB

namespace Executor

open Indexing (DataType)
open ChenDB.Parser (AggregateFunction Node SelectStatement SourceSpan
  TableRef)

variable {φ : Type}

/- A refusal, and the place in the text that it underlines. -/
structure BindingError where
  message : String
  span : SourceSpan
deriving DecidableEq, Repr

/- What binding asks of Python's strings. -/
class Spelling (φ : Type) where
  casefold : String → String
  repr : Value φ → String

/- `{name!r}` in a message. -/
def quoted (φ : Type) [Spelling φ] (name : String) : String :=
  Spelling.repr (.text name : Value φ)

def sqlName : DataType → String
  | .integer => "INTEGER"
  | .float => "FLOAT"
  | .boolean => "BOOLEAN"
  | .text => "TEXT"

/- A column reference with what is known of the column. Above
   an aggregate there is no table: the index addresses the
   grouped row. -/
structure BoundColumn extends BoundColumnRef where
  dataType : DataType
  table : Option String
  tableName : Option String
  tablePosition : Option Nat
deriving DecidableEq, Repr

def BoundColumn.qualifiedName (column : BoundColumn) :
    String :=
  match column.table with
  | some table =>
    if table = "" then column.name
    else s!"{table}.{column.name}"
  | none => column.name

/-
  Expressions after binding. An `IN` list keeps its identity,
  the `id` of the object: two lists that read the same are
  two objects.
-/
mutual

inductive BoundExpression (φ : Type) where
  | column (node : Node) (reference : BoundColumn)
  | literal
      (node : Node)
      (value : Value φ)
      (dataType : Option DataType)
  | countRows (node : Node)
  | functionCall
      (node : Node)
      (function : AggregateFunction)
      (argument : BoundExpression φ)
  | unaryOp
      (node : Node)
      (operator : UnaryOperator)
      (operand : BoundExpression φ)
  | binaryOp
      (node : Node)
      (operator : BinaryOperator)
      (left right : BoundExpression φ)
  | isNullTest
      (node : Node)
      (operand : BoundExpression φ)
      (negated : Bool)
  | inList
      (node : Node)
      (operand : BoundExpression φ)
      (items : BoundItems φ)
      (negated : Bool)
      (identity : Nat)

inductive BoundItems (φ : Type) where
  | one (item : BoundExpression φ)
  | more
      (item : BoundExpression φ)
      (rest : BoundItems φ)

end

/- What an aggregate call computes: the number of rows, or a
   function of what an expression is in each. -/
inductive Aggregate (φ : Type) where
  | countRows
  | over
      (function : AggregateFunction)
      (argument : BoundExpression φ)

namespace Aggregate

def function : Aggregate φ → AggregateFunction
  | .countRows => .count
  | .over function _ => function

def argument : Aggregate φ → Option (BoundExpression φ)
  | .countRows => none
  | .over _ argument => some argument

end Aggregate

namespace BoundExpression

def node : BoundExpression φ → Node
  | .column node _ => node
  | .literal node _ _ => node
  | .countRows node => node
  | .functionCall node _ _ => node
  | .unaryOp node _ _ => node
  | .binaryOp node _ _ _ => node
  | .isNullTest node _ _ => node
  | .inList node _ _ _ _ => node

/- What the node computes, where it is a `FunctionCall`. -/
def asAggregate : BoundExpression φ → Option (Aggregate φ)
  | .countRows _ => some .countRows
  | .functionCall _ function argument =>
    some (.over function argument)
  | _ => none

def isColumn : BoundExpression φ → Bool
  | .column _ _ => true
  | _ => false

def isCall (expression : BoundExpression φ) : Bool :=
  expression.asAggregate.isSome

mutual

/- Every node of the tree, parents before children. -/
def walk : BoundExpression φ → List (BoundExpression φ)
  | .column node reference => [.column node reference]
  | .literal node value dataType =>
    [.literal node value dataType]
  | .countRows node => [.countRows node]
  | .functionCall node function argument =>
    .functionCall node function argument :: walk argument
  | .unaryOp node op operand =>
    .unaryOp node op operand :: walk operand
  | .binaryOp node op left right =>
    .binaryOp node op left right :: (walk left ++ walk right)
  | .isNullTest node operand negated =>
    .isNullTest node operand negated :: walk operand
  | .inList node operand items negated identity =>
    .inList node operand items negated identity ::
      (walk operand ++ walkItems items)
termination_by structural expression => expression

def walkItems : BoundItems φ → List (BoundExpression φ)
  | .one item => walk item
  | .more item rest => walk item ++ walkItems rest
termination_by structural items => items

end

/- The calls in the tree, an outer one before those in its
   argument. -/
def calls (expression : BoundExpression φ) :
    List (BoundExpression φ) :=
  expression.walk.filter isCall

end BoundExpression

open BoundExpression (isCall isColumn)

--
-- Types and Labels
--

section Labels

/- `None` where the type is not known without a row. -/
def staticType : BoundExpression φ → Option DataType
  | .column _ reference => some reference.dataType
  | .literal _ _ dataType => dataType
  | .isNullTest _ _ _ => some .boolean
  | .countRows _ => some .integer
  | .functionCall _ function argument =>
    match function with
    | .count => some .integer
    | .avg => some .float
    | _ => staticType argument
  | .unaryOp _ _ operand => staticType operand
  | .binaryOp _ op left right =>
    if op.isComparison ∨ op.isLogical then some .boolean
    else
      let left := staticType left
      let right := staticType right
      if left = right then left
      else
        match left, right with
        | some .integer, some .float => some .float
        | some .float, some .integer => some .float
        | _, _ => none
  | .inList _ _ _ _ _ => none

def aggregateType : Aggregate φ → Option DataType
  | .countRows => some .integer
  | .over .count _ => some .integer
  | .over .avg _ => some .float
  | .over _ argument => staticType argument

variable [Spelling φ]

/- The name of an aggregate, for a header or a message. -/
def labelOf : BoundExpression φ → String
  | .countRows _ => "count(*)"
  | .functionCall _ function argument =>
    s!"{function.value.toLower}({labelOf argument})"
  | .column _ reference => reference.qualifiedName
  | .literal _ value _ => Spelling.repr value
  | .unaryOp _ _ _ => "unaryop"
  | .binaryOp _ _ _ _ => "binaryop"
  | .isNullTest _ _ _ => "isnulltest"
  | .inList _ _ _ _ _ => "inlist"

end Labels

--
-- Signatures
--

/- The tuples `_signature` builds. -/
inductive Signature (φ : Type) where
  | col (index : Nat)
  | lit (value : Value φ) (dataType : Option DataType)
  | rows
  | agg
      (function : AggregateFunction)
      (argument : Signature φ)
  | un (operator : UnaryOperator) (operand : Signature φ)
  | bin
      (operator : BinaryOperator)
      (left right : Signature φ)
  | null (negated : Bool) (operand : Signature φ)
  /- The `id` of a node with no case of its own. -/
  | other (identity : Nat)
deriving DecidableEq

/- A structural key that ignores where a node was written.
   There is no case for an `IN` list. -/
def signature : BoundExpression φ → Signature φ
  | .column _ reference => .col reference.columnIndex
  | .literal _ value dataType => .lit value dataType
  | .countRows _ => .rows
  | .functionCall _ function argument =>
    .agg function (signature argument)
  | .unaryOp _ op operand => .un op (signature operand)
  | .binaryOp _ op left right =>
    .bin op (signature left) (signature right)
  | .isNullTest _ operand negated =>
    .null negated (signature operand)
  | .inList _ _ _ _ identity => .other identity

/- The last index to have been given a signature. -/
def indexBySignature [DecidableEq φ]
    (expressions : List (BoundExpression φ))
    (wanted : Signature φ) : Option Nat :=
  (expressions.zipIdx.reverse.find? fun entry =>
    signature entry.1 = wanted).map Prod.snd

--
-- Scopes
--

structure ColumnInfo where
  name : String
  dataType : DataType
deriving DecidableEq, Repr

structure TableInfo where
  name : String
  schema : List ColumnInfo
deriving DecidableEq, Repr

/- One table of a `FROM`, and where its columns sit in the
   joined row. -/
structure ScopeEntry where
  bindingName : String
  tableName : String
  schema : List ColumnInfo
  offset : Nat
  position : Nat
deriving DecidableEq, Repr

abbrev Scope := List ScopeEntry

namespace Scope

/- Every column, with its table and its index in the joined
   row. -/
def columns (scope : Scope) :
    List (ScopeEntry × Nat × ColumnInfo) :=
  scope.flatMap fun entry =>
    entry.schema.zipIdx.map fun column =>
      (entry, entry.offset + column.2, column.1)

def isSingleTable (scope : Scope) : Bool :=
  scope.length = 1

/- The table of this binding name. -/
def entry
    (φ : Type) [Spelling φ]
    (scope : Scope)
    (bindingName : String) : Option ScopeEntry :=
  scope.find? fun entry =>
    Spelling.casefold φ entry.bindingName =
      Spelling.casefold φ bindingName

end Scope

/- The tables there are, as `list_tables` orders them. -/
abbrev Catalog := List TableInfo

section Binding

variable [Spelling φ]

def resolveTable
    (φ : Type) [Spelling φ]
    (catalog : Catalog)
    (reference : TableRef) : Except BindingError TableInfo :=
  match catalog.find? fun table =>
      Spelling.casefold φ table.name =
        Spelling.casefold φ reference.name with
  | some info => .ok info
  | none =>
    let known := ", ".intercalate (catalog.map TableInfo.name)
    let detail :=
      if known = "" then "this database has no tables"
      else s!"this database has {known}"
    .error
      ⟨s!"no table named {quoted φ reference.name}; {detail}",
        reference.node.span⟩

/- The tables after the ones already laid out, which fill the
   row up to `offset`. -/
def buildScope
    (φ : Type) [Spelling φ]
    (catalog : Catalog)
    (entries : Scope)
    (offset : Nat) :
    List TableRef → Except BindingError Scope
  | [] => .ok entries
  | reference :: rest => do
      let info ← resolveTable φ catalog reference
      let binding := reference.bindingName
      if entries.any fun entry => entry.bindingName = binding
      then
        throw
          ⟨s!"{quoted φ binding} is used twice in FROM; " ++
            "give one of them an alias",
            reference.node.span⟩
      else
        let entry : ScopeEntry :=
          { bindingName := binding
            tableName := info.name
            schema := info.schema
            offset := offset
            position := entries.length }
        buildScope φ catalog (entries ++ [entry])
          (offset + info.schema.length) rest

/- `_no_such_column`. -/
def noSuchColumn
    (φ : Type) [Spelling φ]
    (scope : Scope)
    (name : String)
    (table : Option String) : String :=
  let missing :=
    match table with
    | some table =>
      if (scope.entry φ table).isNone then some table
      else none
    | none => none
  match missing with
  | some table =>
    let known :=
      ", ".intercalate (scope.map ScopeEntry.bindingName)
    let aliased := scope.any fun entry =>
      entry.bindingName ≠ entry.tableName
    s!"no table named {quoted φ table} in FROM; " ++
      s!"this query has {known}" ++
      (if aliased then
        "; note that an alias replaces the table name"
      else "")
  | none =>
    let available :=
      ", ".intercalate <| scope.columns.map fun column =>
        if scope.isSingleTable then column.2.2.name
        else s!"{column.1.bindingName}.{column.2.2.name}"
    let wanted :=
      match table with
      | some table =>
        if table = "" then name else s!"{table}.{name}"
      | none => name
    s!"no column named {quoted φ wanted}; " ++
      s!"this query has {available}"

/- A column of the scope, as an expression refers to it. -/
def boundColumn
    (column : ScopeEntry × Nat × ColumnInfo) : BoundColumn :=
  { name := column.2.2.name
    columnIndex := column.2.1
    scanPosition := some column.1.position
    dataType := column.2.2.dataType
    table := some column.1.bindingName
    tableName := some column.1.tableName
    tablePosition := some (column.2.1 - column.1.offset) }

/- A name, as the one column it can mean. -/
def bindColumnRef
    (φ : Type) [Spelling φ]
    (scope : Scope)
    (node : Node)
    (name : String)
    (table : Option String) :
    Except BindingError BoundColumn :=
  let candidates := scope.columns.filter fun column =>
    Spelling.casefold φ column.2.2.name =
        Spelling.casefold φ name ∧
      (table.all fun table =>
        Spelling.casefold φ column.1.bindingName =
          Spelling.casefold φ table)
  match candidates with
  | [] => .error ⟨noSuchColumn φ scope name table, node.span⟩
  | [column] => .ok (boundColumn column)
  | candidates =>
    let places := ", ".intercalate <|
      candidates.map fun column =>
        s!"{column.1.bindingName}.{column.2.2.name}"
    .error
      ⟨s!"{quoted φ name} is ambiguous: it could be {places}",
        node.span⟩

/- Binding makes new objects; the state is the next identity
   that none of them has. -/
abbrev BindM := EStateM BindingError Nat

def allocate : BindM Nat := do
  let identity ← get
  set (identity + 1)
  return identity

mutual

/- Every column reference of the expression, resolved. -/
def bindExpression
    (scope : Scope) :
    Parser.Expression φ → BindM (BoundExpression φ)
  | .columnRef node name table => do
      let column ← liftExcept
        (bindColumnRef φ scope node name table)
      return .column node column
  | .literal node value dataType =>
    return .literal node value dataType
  | .star node _ =>
    throw
      ⟨"'*' is only valid on its own in a projection",
        node.span⟩
  | .countRows node => return .countRows node
  | .functionCall node function argument => do
      let argument ← bindExpression scope argument
      return .functionCall node function argument
  | .unaryOp node op operand => do
      let operand ← bindExpression scope operand
      return .unaryOp node op operand
  | .binaryOp node op left right => do
      let left ← bindExpression scope left
      let right ← bindExpression scope right
      return .binaryOp node op left right
  | .isNullTest node operand negated => do
      let operand ← bindExpression scope operand
      return .isNullTest node operand negated
  | .inList node operand items negated => do
      let operand ← bindExpression scope operand
      let items ← bindItems scope items
      let identity ← allocate
      return .inList node operand items negated identity
  | .scalarSubquery node =>
    throw ⟨"cannot bind ScalarSubquery", node.span⟩
termination_by structural expression => expression

def bindItems
    (scope : Scope) :
    Parser.Items φ → BindM (BoundItems φ)
  | .one item => do
      let item ← bindExpression scope item
      return .one item
  | .more item rest => do
      let item ← bindExpression scope item
      let rest ← bindItems scope rest
      return .more item rest
termination_by structural items => items

end

end Binding

--
-- Aggregation
--

/- One aggregate call, and where its result lands in the
   grouped row. -/
structure BoundAggregate (φ : Type) where
  aggregate : Aggregate φ
  slot : Nat
  label : String

/- The grouped row is the keys, then the aggregates. -/
structure BoundAggregation (φ : Type) where
  groupKeys : List (BoundExpression φ)
  aggregates : List (BoundAggregate φ)
  having : Option (BoundExpression φ)

def BoundAggregation.width
    (aggregation : BoundAggregation φ) : Nat :=
  aggregation.groupKeys.length + aggregation.aggregates.length

/- The aggregates registered so far by signature, in the
   order they came. -/
abbrev Seen (φ : Type) :=
  List (Signature φ × BoundAggregate φ)

section Grouping

def rejectAggregates
    (expression : BoundExpression φ)
    (place hint : String) : Except BindingError Unit :=
  match expression.calls with
  | [] => .ok ()
  | found :: _ =>
    let name :=
      (found.asAggregate.map fun aggregate =>
        aggregate.function.value).getD ""
    .error
      ⟨s!"{name} is an aggregate and cannot appear in " ++
          s!"{place}" ++
          (if hint = "" then "" else s!"; {hint}"),
        found.node.span⟩

/- Refuse a condition whose type is known not to be
   boolean. -/
def requirePredicate
    (expression : BoundExpression φ)
    (clause hint : String) : Except BindingError Unit :=
  match staticType expression with
  | none => .ok ()
  | some .boolean => .ok ()
  | some dataType =>
    .error
      ⟨s!"{clause} must be a boolean, not " ++
          s!"{sqlName dataType}; " ++
          "a bare value is not a condition" ++
          (if hint = "" then "" else s!"; {hint}"),
        expression.node.span⟩

/- Refuse `SUM` and `AVG` over a type they cannot add up. -/
def requireAggregable
    (span : SourceSpan)
    (aggregate : Aggregate φ) : Except BindingError Unit :=
  match aggregate with
  | .over function argument =>
    if function = .sum ∨ function = .avg then
      match staticType argument with
      | none => .ok ()
      | some .integer => .ok ()
      | some .float => .ok ()
      | some dataType =>
        .error
          ⟨s!"{function.value} needs a number, not " ++
              s!"{sqlName dataType}; use COUNT to " ++
              "count rows or MIN/MAX to compare them",
            span⟩
    else .ok ()
  | .countRows => .ok ()

variable [Spelling φ] [DecidableEq φ]

/- The nested `register`: a call that reads the same as an
   earlier one is that one. -/
def register
    (keys : Nat)
    (seen : Seen φ)
    (call : BoundExpression φ) :
    Except BindingError (Seen φ) :=
  match call.asAggregate with
  | none => .ok seen
  | some aggregate => do
      requireAggregable call.node.span aggregate
      if (seen.lookup (signature call)).isSome then pure seen
      else
        let entry : BoundAggregate φ :=
          { aggregate := aggregate
            slot := keys + seen.length
            label := labelOf call }
        pure (seen ++ [(signature call, entry)])

/- A reference to one column of the grouped row. -/
def slotRef
    (origin : BoundExpression φ)
    (slot : Nat)
    (dataType : Option DataType)
    (name : String) : BoundExpression φ :=
  .column origin.node
    { name := if name = "" then labelOf origin else name
      columnIndex := slot
      scanPosition := none
      dataType := dataType.getD .integer
      table := none
      tableName := none
      tablePosition := none }

/- The slot a whole expression is in, when it is a grouping
   key or an aggregate. -/
def groupSlot
    (keys : List (BoundExpression φ))
    (seen : Seen φ)
    (expression : BoundExpression φ) :
    Option (BoundExpression φ) :=
  match indexBySignature keys (signature expression) with
  | some slot =>
    some (slotRef expression slot (staticType expression) "")
  | none =>
    (seen.lookup (signature expression)).map fun entry =>
      slotRef expression entry.slot
        (aggregateType entry.aggregate) entry.label

/- Point an expression at the grouped row instead of the
   input row. -/
def rewriteOverGroup
    (keys : List (BoundExpression φ))
    (seen : Seen φ)
    (expression : BoundExpression φ) :
    Except BindingError (BoundExpression φ) :=
  match groupSlot keys seen expression with
  | some reference => .ok reference
  | none =>
    match expression with
    | .column node reference =>
      .error
        ⟨quoted φ reference.qualifiedName ++
            " must appear in GROUP BY or be used in an " ++
            "aggregate; a group is many rows and they " ++
            "do not agree on it",
          node.span⟩
    | .unaryOp node op operand => do
        let operand ← rewriteOverGroup keys seen operand
        return .unaryOp node op operand
    | .binaryOp node op left right => do
        let left ← rewriteOverGroup keys seen left
        let right ← rewriteOverGroup keys seen right
        return .binaryOp node op left right
    | .isNullTest node operand negated => do
        let operand ← rewriteOverGroup keys seen operand
        return .isNullTest node operand negated
    | expression => .ok expression

/- Split a select list into grouping keys and aggregates, and
   rewrite it; nothing to do where there are neither. -/
def planAggregation
    (projections groupKeys : List (BoundExpression φ))
    (having : Option (BoundExpression φ)) :
    Except BindingError
      (List (BoundExpression φ) ×
        Option (BoundAggregation φ)) := do
  let calls :=
    (projections ++ having.toList).flatMap BoundExpression.calls
  let seen ← calls.foldlM (register groupKeys.length) []
  if groupKeys = [] ∧ seen = [] then pure (projections, none)
  else
    let rewritten ←
      projections.mapM (rewriteOverGroup groupKeys seen)
    let having ←
      having.mapM (rewriteOverGroup groupKeys seen)
    return (rewritten, some
      { groupKeys := groupKeys
        aggregates := seen.map Prod.snd
        having := having })

end Grouping

--
-- Sorting
--

/- One column of a query's output. -/
structure ResultColumn where
  name : String
  dataType : Option DataType
deriving DecidableEq, Repr

structure BoundSortKey where
  outputIndex : Nat
  descending : Bool
deriving DecidableEq, Repr

/- The last index of a name. -/
def indexByName
    (columns : List ResultColumn)
    (wanted : String) : Option Nat :=
  (columns.zipIdx.reverse.find? fun entry =>
    entry.1.name = wanted).map Prod.snd

/- `ORDER BY 2` is by the second column; Python's booleans
   are integers too. -/
def ordinal : Parser.Expression φ → Option Int
  | .literal _ (.int value) _ => some value
  | .literal _ (.bool value) _ => some value.toNat
  | _ => none

/- An output name that an `ORDER BY` term gives. -/
def namedColumn
    (columns : List ResultColumn) :
    Parser.Expression φ → Option Nat
  | .columnRef _ name none => indexByName columns name
  | _ => none

section Sorting

variable [Spelling φ] [DecidableEq φ]

/- `found` of `_sort_position`: the aggregates by the
   signatures of the calls they answer. -/
def seenAgain
    (aggregates : List (BoundAggregate φ)) : Seen φ :=
  aggregates.map fun entry =>
    (match entry.aggregate with
      | .countRows => .rows
      | .over function argument =>
        .agg function (signature argument),
      entry)

/- An expression to sort by, as the output column that reads
   the same. -/
def sortExpression
    (projections : List (BoundExpression φ))
    (aggregation : Option (BoundAggregation φ))
    (bound : BoundExpression φ) : Option Nat :=
  match aggregation with
  | none => indexBySignature projections (signature bound)
  | some aggregation =>
    match rewriteOverGroup aggregation.groupKeys
        (seenAgain aggregation.aggregates) bound with
    | .error _ => none
    | .ok bound =>
      indexBySignature projections (signature bound)

def sortPosition
    (scope : Scope)
    (projections : List (BoundExpression φ))
    (columns : List ResultColumn)
    (aggregation : Option (BoundAggregation φ))
    (expression : Parser.Expression φ) :
    BindM (Option Nat) :=
  match ordinal expression with
  | some value =>
    let names := (columns.map ResultColumn.name).dedup.length
    let signatures := (projections.map signature).dedup.length
    if 0 ≤ value - 1 ∧ value - 1 < names + signatures then
      return some (value - 1).toNat
    else
      let shown :=
        match expression with
        | .literal _ value _ => Spelling.repr value
        | _ => ""
      throw
        ⟨s!"ORDER BY {shown} is out of range; the " ++
            s!"SELECT list has {signatures} column(s)",
          expression.node.span⟩
  | none =>
    match namedColumn columns expression with
    | some index => return some index
    | none =>
      tryCatch
        (do
          let bound ← bindExpression scope expression
          return sortExpression projections aggregation
            bound)
        fun _ => return none

/- Each `ORDER BY` term as a position in the projected
   row. -/
def bindOrderBy
    (scope : Scope)
    (projections : List (BoundExpression φ))
    (columns : List ResultColumn)
    (aggregation : Option (BoundAggregation φ)) :
    List (Parser.OrderByItem φ) → BindM (List BoundSortKey)
  | [] => return []
  | item :: rest => do
      let index ← sortPosition scope projections columns
        aggregation item.expression
      match index with
      | none =>
        throw
          ⟨"ORDER BY must name something in the SELECT " ++
              "list, by position, by output name, or by " ++
              "repeating the expression",
            item.node.span⟩
      | some index =>
        let keys ← bindOrderBy scope projections columns
          aggregation rest
        let key : BoundSortKey :=
          { outputIndex := index
            descending := item.descending }
        return key :: keys

end Sorting

--
-- Selects
--

structure BoundJoin (φ : Type) where
  bindingName : String
  condition : BoundExpression φ
  kind : JoinKind

/- The clauses of a `SELECT`, each bound against the input
   row. -/
structure BoundClauses (φ : Type) where
  scope : Scope
  joins : List (BoundJoin φ)
  where_ : Option (BoundExpression φ)
  groupKeys : List (BoundExpression φ)
  projections : List (BoundExpression φ)
  outputColumns : List ResultColumn
  having : Option (BoundExpression φ)

structure BoundSelect (φ : Type) where
  scope : Scope
  joins : List (BoundJoin φ)
  projections : List (BoundExpression φ)
  outputColumns : List ResultColumn
  where_ : Option (BoundExpression φ)
  aggregation : Option (BoundAggregation φ)
  orderBy : List BoundSortKey

section Selecting

variable [Spelling φ]

def outputName
    (item : Parser.SelectItem φ)
    (bound : BoundExpression φ) : String :=
  let unnamed :=
    match bound with
    | .column _ reference => reference.name
    | .countRows _ => labelOf bound
    | .functionCall _ _ _ => labelOf bound
    | _ => "?column?"
  match item.alias_ with
  | some given => if given = "" then unnamed else given
  | none => unnamed

/- What `*` or `u.*` stands for. -/
def expandStar
    (scope : Scope)
    (node : Node)
    (table : Option String) :
    List (BoundExpression φ × String) :=
  let wanted := scope.columns.filter fun column =>
    table.all fun table => column.1.bindingName = table
  wanted.map fun column =>
    (.column node (boundColumn column),
      if scope.isSingleTable then column.2.2.name
      else s!"{column.1.bindingName}.{column.2.2.name}")

/- One entry of the select list, with the names of its
   columns. -/
def expandItem
    (scope : Scope)
    (item : Parser.SelectItem φ) :
    BindM (List (BoundExpression φ × String)) :=
  match item.expression with
  | .star node table =>
    if item.alias_.isSome then
      throw ⟨"'*' cannot be aliased", item.node.span⟩
    else
      match table with
      | none => return expandStar scope node none
      | some table =>
        if (scope.entry φ table).isNone then
          let known := ", ".intercalate
            (scope.map ScopeEntry.bindingName)
          throw
            ⟨s!"no table named {quoted φ table} in " ++
                s!"FROM; this query has {known}",
              item.node.span⟩
        else return expandStar scope node (some table)
  | expression => do
      let bound ← bindExpression scope expression
      return [(bound, outputName item bound)]

def expandItems
    (scope : Scope) :
    List (Parser.SelectItem φ) →
      BindM (List (BoundExpression φ × String))
  | [] => return []
  | item :: rest => do
      let columns ← expandItem scope item
      let others ← expandItems scope rest
      return columns ++ others

/- A clause of a `SELECT` that may be missing. -/
def bindOptional
    (scope : Scope) :
    Option (Parser.Expression φ) →
      BindM (Option (BoundExpression φ))
  | none => return none
  | some expression => do
      let bound ← bindExpression scope expression
      return some bound

def bindJoin
    (scope : Scope)
    (clause : Parser.JoinClause φ) : BindM (BoundJoin φ) := do
  let condition ← bindExpression scope clause.on
  liftExcept (rejectAggregates condition "a JOIN condition" "")
  liftExcept (requirePredicate condition "a JOIN condition" "")
  let binding := clause.table.bindingName
  return {
    bindingName :=
      ((scope.entry φ binding).map
        ScopeEntry.bindingName).getD binding
    condition := condition
    kind := clause.kind }

def bindJoins
    (scope : Scope) :
    List (Parser.JoinClause φ) → BindM (List (BoundJoin φ))
  | [] => return []
  | clause :: rest => do
      let join ← bindJoin scope clause
      let joins ← bindJoins scope rest
      return join :: joins

def bindKeys
    (scope : Scope) :
    List (Parser.Expression φ) →
      BindM (List (BoundExpression φ))
  | [] => return []
  | key :: rest => do
      let bound ← bindExpression scope key
      let keys ← bindKeys scope rest
      return bound :: keys

/- A `HAVING` with nothing grouped is refused. -/
def requireGrouped
    (groupKeys : List (BoundExpression φ))
    (having : BoundExpression φ) : Except BindingError Unit :=
  if groupKeys = [] ∧ having.calls = [] then
    .error
      ⟨"HAVING without GROUP BY needs an aggregate; a " ++
          "plain condition belongs in WHERE",
        having.node.span⟩
  else .ok ()

/- The first half of `bind_select`, up to the point where the
   grouping is planned. -/
def bindClauses
    (catalog : Catalog)
    (statement : SelectStatement φ) :
    BindM (BoundClauses φ) := do
  let scope ← liftExcept
    (buildScope φ catalog [] 0 statement.tables)
  let joins ← bindJoins scope statement.joins
  let where_ ← bindOptional scope statement.where_
  liftExcept (where_.forM fun condition => do
    rejectAggregates condition "WHERE"
      "use HAVING for a condition on an aggregate"
    requirePredicate condition "WHERE"
      "did you mean a comparison?")
  let groupKeys ← bindKeys scope statement.groupBy
  liftExcept (groupKeys.forM fun key =>
    rejectAggregates key "GROUP BY" "")
  let items ← expandItems scope statement.projections
  let having ← bindOptional scope statement.having
  liftExcept (having.forM fun condition =>
    requirePredicate condition "HAVING" "")
  liftExcept (having.forM fun condition =>
    requireGrouped groupKeys condition)
  return {
    scope := scope
    joins := joins
    where_ := where_
    groupKeys := groupKeys
    projections := items.map Prod.fst
    outputColumns := items.map fun item =>
      { name := item.2, dataType := staticType item.1 }
    having := having }

variable [DecidableEq φ]

/- The second half, from the planning of the grouping on. -/
def bindOutput
    (statement : SelectStatement φ)
    (clauses : BoundClauses φ) : BindM (BoundSelect φ) := do
  let (projections, aggregation) ← liftExcept
    (planAggregation clauses.projections clauses.groupKeys
      clauses.having)
  let orderBy ← bindOrderBy clauses.scope projections
    clauses.outputColumns aggregation statement.orderBy
  return {
    scope := clauses.scope
    joins := clauses.joins
    projections := projections
    outputColumns := clauses.outputColumns
    where_ := clauses.where_
    aggregation := aggregation
    orderBy := orderBy }

def bindSelect
    (catalog : Catalog)
    (statement : SelectStatement φ) :
    BindM (BoundSelect φ) := do
  let clauses ← bindClauses catalog statement
  bindOutput statement clauses

end Selecting

end Executor

end ChenDB
