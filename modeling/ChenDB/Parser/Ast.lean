import ChenDB.Executor.Joins
import ChenDB.Indexing.Key

/-
  The syntax of a `SELECT`, as the parser leaves it: nothing
  is resolved yet, and every node knows where in the text it
  was written.
-/

--
-- Nodes
--

namespace ChenDB

namespace Parser

open Executor (BinaryOperator JoinKind UnaryOperator Value)
open Indexing (DataType)

/- A half-open range of characters of the source text. -/
structure SourceSpan where
  start : Nat
  stop : Nat
  line : Nat
  column : Nat
deriving DecidableEq, Repr

/- What every node of the tree carries. -/
structure Node where
  nodeId : Nat
  span : SourceSpan
deriving DecidableEq, Repr

inductive AggregateFunction where
  | count
  | sum
  | avg
  | min
  | max
deriving DecidableEq, Repr

def AggregateFunction.value : AggregateFunction → String
  | .count => "COUNT"
  | .sum => "SUM"
  | .avg => "AVG"
  | .min => "MIN"
  | .max => "MAX"

--
-- Expressions
--

variable {φ : Type}

/-
  `COUNT(*)` is a constructor of its own: of the functions,
  the parser takes a `*` in `COUNT` alone.
-/
mutual

inductive Expression (φ : Type) where
  | columnRef
      (node : Node)
      (name : String)
      (table : Option String)
  | literal
      (node : Node)
      (value : Value φ)
      (dataType : Option DataType)
  | star (node : Node) (table : Option String)
  | countRows (node : Node)
  | functionCall
      (node : Node)
      (function : AggregateFunction)
      (argument : Expression φ)
  | unaryOp
      (node : Node)
      (operator : UnaryOperator)
      (operand : Expression φ)
  | binaryOp
      (node : Node)
      (operator : BinaryOperator)
      (left right : Expression φ)
  | isNullTest
      (node : Node)
      (operand : Expression φ)
      (negated : Bool)
  | inList
      (node : Node)
      (operand : Expression φ)
      (items : Items φ)
      (negated : Bool)
  /- A subquery that was not folded into its value. -/
  | scalarSubquery (node : Node)

/- The items of an `IN` list, of which there is one at
   least. -/
inductive Items (φ : Type) where
  | one (item : Expression φ)
  | more (item : Expression φ) (rest : Items φ)

end

namespace Expression

def node : Expression φ → Node
  | .columnRef node _ _ => node
  | .literal node _ _ => node
  | .star node _ => node
  | .countRows node => node
  | .functionCall node _ _ => node
  | .unaryOp node _ _ => node
  | .binaryOp node _ _ _ => node
  | .isNullTest node _ _ => node
  | .inList node _ _ _ => node
  | .scalarSubquery node => node

end Expression

--
-- Statements
--

/- A table named in a `FROM`, perhaps under an alias. -/
structure TableRef where
  node : Node
  name : String
  alias_ : Option String

/- `self.alias or self.name`; an empty alias is no alias. -/
def TableRef.bindingName (table : TableRef) : String :=
  match table.alias_ with
  | some given => if given = "" then table.name else given
  | none => table.name

structure JoinClause (φ : Type) where
  table : TableRef
  on : Expression φ
  kind : JoinKind

structure SelectItem (φ : Type) where
  node : Node
  expression : Expression φ
  alias_ : Option String

structure OrderByItem (φ : Type) where
  node : Node
  expression : Expression φ
  descending : Bool

/- `distinct`, `limit` and `offset` are left out: binding
   hands them on as they are. -/
structure SelectStatement (φ : Type) where
  projections : List (SelectItem φ)
  table : TableRef
  joins : List (JoinClause φ)
  where_ : Option (Expression φ)
  groupBy : List (Expression φ)
  having : Option (Expression φ)
  orderBy : List (OrderByItem φ)

/- Every table of the `FROM`, in the order written. -/
def SelectStatement.tables
    (statement : SelectStatement φ) : List TableRef :=
  statement.table :: statement.joins.map fun join => join.table

end Parser

end ChenDB
