import ChenDB.Parser.Tiling

/-
  The parser of expressions: one rule per method of the
  grammar, over the tokens that are left and the room that is
  left on the stack. Only calls of rules count, since the other
  methods return at once. The events of a trace are left out,
  and the statement of a subquery is read by a parameter, which
  is given the rule of the expressions in it.
-/

--
-- Token Access
--

namespace ChenDB

namespace Parser

open Executor (BinaryOperator UnaryOperator Value)
open Indexing (DataType)

/- The smallest span that covers both. -/
def SourceSpan.union (first other : SourceSpan) : SourceSpan :=
  if first.start ≤ other.start then
    { first with stop := max first.stop other.stop }
  else { other with stop := max first.stop other.stop }

namespace Grammar

def maxExpressionDepth : ℕ := 100

/-
  What a parse ends with where it does not return; `endless`
  is a loop that outlasts its tokens. `RecursionError` is
  Python's own.
-/
inductive SyntaxFailure where
  | parseError
      (message : String)
      (span : SourceSpan)
      (expected : List String)
      (found : String)
  | unsupported
      (message : String)
      (span : SourceSpan)
      (found : String)
  | indexError
  | recursionError
  | endless
deriving DecidableEq, Repr

/- The tokens from the current one on. -/
structure ParserState (φ : Type) where
  tokens : List (Token φ)
  nextNodeId : ℕ

abbrev Parsing (φ α : Type) :=
  EStateM SyntaxFailure (ParserState φ) α

/- A rule, by how many calls of rules inside one another the
   stack has room for. -/
abbrev Rule (φ : Type) := ℕ → Parsing φ (Expression φ)

variable {φ α : Type}

/- The call of a rule takes up room of its own. -/
def framed (body : Rule φ) : Rule φ
  | 0 => throw .recursionError
  | frames + 1 => body frames

/- `self._tokens[self._pos]`. -/
def current : Parsing φ (Token φ) := do
  match (← get).tokens with
  | [] => throw .indexError
  | token :: _ => return token

def check (tokenType : TokenType) : Parsing φ Bool := do
  return (← current).type = tokenType

def checkKeyword (keyword : Keyword) : Parsing φ Bool := do
  return (← current).keyword = some keyword

def peekKeyword
    (ahead : ℕ)
    (keyword : Keyword) : Parsing φ Bool := do
  return match (← get).tokens[ahead]? with
    | none => false
    | some token => token.keyword = some keyword

/- Nothing goes past the end. -/
def advance : Parsing φ (Token φ) := do
  let token ← current
  if token.type = .eof then return token
  else
    modify fun state =>
      { state with tokens := state.tokens.tail }
    return token

/- `_match`. -/
def matchToken
    (tokenType : TokenType) :
    Parsing φ (Option (Token φ)) := do
  if ← check tokenType then
    return some (← advance)
  else return none

def matchKeyword
    (keyword : Keyword) : Parsing φ (Option (Token φ)) := do
  if ← checkKeyword keyword then
    return some (← advance)
  else return none

/- What a token denotes as a name; quoted, it has a value. -/
def identifierName (token : Token φ) : String :=
  match token.value with
  | some (.text name) => name
  | _ => String.ofList token.lexeme

/- Build a node under the next id. -/
def node
    (make : Node → Expression φ)
    (span : SourceSpan) : Parsing φ (Expression φ) := do
  let state ← get
  set { state with nextNodeId := state.nextNodeId + 1 }
  return make { nodeId := state.nextNodeId, span }

--
-- Operators
--

def comparisonOperators : TokenType → Option BinaryOperator
  | .eq => some .eq
  | .neq => some .neq
  | .lt => some .lt
  | .lte => some .lte
  | .gt => some .gt
  | .gte => some .gte
  | _ => none

def additiveOperators : TokenType → Option BinaryOperator
  | .plus => some .add
  | .minus => some .subtract
  | _ => none

def multiplicativeOperators :
    TokenType → Option BinaryOperator
  | .star => some .multiply
  | .slash => some .divide
  | .percent => some .modulo
  | _ => none

def terms (token : Token φ) : Option BinaryOperator :=
  additiveOperators token.type

def factors (token : Token φ) : Option BinaryOperator :=
  multiplicativeOperators token.type

def conjunctions (token : Token φ) : Option BinaryOperator :=
  if token.keyword = some .and then some .and else none

def disjunctions (token : Token φ) : Option BinaryOperator :=
  if token.keyword = some .or then some .or else none

def negations (token : Token φ) : Option UnaryOperator :=
  if token.keyword = some .not then some .not else none

def signs (token : Token φ) : Option UnaryOperator :=
  if token.type = .minus then some .negate
  else if token.type = .plus then some .plus
  else none

/- The body of the loops of the binary operators. -/
def chainRest
    (operator : Token φ → Option BinaryOperator)
    (operand : Parsing φ (Expression φ)) :
    ℕ → Expression φ → Parsing φ (Expression φ)
  | 0, _ => throw .endless
  | fuel + 1, left => do
      match operator (← current) with
      | none => return left
      | some found =>
        let _ ← advance
        let right ← operand
        let joined ← node (.binaryOp · found left right)
          (left.node.span.union right.node.span)
        chainRest operator operand fuel joined

/- Operands with operators between them, to the left. A loop
   takes a token every time round. -/
def chain
    (operator : Token φ → Option BinaryOperator)
    (operand : Rule φ) : Rule φ :=
  framed fun frames => do
    let left ← operand frames
    let fuel := (← get).tokens.length + 1
    chainRest operator (operand frames) fuel left

/- The rules that call themselves after an operator. -/
def prefixed
    (operator : Token φ → Option UnaryOperator)
    (operand : Rule φ) : Rule φ
  | 0 => throw .recursionError
  | frames + 1 => do
      match operator (← current) with
      | none => operand frames
      | some found =>
        let token ← advance
        let inner ← prefixed operator operand frames
        node (.unaryOp · found inner)
          (token.span.union inner.node.span)

section Rules

variable [PythonStr]

def description (token : Token φ) : String :=
  match token.type with
  | .eof => "end of input"
  | .keyword =>
    "keyword " ++ String.ofList (PythonStr.upper token.lexeme)
  | .identifier => "identifier " ++ PythonStr.repr token.lexeme
  | .intLiteral => "literal " ++ String.ofList token.lexeme
  | .floatLiteral => "literal " ++ String.ofList token.lexeme
  | .stringLiteral => "literal " ++ String.ofList token.lexeme
  | _ => PythonStr.repr token.lexeme

def fail
    (message : String)
    (expected : List String) : Parsing φ α := do
  let token ← current
  throw (.parseError
    (message ++ ", found " ++ description token) token.span
    expected (description token))

def unsupported (message : String) : Parsing φ α := do
  let token ← current
  throw (.unsupported message token.span (description token))

def expect
    (tokenType : TokenType)
    (what : String) : Parsing φ (Token φ) := do
  if ← check tokenType then advance
  else fail ("expected " ++ what) [what]

def expectKeyword
    (keyword : Keyword) : Parsing φ (Token φ) := do
  if ← checkKeyword keyword then advance
  else fail ("expected " ++ keyword.value) [keyword.value]

def identifier (what : String) : Parsing φ (Token φ) := do
  if ← check .keyword then
    let token ← current
    let word := match token.keyword with
      | some keyword => keyword.value
      | none => "?"
    fail ("expected " ++ what ++ ", but " ++ word ++
      " is a reserved word; quote it as \"" ++
      String.ofList token.lexeme ++
      "\" to use it as a name") [what]
  else expect .identifier what

--
-- Values
--

def columnReference : Parsing φ (Expression φ) := do
  let first ← identifier "a column name"
  if (← matchToken .dot).isSome then
    let second ← identifier "a column name after '.'"
    node (.columnRef · (identifierName second)
        (some (identifierName first)))
      (first.span.union second.span)
  else
    node (.columnRef · (identifierName first) none) first.span

/- Is the identifier followed by a parenthesis? -/
def peekIsCall : Parsing φ Bool := do
  return match (← get).tokens[1]? with
    | some token => token.type = .lparen
    | none => false

def aggregateFunctions : List AggregateFunction :=
  [.count, .sum, .avg, .min, .max]

/- `AggregateFunction(name)`. -/
def aggregateFunction (name : String) :
    Option AggregateFunction :=
  aggregateFunctions.find? fun function =>
    function.value = name

/- `isinstance(argument, FunctionCall)`. -/
def isFunctionCall : Expression φ → Bool
  | .countRows _ => true
  | .functionCall _ _ _ => true
  | _ => false

/- What is between the parentheses of a call, and makes the
   node. -/
def functionArgument
    (expression : Parsing φ (Expression φ))
    (function : AggregateFunction) :
    Parsing φ (Node → Expression φ) := do
  if ← check .star then
    let _ ← advance
    if function ≠ .count then
      fail (function.value ++ "(*) is not meaningful; " ++
        "only COUNT counts rows rather than values") []
    else return .countRows
  else
    let argument ← expression
    if isFunctionCall argument then
      unsupported "an aggregate of an aggregate is not allowed"
    else return (.functionCall · function argument)

def functionCall (expression : Rule φ) : Rule φ :=
  framed fun frames => do
    let nameToken ← advance
    match aggregateFunction (String.ofList (PythonStr.upper
        (identifierName nameToken).toList)) with
    | none =>
      fail ("unknown function " ++
        PythonStr.repr (identifierName nameToken).toList ++
        "; ChenDB has COUNT, SUM, AVG, MIN, MAX")
        (aggregateFunctions.map AggregateFunction.value)
    | some function =>
      let _ ← expect .lparen "'(' after a function name"
      let make ← functionArgument (expression frames) function
      let close ← expect .rparen
        "')' after the function argument"
      node make (nameToken.span.union close.span)

/- A token that is a value. -/
def literal
    (value : Value φ)
    (dataType : Option DataType) :
    Parsing φ (Expression φ) := do
  let token ← advance
  node (.literal · value dataType) token.span

/- `_with_span`. -/
def withSpan
    (span : SourceSpan) :
    Expression φ → Expression φ
  | .columnRef at_ name table =>
    .columnRef { at_ with span } name table
  | .literal at_ value dataType =>
    .literal { at_ with span } value dataType
  | .star at_ table => .star { at_ with span } table
  | .countRows at_ => .countRows { at_ with span }
  | .functionCall at_ function argument =>
    .functionCall { at_ with span } function argument
  | .unaryOp at_ operator operand =>
    .unaryOp { at_ with span } operator operand
  | .binaryOp at_ operator left right =>
    .binaryOp { at_ with span } operator left right
  | .isNullTest at_ operand negated =>
    .isNullTest { at_ with span } operand negated
  | .inList at_ operand items negated =>
    .inList { at_ with span } operand items negated
  | .scalarSubquery at_ => .scalarSubquery { at_ with span }

def primary
    (selectStatement : Rule φ → ℕ → Parsing φ Unit)
    (expression : Rule φ) : Rule φ :=
  framed fun frames => do
    let token ← current
    if (← matchToken .lparen).isSome then
      if ← checkKeyword .select then
        let _ ← selectStatement expression frames
        let close ← expect .rparen "')' after a subquery"
        node .scalarSubquery (token.span.union close.span)
      else
        let inner ← expression frames
        let close ← expect .rparen "')'"
        return withSpan (token.span.union close.span) inner
    else if ← check .intLiteral then
      literal (token.value.getD .null) (some .integer)
    else if ← check .floatLiteral then
      literal (token.value.getD .null) (some .float)
    else if ← check .stringLiteral then
      literal (token.value.getD .null) (some .text)
    else if ← checkKeyword .true then
      literal (.bool true) (some .boolean)
    else if ← checkKeyword .false then
      literal (.bool false) (some .boolean)
    else if ← checkKeyword .null then
      literal .null none
    else if ← check .identifier then
      if ← peekIsCall then functionCall expression frames
      else columnReference
    else if ← check .star then
      fail ("'*' is only valid in a projection, not inside " ++
        "an expression") ["a column name", "a literal"]
    else
      fail "expected a value"
        ["a column name", "a literal", "'('"]

--
-- Comparisons
--

/- `item { ',' item }`. -/
def commaSeparated
    (item : Parsing φ (Expression φ)) :
    ℕ → Parsing φ (Items φ)
  | 0 => throw .endless
  | fuel + 1 => do
      let first ← item
      if (← matchToken .comma).isSome then
        return .more first (← commaSeparated item fuel)
      else return .one first

def inList
    (expression : Rule φ)
    (left : Expression φ)
    (negated : Bool) : Rule φ :=
  framed fun frames => do
    let _ ← expectKeyword .keyIn
    let _ ← expect .lparen "'(' after IN"
    if ← checkKeyword .select then
      unsupported ("IN (SELECT ...) is not implemented yet; " ++
        "IN (a, b, c) is")
    else
      let fuel := (← get).tokens.length + 1
      let items ← commaSeparated (expression frames) fuel
      let close ← expect .rparen "')' after the IN list"
      node (.inList · left items negated)
        (left.node.span.union close.span)

/- `NOT`, where `IN` is next. -/
def notBeforeIn : Parsing φ Bool := do
  if (← checkKeyword .not) && (← peekKeyword 1 .keyIn) then
    let _ ← advance
    return true
  else return false

/- What may follow the first operand of a comparison, where
   there is no operator. -/
def comparisonRest
    (expression : Rule φ)
    (left : Expression φ)
    (frames : ℕ) : Parsing φ (Expression φ) := do
  if ← checkKeyword .is then
    let _ ← advance
    let negated ← matchKeyword .not
    let nullToken ← expectKeyword .null
    node (.isNullTest · left negated.isSome)
      (left.node.span.union nullToken.span)
  else
    let negated ← notBeforeIn
    if ← checkKeyword .keyIn then
      inList expression left negated frames
    else if ← checkKeyword .like then
      unsupported "LIKE is not implemented yet"
    else if ← checkKeyword .between then
      unsupported "BETWEEN is not implemented yet"
    else return left

def comparison (expression operand : Rule φ) : Rule φ :=
  framed fun frames => do
    let left ← operand frames
    match comparisonOperators (← current).type with
    | some operator =>
      let _ ← advance
      let right ← operand frames
      node (.binaryOp · operator left right)
        (left.node.span.union right.node.span)
    | none => comparisonRest expression left frames

--
-- Expressions
--

variable (selectStatement : Rule φ → ℕ → Parsing φ Unit)

def unary (expression : Rule φ) : Rule φ :=
  prefixed signs (primary selectStatement expression)

def multiplicative (expression : Rule φ) : Rule φ :=
  chain factors (unary selectStatement expression)

def additive (expression : Rule φ) : Rule φ :=
  chain terms (multiplicative selectStatement expression)

def notExpression (expression : Rule φ) : Rule φ :=
  prefixed negations (comparison expression
    (additive selectStatement expression))

def andExpression (expression : Rule φ) : Rule φ :=
  chain conjunctions (notExpression selectStatement expression)

def orExpression (expression : Rule φ) : Rule φ :=
  chain disjunctions (andExpression selectStatement expression)

/- `_expression`, by how far `_depth` is from the limit. -/
def expression : ℕ → Rule φ
  | 0 => framed fun _ => fail
      ("expression nested deeper than " ++
        toString maxExpressionDepth ++ " levels") []
  | levels + 1 =>
    framed (orExpression selectStatement (expression levels))

/- At `_depth` 0. -/
def topExpression : Rule φ :=
  expression selectStatement maxExpressionDepth

end Rules

end Grammar

end Parser

end ChenDB
