import ChenDB.Parser.Grammar

/-
  The grammar of expressions, as the parser documents it, and
  that the parser reads every expression of it. A derivation
  may put parentheses around any part, and must put them where
  the operator inside binds looser than its place allows.
-/

--
-- Trees without Places
--

namespace ChenDB

namespace Parser

open Executor (BinaryOperator UnaryOperator Value)

variable {φ : Type}

/- The id and the span of no node in particular. -/
def nowhere : Node where
  nodeId := 0
  span := { start := 0, stop := 0, line := 0, column := 0 }

mutual

/- A tree without ids and spans. -/
def Expression.erase : Expression φ → Expression φ
  | .columnRef _ name table => .columnRef nowhere name table
  | .literal _ value dataType =>
    .literal nowhere value dataType
  | .star _ table => .star nowhere table
  | .countRows _ => .countRows nowhere
  | .functionCall _ function argument =>
    .functionCall nowhere function argument.erase
  | .unaryOp _ operator operand =>
    .unaryOp nowhere operator operand.erase
  | .binaryOp _ operator left right =>
    .binaryOp nowhere operator left.erase right.erase
  | .isNullTest _ operand negated =>
    .isNullTest nowhere operand.erase negated
  | .inList _ operand items negated =>
    .inList nowhere operand.erase items.erase negated
  | .scalarSubquery _ => .scalarSubquery nowhere

def Items.erase : Items φ → Items φ
  | .one item => .one item.erase
  | .more item rest => .more item.erase rest.erase

end

namespace Grammar

@[simp] theorem erase_withSpan
    (span : SourceSpan)
    (tree : Expression φ) :
    (withSpan span tree).erase = tree.erase := by
  cases tree <;> simp only [withSpan, Expression.erase]

@[simp] theorem isFunctionCall_erase (tree : Expression φ) :
    isFunctionCall tree.erase = isFunctionCall tree := by
  cases tree <;> rw [Expression.erase] <;> rfl

--
-- Precedence
--

/- From the loosest operator to a value. -/
inductive Precedence where
  | or
  | and
  | not
  | comparison
  | additive
  | multiplicative
  | unary
  | primary
deriving DecidableEq, Repr

namespace Precedence

def rank : Precedence → ℕ
  | .or => 0
  | .and => 1
  | .not => 2
  | .comparison => 3
  | .additive => 4
  | .multiplicative => 5
  | .unary => 6
  | .primary => 7

/- The next tighter one. -/
def next : Precedence → Precedence
  | .or => .and
  | .and => .not
  | .not => .comparison
  | .comparison => .additive
  | .additive => .multiplicative
  | .multiplicative => .unary
  | .unary => .primary
  | .primary => .primary

theorem rank_le_next (level : Precedence) :
    level.rank ≤ level.next.rank := by
  cases level <;> decide

/- The operators between operands of the next level. -/
def binary : Precedence → Token φ → Option BinaryOperator
  | .or, token => disjunctions token
  | .and, token => conjunctions token
  | .additive, token => terms token
  | .multiplicative, token => factors token
  | _, _ => none

/- The operators in front of an operand of the same level. -/
def sign : Precedence → Token φ → Option UnaryOperator
  | .not, token => negations token
  | .unary, token => signs token
  | _, _ => none

end Precedence

--
-- Derivations
--

/- A reserved word is nothing but a word. -/
def Worded (token : Token φ) : Prop :=
  token.keyword ≠ none → token.type = .keyword

def IsWord (token : Token φ) (keyword : Keyword) : Prop :=
  token.type = .keyword ∧ token.keyword = some keyword

/- A token that is no word. -/
def IsMark (token : Token φ) (type : TokenType) : Prop :=
  token.type = type ∧ token.keyword = none

/- The value and the type of a token that is a literal. -/
def literalOf (token : Token φ) :
    Option (Value φ × Option Indexing.DataType) :=
  match token.type, token.keyword with
  | .intLiteral, none =>
    some (token.value.getD .null, some .integer)
  | .floatLiteral, none =>
    some (token.value.getD .null, some .float)
  | .stringLiteral, none =>
    some (token.value.getD .null, some .text)
  | .keyword, some .true => some (.bool true, some .boolean)
  | .keyword, some .false => some (.bool false, some .boolean)
  | .keyword, some .null => some (.null, none)
  | _, _ => none

section Derivations

variable [PythonStr]

/- What a name stands for where a parenthesis follows. -/
def functionOf (name : Token φ) : Option AggregateFunction :=
  aggregateFunction (String.ofList (PythonStr.upper
    (identifierName name).toList))

mutual

/-
  `Derives levels level tree tokens`: the tokens are an
  expression that may stand where the operators of `level` or
  tighter ones may, with `levels` of parentheses, lists or
  arguments inside one another at most.
-/
inductive Derives :
    ℕ → Precedence → Expression φ → List (Token φ) →
      Prop where
  | looser
      {level : Precedence}
      (tighter : Derives levels level.next tree tokens) :
      Derives levels level tree tokens
  | value
      {token : Token φ}
      (literal : literalOf token = some (value, dataType)) :
      Derives levels .primary
        (.literal nowhere value dataType) [token]
  | column
      (isName : IsMark name .identifier) :
      Derives levels .primary
        (.columnRef nowhere (identifierName name) none) [name]
  | qualified
      (isTable : IsMark table .identifier)
      (isDot : IsMark dot .dot)
      (isName : IsMark name .identifier) :
      Derives levels .primary
        (.columnRef nowhere (identifierName name)
          (some (identifierName table))) [table, dot, name]
  | countRows
      {star : Token φ}
      (isName : IsMark name .identifier)
      (counts : functionOf name = some .count)
      (opens : IsMark opening .lparen)
      (isStar : IsMark star .star)
      (closes : IsMark closing .rparen) :
      Derives levels .primary (.countRows nowhere)
        [name, opening, star, closing]
  | call
      (isName : IsMark name .identifier)
      (isFunction : functionOf name = some function)
      (opens : IsMark opening .lparen)
      (inner : Derives levels .or argument tokens)
      (plain : isFunctionCall argument = false)
      (closes : IsMark closing .rparen) :
      Derives (levels + 1) .primary
        (.functionCall nowhere function argument)
        (name :: opening :: (tokens ++ [closing]))
  | paren
      (opens : IsMark opening .lparen)
      (inner : Derives levels .or tree tokens)
      (closes : IsMark closing .rparen) :
      Derives (levels + 1) .primary tree
        (opening :: (tokens ++ [closing]))
  | signed
      {level : Precedence}
      {token : Token φ}
      {operator : UnaryOperator}
      (isOperator : level.sign token = some operator)
      (worded : Worded token)
      (inner : Derives levels level operand tokens) :
      Derives levels level (.unaryOp nowhere operator operand)
        (token :: tokens)
  | chained
      {level : Precedence}
      {token : Token φ}
      {operator : BinaryOperator}
      (before : Derives levels level left lefts)
      (isOperator : level.binary token = some operator)
      (worded : Worded token)
      (after : Derives levels level.next right rights) :
      Derives levels level
        (.binaryOp nowhere operator left right)
        (lefts ++ token :: rights)
  | compared
      {token : Token φ}
      {operator : BinaryOperator}
      (before : Derives levels .additive left lefts)
      (isOperator :
        comparisonOperators token.type = some operator)
      (after : Derives levels .additive right rights) :
      Derives levels .comparison
        (.binaryOp nowhere operator left right)
        (lefts ++ token :: rights)
  | isNull
      {notToken : Option (Token φ)}
      (inner : Derives levels .additive operand tokens)
      (isIs : IsWord isToken .is)
      (isNot : ∀ token ∈ notToken, IsWord token .not)
      (isNull : IsWord nullToken .null) :
      Derives levels .comparison
        (.isNullTest nowhere operand notToken.isSome)
        (tokens ++ isToken :: (notToken.toList ++ [nullToken]))
  | inList
      {notToken : Option (Token φ)}
      (before : Derives (levels + 1) .additive operand tokens)
      (isNot : ∀ token ∈ notToken, IsWord token .not)
      (isIn : IsWord inToken .keyIn)
      (opens : IsMark opening .lparen)
      (listed : Lists levels items inners)
      (closes : IsMark closing .rparen) :
      Derives (levels + 1) .comparison
        (.inList nowhere operand items notToken.isSome)
        (tokens ++ (notToken.toList ++ inToken :: opening ::
          (inners ++ [closing])))

/- Expressions with commas between them. -/
inductive Lists : ℕ → Items φ → List (Token φ) → Prop where
  | one
      (only : Derives levels .or item tokens) :
      Lists levels (.one item) tokens
  | more
      (first : Derives levels .or item tokens)
      (isComma : IsMark comma .comma)
      (rest : Lists levels items others) :
      Lists levels (.more item items)
        (tokens ++ comma :: others)

end

end Derivations

--
-- Reading
--

variable {α β : Type}

/-
  Wherever the tokens are the next ones, the program returns
  into `Q`, with `rest` to come.
-/
def Reads
    (program : Parsing φ α)
    (tokens : List (Token φ))
    (Q : α → Prop)
    (rest : List (Token φ)) : Prop :=
  ∀ state : ParserState φ, state.tokens = tokens →
    ∃ value final, program.run state = .ok value final ∧
      final.tokens = rest ∧ Q value

section Reads

variable {token : Token φ} {tokens middle rest : List (Token φ)}
variable {Q Q' : α → Prop} {R : β → Prop}
variable {program : Parsing φ α}

namespace Reads

theorem pure
    {value : α}
    (hPost : Q value) :
    Reads (Pure.pure value : Parsing φ α) tokens Q tokens :=
  fun state hState => ⟨value, state, rfl, hState, hPost⟩

theorem bind
    {next : α → Parsing φ β}
    (hFirst : Reads program tokens Q middle)
    (hNext : ∀ value, Q value →
      Reads (next value) middle R rest) :
    Reads (program >>= next) tokens R rest := by
  intro state hState
  rcases hFirst state hState with
    ⟨value, between, hRun, hMiddle, hValue⟩
  rcases hNext value hValue between hMiddle with
    ⟨result, final, hRest, hFinal, hResult⟩
  exact ⟨result, final,
    Library.StateExcept.run_bind_of_ok hRun hRest, hFinal,
    hResult⟩

theorem weaken
    (hReads : Reads program tokens Q rest)
    (hPost : ∀ value, Q value → Q' value) :
    Reads program tokens Q' rest := by
  intro state hState
  rcases hReads state hState with
    ⟨value, final, hRun, hFinal, hValue⟩
  exact ⟨value, final, hRun, hFinal, hPost value hValue⟩

theorem get :
    Reads (get : Parsing φ _) tokens
      (fun state => state.tokens = tokens) tokens :=
  fun state hState => ⟨state, state, rfl, hState, hState⟩

end Reads

theorem reads_current :
    Reads current (token :: tokens) (fun found => found = token)
      (token :: tokens) := by
  refine Reads.bind .get fun state hState => ?_
  rw [hState]
  exact Reads.pure rfl

theorem reads_advance (hType : token.type ≠ .eof) :
    Reads advance (token :: tokens)
      (fun found => found = token) tokens := by
  refine Reads.bind reads_current fun found hFound => ?_
  subst hFound
  rw [if_neg hType]
  refine Reads.bind (Q := fun _ => True) ?_ fun _ _ =>
    Reads.pure rfl
  intro state hState
  refine ⟨⟨⟩, { state with tokens := state.tokens.tail },
    rfl, ?_, trivial⟩
  change state.tokens.tail = tokens
  rw [hState]
  rfl

theorem reads_node
    {make : Node → Expression φ}
    {span : SourceSpan} :
    Reads (node make span) tokens
      (fun tree => ∃ at_, tree = make at_) tokens := by
  refine Reads.bind .get fun state hState => ?_
  refine Reads.bind (Q := fun _ => True) ?_
    fun _ _ => Reads.pure ⟨_, rfl⟩
  intro other hOther
  exact ⟨⟨⟩,
    { state with nextNodeId := state.nextNodeId + 1 }, rfl,
    hState, trivial⟩

variable {tokenType : TokenType} {keyword : Keyword}

variable {yes no : Parsing φ α}

theorem reads_ifCheck
    (hYes : token.type = tokenType →
      Reads yes (token :: tokens) Q rest)
    (hNo : token.type ≠ tokenType →
      Reads no (token :: tokens) Q rest) :
    Reads (check tokenType >>= fun found =>
      if found then yes else no) (token :: tokens) Q rest := by
  refine Reads.bind (Reads.bind reads_current
    fun found hFound => Reads.pure (Q := fun is =>
      is = decide (token.type = tokenType)) (by rw [hFound]))
    fun found hFound => ?_
  by_cases hIs : token.type = tokenType
  · rw [hFound, if_pos (decide_eq_true hIs)]
    exact hYes hIs
  · rw [hFound, decide_eq_false hIs]
    exact hNo hIs

theorem reads_checkKeyword :
    Reads (checkKeyword keyword) (token :: tokens)
      (fun found =>
        found = decide (token.keyword = some keyword))
      (token :: tokens) :=
  Reads.bind reads_current fun found hFound =>
    Reads.pure (by rw [hFound])

theorem reads_ifCheckKeyword
    (hYes : token.keyword = some keyword →
      Reads yes (token :: tokens) Q rest)
    (hNo : token.keyword ≠ some keyword →
      Reads no (token :: tokens) Q rest) :
    Reads (checkKeyword keyword >>= fun found =>
      if found then yes else no) (token :: tokens) Q rest := by
  refine Reads.bind reads_checkKeyword fun found hFound => ?_
  by_cases hIs : token.keyword = some keyword
  · rw [hFound, if_pos (decide_eq_true hIs)]
    exact hYes hIs
  · rw [hFound, decide_eq_false hIs]
    exact hNo hIs

theorem reads_ifMatch
    {yes no : Option (Token φ) → Parsing φ α}
    (hMark : IsMark token tokenType)
    (hEof : tokenType ≠ .eof)
    (hYes : Reads (yes (some token)) tokens Q rest) :
    Reads (matchToken tokenType >>= fun found =>
      if found.isSome then yes found else no found)
      (token :: tokens) Q rest := by
  have hMatch : Reads (matchToken tokenType)
      (token :: tokens) (fun found => found = some token)
      tokens := by
    refine reads_ifCheck (fun _ => ?_) fun hNot =>
      absurd hMark.1 hNot
    exact Reads.bind (reads_advance (hMark.1 ▸ hEof))
      fun found hFound => Reads.pure (by rw [hFound])
  refine Reads.bind hMatch fun found hFound => ?_
  subst hFound
  exact hYes

theorem reads_ifNoMatch
    {yes no : Option (Token φ) → Parsing φ α}
    (hType : token.type ≠ tokenType)
    (hNo : Reads (no none) (token :: tokens) Q rest) :
    Reads (matchToken tokenType >>= fun found =>
      if found.isSome then yes found else no found)
      (token :: tokens) Q rest :=
  Reads.bind (Q := fun found => found = none)
    (reads_ifCheck (fun hIs => absurd hIs hType)
      fun _ => Reads.pure rfl) fun found hFound => by
        subst hFound
        exact hNo

theorem reads_matchKeyword (hWord : IsWord token keyword) :
    Reads (matchKeyword keyword) (token :: tokens)
      (fun found => found = some token) tokens := by
  refine reads_ifCheckKeyword (fun _ => ?_) fun hNot =>
    absurd hWord.2 hNot
  exact Reads.bind (reads_advance (by rw [hWord.1]; decide))
    fun found hFound => Reads.pure (by rw [hFound])

theorem reads_noKeyword
    (hKeyword : token.keyword ≠ some keyword) :
    Reads (matchKeyword keyword) (token :: tokens)
      (fun found => found = none) (token :: tokens) :=
  reads_ifCheckKeyword (fun hIs => absurd hIs hKeyword)
    fun _ => Reads.pure rfl

variable [PythonStr]

variable {what : String}

theorem reads_expect
    (hMark : IsMark token tokenType)
    (hEof : tokenType ≠ .eof) :
    Reads (expect tokenType what) (token :: tokens)
      (fun found => found = token) tokens :=
  reads_ifCheck (fun _ => reads_advance (hMark.1 ▸ hEof))
    fun hNot => absurd hMark.1 hNot

theorem reads_expectKeyword (hWord : IsWord token keyword) :
    Reads (expectKeyword keyword) (token :: tokens)
      (fun found => found = token) tokens :=
  reads_ifCheckKeyword
    (fun _ => reads_advance (by rw [hWord.1]; decide))
    fun hNot => absurd hWord.2 hNot

theorem reads_identifier
    (hName : IsMark token .identifier) :
    Reads (identifier what) (token :: tokens)
      (fun found => found = token) tokens :=
  reads_ifCheck
    (fun hWord => absurd (hName.1.symm.trans hWord) (by decide))
    fun _ => reads_expect hName (by decide)

end Reads

--
-- Values
--

section Values

variable [PythonStr]
variable {select : Rule φ → ℕ → Parsing φ Unit}
variable {expression : Rule φ} {frames : ℕ}
variable {token second closing : Token φ}
variable {tokens rest last : List (Token φ)}

/- A token that is a literal. -/
theorem reads_value
    {value : Value φ}
    {dataType : Option Indexing.DataType}
    (hLiteral : literalOf token = some (value, dataType)) :
    Reads (primary select expression (frames + 1))
      (token :: rest)
      (fun tree => tree.erase =
        .literal nowhere value dataType) rest := by
  have hRead {value' : Value φ}
      {dataType' : Option Indexing.DataType}
      (hType : token.type ≠ .eof)
      (hIs : literalOf token = some (value', dataType')) :
      Reads (literal value' dataType') (token :: rest)
        (fun tree => tree.erase =
          .literal nowhere value dataType) rest := by
    rw [hLiteral] at hIs
    cases hIs
    refine Reads.bind (reads_advance hType) fun _ _ => ?_
    refine reads_node.weaken ?_
    rintro _ ⟨at_, rfl⟩
    rw [Expression.erase]
  -- a literal is told by its type and its word alone
  unfold literalOf at hLiteral hRead
  refine Reads.bind reads_current fun found hFound => ?_
  subst hFound
  refine reads_ifNoMatch (by grind) ?_
  refine reads_ifCheck (fun h => hRead (by grind) (by grind))
    fun hInt => ?_
  refine reads_ifCheck (fun h => hRead (by grind) (by grind))
    fun hFloat => ?_
  refine reads_ifCheck (fun h => hRead (by grind) (by grind))
    fun hString => ?_
  refine reads_ifCheckKeyword
    (fun h => hRead (by grind) (by grind)) fun hTrue => ?_
  refine reads_ifCheckKeyword
    (fun h => hRead (by grind) (by grind)) fun hFalse => ?_
  refine reads_ifCheckKeyword
    (fun h => hRead (by grind) (by grind)) fun hNull => ?_
  exfalso
  split at hLiteral <;> contradiction

/- A name is a call where a parenthesis follows. -/
theorem reads_named
    {Q : Expression φ → Prop}
    (hName : IsMark token .identifier)
    (hCall : second.type = .lparen →
      Reads (functionCall expression frames)
        (token :: second :: rest) Q last)
    (hColumn : second.type ≠ .lparen →
      Reads columnReference (token :: second :: rest) Q last) :
    Reads (primary select expression (frames + 1))
      (token :: second :: rest) Q last := by
  have hNoType {type : TokenType}
      (hType : type ≠ .identifier) : token.type ≠ type :=
    fun h => hType (h.symm.trans hName.1)
  have hNoWord {keyword : Keyword} :
      token.keyword ≠ some keyword := by
    rw [hName.2]
    exact nofun
  have hPeek : Reads (peekIsCall : Parsing φ Bool)
      (token :: second :: rest)
      (fun found => found = decide (second.type = .lparen))
      (token :: second :: rest) := by
    refine Reads.bind .get fun state hState => ?_
    rw [hState]
    exact Reads.pure rfl
  refine Reads.bind reads_current fun found _ => ?_
  refine reads_ifNoMatch (hNoType (by decide)) ?_
  refine reads_ifCheck
    (fun h => absurd h (hNoType (by decide))) fun _ => ?_
  refine reads_ifCheck
    (fun h => absurd h (hNoType (by decide))) fun _ => ?_
  refine reads_ifCheck
    (fun h => absurd h (hNoType (by decide))) fun _ => ?_
  refine reads_ifCheckKeyword (fun h => absurd h hNoWord)
    fun _ => ?_
  refine reads_ifCheckKeyword (fun h => absurd h hNoWord)
    fun _ => ?_
  refine reads_ifCheckKeyword (fun h => absurd h hNoWord)
    fun _ => ?_
  refine reads_ifCheck (fun _ => ?_) fun hNot =>
    absurd hName.1 hNot
  refine Reads.bind hPeek fun isCall hIsCall => ?_
  by_cases hParen : second.type = .lparen
  · rw [hIsCall, if_pos (decide_eq_true hParen)]
    exact hCall hParen
  · rw [hIsCall, decide_eq_false hParen]
    exact hColumn hParen

theorem reads_column
    (hName : IsMark token .identifier)
    (hDot : second.type ≠ .dot) :
    Reads columnReference (token :: second :: rest)
      (fun tree => tree.erase =
        .columnRef nowhere (identifierName token) none)
      (second :: rest) := by
  refine Reads.bind (reads_identifier hName)
    fun found hFound => ?_
  subst hFound
  refine reads_ifNoMatch hDot (reads_node.weaken ?_)
  rintro _ ⟨at_, rfl⟩
  rw [Expression.erase]

theorem reads_qualified
    {dot name : Token φ}
    (hTable : IsMark token .identifier)
    (hDot : IsMark dot .dot)
    (hName : IsMark name .identifier) :
    Reads columnReference (token :: dot :: name :: rest)
      (fun tree => tree.erase =
        .columnRef nowhere (identifierName name)
          (some (identifierName token))) rest := by
  refine Reads.bind (reads_identifier hTable)
    fun found hFound => ?_
  subst hFound
  refine reads_ifMatch hDot (by decide) ?_
  refine Reads.bind (reads_identifier hName)
    fun found hFound => ?_
  subst hFound
  refine reads_node.weaken ?_
  rintro _ ⟨at_, rfl⟩
  rw [Expression.erase]

variable {function : AggregateFunction} {tree : Expression φ}

/- A call, from what is read between its parentheses. -/
theorem reads_call
    (hName : IsMark token .identifier)
    (hFunction : functionOf token = some function)
    (hOpens : IsMark second .lparen)
    (hArgument : Reads
      (functionArgument (expression frames) function)
      tokens (fun make => ∀ at_, (make at_).erase = tree)
      (closing :: rest))
    (hCloses : IsMark closing .rparen) :
    Reads (functionCall expression (frames + 1))
      (token :: second :: tokens)
      (fun found => found.erase = tree) rest := by
  refine Reads.bind
    (reads_advance (by rw [hName.1]; decide))
    fun found hFound => ?_
  subst hFound
  unfold functionOf at hFunction
  rw [hFunction]
  refine Reads.bind (reads_expect hOpens (by decide))
    fun _ _ => ?_
  refine Reads.bind hArgument fun make hMake => ?_
  refine Reads.bind (reads_expect hCloses (by decide))
    fun _ _ => ?_
  refine reads_node.weaken ?_
  rintro _ ⟨at_, rfl⟩
  exact hMake at_

theorem reads_starArgument
    (hStar : IsMark token .star) :
    Reads (functionArgument (expression frames) .count)
      (token :: rest)
      (fun make => ∀ at_,
        (make at_).erase = .countRows nowhere) rest := by
  refine reads_ifCheck (fun _ => ?_) fun hNot =>
    absurd hStar.1 hNot
  refine Reads.bind (reads_advance (by rw [hStar.1]; decide))
    fun _ _ => ?_
  exact Reads.pure fun at_ => by rw [Expression.erase]

theorem reads_argument
    {argument : Expression φ}
    (hStar : token.type ≠ .star)
    (hInner : Reads (expression frames) (token :: tokens)
      (fun tree => tree.erase = argument) rest)
    (hPlain : isFunctionCall argument = false) :
    Reads (functionArgument (expression frames) function)
      (token :: tokens)
      (fun make => ∀ at_, (make at_).erase =
        .functionCall nowhere function argument) rest := by
  refine reads_ifCheck (fun h => absurd h hStar) fun _ => ?_
  refine Reads.bind hInner fun tree hTree => ?_
  have hCall : isFunctionCall tree = false := by
    rw [← isFunctionCall_erase, hTree]
    exact hPlain
  rw [hCall]
  exact Reads.pure fun at_ => by rw [Expression.erase, hTree]

theorem reads_paren
    (hOpens : IsMark token .lparen)
    (hSelect : second.keyword ≠ some .select)
    (hInner : Reads (expression frames) (second :: tokens)
      (fun found => found.erase = tree) (closing :: rest))
    (hCloses : IsMark closing .rparen) :
    Reads (primary select expression (frames + 1))
      (token :: second :: tokens)
      (fun found => found.erase = tree) rest := by
  refine Reads.bind reads_current fun found _ => ?_
  refine reads_ifMatch hOpens (by decide) ?_
  refine reads_ifCheckKeyword (fun h => absurd h hSelect)
    fun _ => ?_
  refine Reads.bind hInner fun inner hTree => ?_
  refine Reads.bind (reads_expect hCloses (by decide))
    fun _ _ => ?_
  exact Reads.pure (by rw [erase_withSpan, hTree])

end Values

--
-- First Tokens, and What Comes Next
--

/- How an expression of a level starts. -/
structure Starts
    (level : Precedence)
    (token : Token φ) : Prop where
  noStar : token.type ≠ .star
  noSelect : token.keyword ≠ some .select
  noNot : 3 ≤ level.rank → token.keyword ≠ some .not
  noSign : 7 ≤ level.rank →
    token.type ≠ .minus ∧ token.type ≠ .plus

/- What may come after an expression of a level: no operator of
   that level or of a tighter one. -/
structure Follows
    (level : Precedence)
    (token : Token φ)
    (others : List (Token φ)) : Prop where
  noDot : token.type ≠ .dot
  noParen : token.type ≠ .lparen
  noOperator : ∀ other : Precedence,
    level.rank ≤ other.rank → other.binary token = none
  noComparison : level.rank ≤ 3 →
    comparisonOperators token.type = none
  noWord : level.rank ≤ 3 → ∀ keyword : Keyword,
    keyword ∈ [.is, .keyIn, .like, .between] →
      token.keyword ≠ some keyword
  noNotIn : level.rank ≤ 3 → token.keyword = some .not →
    ∀ second ∈ others.head?, second.keyword ≠ some .keyIn

section Places

variable {level tighter : Precedence} {token : Token φ}
variable {others : List (Token φ)}

theorem Follows.next
    (hFollows : Follows level token others) :
    Follows level.next token others := by
  have hRank := level.rank_le_next
  exact
    { noDot := hFollows.noDot
      noParen := hFollows.noParen
      noOperator := fun other hOther =>
        hFollows.noOperator other (hRank.trans hOther)
      noComparison := fun h =>
        hFollows.noComparison (hRank.trans h)
      noWord := fun h => hFollows.noWord (hRank.trans h)
      noNotIn := fun h => hFollows.noNotIn (hRank.trans h) }

theorem Starts.of_rank
    (hStarts : Starts tighter token)
    (hRank : level.rank ≤ tighter.rank) :
    Starts level token where
  noStar := hStarts.noStar
  noSelect := hStarts.noSelect
  noNot h := hStarts.noNot (h.trans hRank)
  noSign h := hStarts.noSign (h.trans hRank)

theorem Starts.sign_eq_none
    (hStarts : Starts level.next token) :
    level.sign token = none := by
  have hNot := hStarts.noNot
  have hSign := hStarts.noSign
  cases level with
  | not => exact if_neg (hNot (by decide))
  | unary =>
    have hNone := hSign (by decide)
    change signs token = none
    rw [signs, if_neg hNone.1, if_neg hNone.2]
  | _ => rfl

variable {type : TokenType}

/- A token that is no word and no operator. -/
theorem starts_of_mark
    (hMark : IsMark token type)
    (hType : type = .identifier ∨ type = .lparen) :
    Starts level token := by
  rcases hMark with ⟨rfl, hNone⟩
  constructor <;> grind

theorem starts_of_literal
    {value : Value φ × Option Indexing.DataType}
    (hLiteral : literalOf token = some value) :
    Starts level token := by
  unfold literalOf at hLiteral
  constructor <;> grind

variable {operator : UnaryOperator}

theorem starts_of_sign
    (hOperator : level.sign token = some operator)
    (hWorded : Worded token) : Starts level token := by
  unfold Worded at hWorded
  cases level <;>
    simp only [Precedence.sign, negations, signs,
      reduceCtorEq] at hOperator <;>
    constructor <;> grind [Precedence.rank]

/- A comma or a closing parenthesis ends any expression. -/
theorem follows_of_mark
    (hMark : IsMark token type)
    (hType : type = .comma ∨ type = .rparen) :
    Follows level token others := by
  rcases hMark with ⟨rfl, hNone⟩
  refine ⟨by grind, by grind, fun other _ => ?_, ?_, ?_, ?_⟩
  · cases other <;>
      grind [Precedence.binary, disjunctions, conjunctions,
        terms, factors, additiveOperators,
        multiplicativeOperators]
  · grind [comparisonOperators]
  · grind
  · grind

/- What ends a sum may be a word or a comparison. -/
theorem follows_additive
    (hType : token.type = .keyword ∨
      comparisonOperators token.type ≠ none) :
    Follows .additive token others := by
  unfold comparisonOperators at hType
  refine ⟨by grind, by grind, fun other hRank => ?_,
    fun h => absurd h (by decide),
    fun h => absurd h (by decide),
    fun h => absurd h (by decide)⟩
  cases other <;>
    grind [Precedence.rank, Precedence.binary, terms, factors,
      additiveOperators, multiplicativeOperators]

theorem multiplicative_of_additive
    (hType : additiveOperators type ≠ none) :
    multiplicativeOperators type = none := by
  unfold additiveOperators at hType
  split at hType <;> first | rfl | exact absurd rfl hType

/- An operator ends its left operand. -/
theorem follows_of_binary
    {operator : BinaryOperator}
    (hOperator : level.binary token = some operator)
    (hWorded : Worded token) :
    Follows level.next token others := by
  unfold Worded at hWorded
  have hTighter (other : Precedence)
      (hRank : level.next.rank ≤ other.rank) :
      other.binary token = none := by
    cases other <;> try rfl
    all_goals
      cases level <;>
        grind [Precedence.rank, Precedence.next,
          Precedence.binary, disjunctions, conjunctions,
          terms, factors, additiveOperators,
          multiplicativeOperators, multiplicative_of_additive]
  refine ⟨?_, ?_, hTighter, ?_, ?_, ?_⟩
  all_goals
    cases level <;>
      grind [Precedence.rank, Precedence.next,
        Precedence.binary, disjunctions, conjunctions, terms,
        factors, additiveOperators, multiplicativeOperators,
        comparisonOperators]

theorem ne_eof_of_binary
    {operator : BinaryOperator}
    (hOperator : level.binary token = some operator)
    (hWorded : Worded token) : token.type ≠ .eof := by
  unfold Worded at hWorded
  cases level <;>
    grind [Precedence.binary, disjunctions, conjunctions,
      terms, factors, additiveOperators,
      multiplicativeOperators]

theorem ne_eof_of_sign
    (hOperator : level.sign token = some operator)
    (hWorded : Worded token) : token.type ≠ .eof := by
  unfold Worded at hWorded
  cases level <;> grind [Precedence.sign, negations, signs]

end Places

--
-- Reading at a Level
--

section Levels

variable [PythonStr]
variable {select : Rule φ → ℕ → Parsing φ Unit}

/- The rule of each level. -/
def rulesAt
    (select : Rule φ → ℕ → Parsing φ Unit)
    (expression : Rule φ) : Precedence → Rule φ
  | .primary => primary select expression
  | .unary => unary select expression
  | .multiplicative => multiplicative select expression
  | .additive => additive select expression
  | .comparison =>
    comparison expression (additive select expression)
  | .not => notExpression select expression
  | .and => andExpression select expression
  | .or => orExpression select expression

variable {fuel frames : ℕ} {level tighter : Precedence}
variable {tree left right : Expression φ} {token : Token φ}
variable {tokens lefts rights others : List (Token φ)}
variable {expression : Rule φ}
variable {binary : BinaryOperator} {sign : UnaryOperator}

/- Room for ten calls a token, and for ten more, less those
   that led to the level. -/
def Room
    (level : Precedence)
    (tokens : List (Token φ))
    (frames : ℕ) : Prop :=
  10 * (tokens.length + 1) ≤ frames + level.rank

omit [PythonStr] in
theorem Room.succ (hRoom : Room level tokens frames) :
    ∃ less, frames = less + 1 := by
  have hRank : level.rank ≤ 7 := by cases level <;> decide
  unfold Room at hRoom
  exact ⟨frames - 1, by omega⟩

omit [PythonStr] in
theorem Room.operand
    (hRoom : Room level tokens (frames + 1))
    (hRank : level.rank < tighter.rank)
    (hLength : others.length ≤ tokens.length) :
    Room tighter others frames := by
  unfold Room at hRoom ⊢
  omega

omit [PythonStr] in
/- What is between parentheses has room, three calls on. -/
theorem Room.inside
    (hRoom : Room .primary tokens frames)
    (hLength : others.length + 2 ≤ tokens.length) :
    ∃ less, frames = less + 3 ∧ Room .or others less := by
  have hPrimary : Precedence.primary.rank = 7 := rfl
  unfold Room at hRoom ⊢
  exact ⟨frames - 3, by omega, by omega⟩

/- The rule of a level reads a tree, given room. -/
def Plain
    (select : Rule φ → ℕ → Parsing φ Unit)
    (expression : Rule φ)
    (level : Precedence)
    (tree : Expression φ)
    (tokens : List (Token φ)) : Prop :=
  ∀ (frames : ℕ) (next : Token φ) (others : List (Token φ)),
    Room level tokens frames →
    Follows level next others →
      Reads (rulesAt select expression level frames)
        (tokens ++ next :: others)
        (fun found => found.erase = tree) (next :: others)

/- The loop of a level reads a tree, and goes on with it. -/
def Continues
    (select : Rule φ → ℕ → Parsing φ Unit)
    (expression : Rule φ)
    (level : Precedence)
    (tree : Expression φ)
    (tokens : List (Token φ)) : Prop :=
  ∀ (frames : ℕ) (next : Token φ) (others : List (Token φ))
    (Q : Expression φ → Prop) (last : List (Token φ)),
    Room level.next tokens frames →
    Follows level.next next others →
    (∀ left fuel, left.erase = tree →
      others.length + 1 < fuel →
        Reads (chainRest level.binary
          (rulesAt select expression level.next frames) fuel
            left)
          (next :: others) Q last) →
      Reads (chain level.binary
        (rulesAt select expression level.next) (frames + 1))
        (tokens ++ next :: others) Q last

/- What is shown of a derivation, by how the rule of its level
   goes about it. -/
def ReadAt
    (select : Rule φ → ℕ → Parsing φ Unit)
    (expression : Rule φ)
    (level : Precedence) :
    Expression φ → List (Token φ) → Prop :=
  match level with
  | .not => Plain select expression .not
  | .unary => Plain select expression .unary
  | .comparison => Plain select expression .comparison
  | .primary => Plain select expression .primary
  | looping => Continues select expression looping

/- The loop ends where there is no operator. -/
theorem Continues.plain
    (hRule : rulesAt select expression level =
      chain level.binary
        (rulesAt select expression level.next))
    (hNext : level.rank < level.next.rank)
    (hContinues :
      Continues select expression level tree tokens) :
    Plain select expression level tree tokens := by
  intro frames next others hRoom hFollows
  rcases hRoom.succ with ⟨less, rfl⟩
  rw [hRule]
  refine hContinues less next others _ _
    (hRoom.operand hNext (Nat.le_refl _)) hFollows.next
    fun left fuel hLeft hFuel => ?_
  cases fuel with
  | zero => exact absurd hFuel (Nat.not_lt_zero _)
  | succ fuel =>
    refine Reads.bind reads_current fun found hFound => ?_
    rw [hFound, hFollows.noOperator level (Nat.le_refl _)]
    exact Reads.pure hLeft

theorem ReadAt.plain
    (hRead : ReadAt select expression level tree tokens) :
    Plain select expression level tree tokens := by
  cases level with
  | not => exact hRead
  | unary => exact hRead
  | comparison => exact hRead
  | primary => exact hRead
  | _ => exact Continues.plain rfl (by decide) hRead

/- One operand is enough for the loop. -/
theorem Plain.continues
    (hPlain :
      Plain select expression level.next tree tokens) :
    Continues select expression level tree tokens := by
  intro frames next others Q last hRoom hFollows hRest
  refine Reads.bind (hPlain frames next others hRoom hFollows)
    fun left hLeft => ?_
  refine Reads.bind .get fun state hState => ?_
  refine hRest left _ hLeft ?_
  rw [hState, List.length_cons]
  exact Nat.lt_succ_self _

/- Without an operator in front. -/
theorem Plain.unsigned
    (hPlain : Plain select expression level.next tree tokens)
    (hRule : rulesAt select expression level =
      prefixed level.sign
        (rulesAt select expression level.next))
    (hNext : level.rank < level.next.rank)
    (hStarts : ∃ token rest, tokens = token :: rest ∧
      level.sign token = none) :
    Plain select expression level tree tokens := by
  intro frames next others hRoom hFollows
  rcases hRoom.succ with ⟨less, rfl⟩
  rcases hStarts with ⟨token, rest, rfl, hNone⟩
  rw [hRule]
  refine Reads.bind reads_current fun found hFound => ?_
  rw [hFound, hNone]
  exact hPlain less next others
    (hRoom.operand hNext (Nat.le_refl _)) hFollows.next

omit [PythonStr] in
theorem reads_notBeforeIn
    {isNot : Bool}
    (hNot : (decide (token.keyword = some .not) &&
      others.head?.any fun second =>
        decide (second.keyword = some .keyIn)) = isNot)
    (hType : isNot = true → token.type ≠ .eof) :
    Reads (notBeforeIn : Parsing φ Bool) (token :: others)
      (fun found => found = isNot)
      (if isNot then others else token :: others) := by
  have hPeek : Reads
      (peekKeyword 1 .keyIn : Parsing φ Bool)
      (token :: others)
      (fun found => found = others.head?.any fun second =>
        decide (second.keyword = some .keyIn))
      (token :: others) := by
    refine Reads.bind .get fun state hState => ?_
    rw [hState]
    cases others with
    | nil => exact Reads.pure rfl
    | cons second rest => exact Reads.pure rfl
  refine Reads.bind reads_checkKeyword fun isWord hWord => ?_
  refine Reads.bind hPeek fun isIn hIn => ?_
  rw [hWord, hIn, hNot]
  cases isNot with
  | false => exact Reads.pure rfl
  | true =>
    exact Reads.bind (reads_advance (hType rfl))
      fun _ _ => Reads.pure rfl

/- The rule of a comparison, of a sum alone. -/
theorem Plain.comparison
    (hPlain : Plain select expression .additive tree tokens) :
    Plain select expression .comparison tree tokens := by
  intro frames next others hRoom hFollows
  rcases hRoom.succ with ⟨less, rfl⟩
  have hRank : Precedence.comparison.rank ≤ 3 := Nat.le_refl _
  have hWord := hFollows.noWord hRank
  have hNotIn : (decide (next.keyword = some .not) &&
      others.head?.any fun second =>
        decide (second.keyword = some .keyIn)) = false := by
    have hNever := hFollows.noNotIn hRank
    cases others <;> grind
  refine Reads.bind (hPlain less next others
    (hRoom.operand (by decide) (Nat.le_refl _)) hFollows.next)
      fun left hLeft => ?_
  refine Reads.bind reads_current fun found hFound => ?_
  rw [hFound, hFollows.noComparison hRank]
  refine reads_ifCheckKeyword
    (fun h => absurd h (hWord _ (by decide))) fun _ => ?_
  refine Reads.bind (reads_notBeforeIn hNotIn nofun)
    fun negated hNegated => ?_
  refine reads_ifCheckKeyword
    (fun h => absurd h (hWord _ (by decide))) fun _ => ?_
  refine reads_ifCheckKeyword
    (fun h => absurd h (hWord _ (by decide))) fun _ => ?_
  exact reads_ifCheckKeyword
    (fun h => absurd h (hWord _ (by decide)))
    fun _ => Reads.pure hLeft

/- What a level reads, the looser level reads. -/
theorem ReadAt.looser
    (hRead :
      ReadAt select expression level.next tree tokens)
    (hStarts : ∃ token rest, tokens = token :: rest ∧
      Starts level.next token) :
    ReadAt select expression level tree tokens := by
  have hPlain := hRead.plain
  rcases hStarts with ⟨token, rest, hTokens, hToken⟩
  have hNone := hToken.sign_eq_none
  cases level with
  | not =>
    exact hPlain.unsigned rfl (by decide)
      ⟨token, rest, hTokens, hNone⟩
  | unary =>
    exact hPlain.unsigned rfl (by decide)
      ⟨token, rest, hTokens, hNone⟩
  | comparison => exact hPlain.comparison
  | primary => exact hRead
  | _ => exact hPlain.continues

--
-- Reading Each Form
--

theorem readAt_iff_continues
    (hOperator : level.binary token = some binary) :
    ReadAt select expression level tree tokens ↔
      Continues select expression level tree tokens := by
  cases level <;> first | rfl | cases hOperator

theorem readAt_iff_plain
    (hOperator : level.sign token = some sign) :
    ReadAt select expression level tree tokens ↔
      Plain select expression level tree tokens := by
  cases level <;> first | rfl | cases hOperator

theorem rule_of_sign
    (hOperator : level.sign token = some sign) :
    rulesAt select expression level =
      prefixed level.sign
        (rulesAt select expression level.next) := by
  cases level <;> first | rfl | cases hOperator

/- One more operator behind a chain. -/
theorem Continues.chained
    (hLeft : Continues select expression level left lefts)
    (hOperator : level.binary token = some binary)
    (hWorded : Worded token)
    (hRight :
      Plain select expression level.next right rights) :
    Continues select expression level
      (.binaryOp nowhere binary left right)
      (lefts ++ token :: rights) := by
  intro frames next others Q last hRoom hFollows hRest
  rw [List.append_assoc, List.cons_append]
  have hRooms : Room level.next lefts frames ∧
      Room level.next rights frames := by
    unfold Room at hRoom ⊢
    rw [List.length_append, List.length_cons] at hRoom
    omega
  refine hLeft frames token (rights ++ next :: others) Q last
    hRooms.1 (follows_of_binary hOperator hWorded)
    fun found fuel hFound hFuel => ?_
  cases fuel with
  | zero => exact absurd hFuel (Nat.not_lt_zero _)
  | succ fuel =>
    refine Reads.bind reads_current fun seen hSeen => ?_
    rw [hSeen, hOperator]
    refine Reads.bind (reads_advance
      (ne_eof_of_binary hOperator hWorded)) fun _ _ => ?_
    refine Reads.bind (hRight frames next others hRooms.2
      hFollows) fun second hSecond => ?_
    refine Reads.bind reads_node fun joined hJoined => ?_
    rcases hJoined with ⟨at_, rfl⟩
    refine hRest _ fuel ?_ ?_
    · rw [Expression.erase, hFound, hSecond]
    · rw [List.length_append, List.length_cons] at hFuel
      omega

/- One more operator in front. -/
theorem Plain.signed
    (hOperator : level.sign token = some sign)
    (hWorded : Worded token)
    (hInner : Plain select expression level right rights) :
    Plain select expression level
      (.unaryOp nowhere sign right) (token :: rights) := by
  intro frames next others hRoom hFollows
  rcases hRoom.succ with ⟨less, rfl⟩
  have hLess : Room level rights less := by
    unfold Room at hRoom ⊢
    rw [List.length_cons] at hRoom
    omega
  unfold Plain at hInner
  rw [rule_of_sign hOperator] at hInner ⊢
  rw [List.cons_append]
  refine Reads.bind reads_current fun seen hSeen => ?_
  rw [hSeen, hOperator]
  refine Reads.bind (reads_advance
    (ne_eof_of_sign hOperator hWorded)) fun _ _ => ?_
  refine Reads.bind (hInner less next others hLess hFollows)
    fun inner hInner => ?_
  refine reads_node.weaken ?_
  rintro _ ⟨at_, rfl⟩
  rw [Expression.erase, hInner]

/- Two sums with a comparison between them. -/
theorem Plain.compared
    (hLeft : Plain select expression .additive left lefts)
    (hOperator :
      comparisonOperators token.type = some binary)
    (hRight :
      Plain select expression .additive right rights) :
    Plain select expression .comparison
      (.binaryOp nowhere binary left right)
      (lefts ++ token :: rights) := by
  intro frames next others hRoom hFollows
  rcases hRoom.succ with ⟨less, rfl⟩
  rw [List.append_assoc, List.cons_append]
  refine Reads.bind (hLeft less token _
    (hRoom.operand (by decide) (by simp))
    (follows_additive (.inr ?_))) fun found hFound => ?_
  · rw [hOperator]
    exact Option.some_ne_none _
  refine Reads.bind reads_current fun seen hSeen => ?_
  rw [hSeen, hOperator]
  refine Reads.bind (reads_advance ?_) fun _ _ => ?_
  · intro hType
    rw [hType] at hOperator
    cases hOperator
  refine Reads.bind (hRight less next others
    (hRoom.operand (by decide)
      (by rw [List.length_append, List.length_cons]; omega))
    hFollows.next) fun second hSecond => ?_
  refine reads_node.weaken ?_
  rintro _ ⟨at_, rfl⟩
  rw [Expression.erase, hFound, hSecond]

/- A comparison that is told by a word. -/
theorem Plain.worded
    {keyword : Keyword}
    {words : List (Token φ)}
    (hLeft : Plain select expression .additive left lefts)
    (hWord : IsWord token keyword)
    (hRest : ∀ less next others found,
      Room .comparison (lefts ++ token :: words) (less + 1) →
      found.erase = left →
      Reads (comparisonRest expression found less)
        (token :: words ++ next :: others)
        (fun found => found.erase = tree)
        (next :: others)) :
    Plain select expression .comparison tree
      (lefts ++ token :: words) := by
  intro frames next others hRoom hFollows
  rcases hRoom.succ with ⟨less, rfl⟩
  rw [List.append_assoc, List.cons_append]
  refine Reads.bind (hLeft less token _
    (hRoom.operand (by decide) (by simp))
    (follows_additive (.inl hWord.1))) fun found hFound => ?_
  refine Reads.bind reads_current fun seen hSeen => ?_
  rw [hSeen, hWord.1]
  exact hRest less next others found hRoom hFound

theorem Plain.isNull
    {isToken nullToken : Token φ}
    {notToken : Option (Token φ)}
    (hLeft : Plain select expression .additive left lefts)
    (hIs : IsWord isToken .is)
    (hNot : ∀ token ∈ notToken, IsWord token .not)
    (hNull : IsWord nullToken .null) :
    Plain select expression .comparison
      (.isNullTest nowhere left notToken.isSome)
      (lefts ++ isToken ::
        (notToken.toList ++ [nullToken])) := by
  refine hLeft.worded hIs
    fun less next others found _ hFound => ?_
  refine reads_ifCheckKeyword (fun _ => ?_) fun hNo =>
    absurd hIs.2 hNo
  refine Reads.bind (reads_advance (by rw [hIs.1]; decide))
    fun _ _ => ?_
  have hNegated : Reads (matchKeyword .not)
      (notToken.toList ++ [nullToken] ++ next :: others)
      (fun seen => seen = notToken)
      (nullToken :: next :: others) := by
    cases notToken with
    | none =>
      refine reads_noKeyword ?_
      rw [hNull.2]
      decide
    | some token => exact reads_matchKeyword (hNot token rfl)
  refine Reads.bind hNegated fun negated hSeen => ?_
  refine Reads.bind (reads_expectKeyword hNull) fun _ _ => ?_
  refine reads_node.weaken ?_
  rintro _ ⟨at_, rfl⟩
  rw [Expression.erase, hFound, hSeen]

/- From `IN` on, by what is read as the items. -/
theorem reads_inList
    {inToken opening closing : Token φ}
    {found : Expression φ}
    {items : Items φ}
    {negated : Bool}
    {inners rest : List (Token φ)}
    (hFound : found.erase = left)
    (hIn : IsWord inToken .keyIn)
    (hOpens : IsMark opening .lparen)
    (hSelect : ∃ token rest, inners = token :: rest ∧
      token.keyword ≠ some .select)
    (hItems : ∀ fuel, inners.length < fuel →
      Reads (commaSeparated (expression frames) fuel)
        (inners ++ closing :: rest)
        (fun found => found.erase = items) (closing :: rest))
    (hCloses : IsMark closing .rparen) :
    Reads (inList expression found negated (frames + 1))
      (inToken :: opening :: (inners ++ closing :: rest))
      (fun tree => tree.erase =
        .inList nowhere left items negated) rest := by
  refine Reads.bind (reads_expectKeyword hIn) fun _ _ => ?_
  refine Reads.bind (reads_expect hOpens (by decide))
    fun _ _ => ?_
  rcases hSelect with ⟨token, others, rfl, hSelect⟩
  refine reads_ifCheckKeyword (fun h => absurd h hSelect)
    fun _ => ?_
  refine Reads.bind .get fun state hState => ?_
  refine Reads.bind (hItems _ ?_) fun found hItems => ?_
  · rw [hState, List.append_eq, List.length_cons,
      List.length_cons, List.length_append]
    omega
  refine Reads.bind (reads_expect hCloses (by decide))
    fun _ _ => ?_
  refine reads_node.weaken ?_
  rintro _ ⟨at_, rfl⟩
  rw [Expression.erase, hFound, hItems]

theorem Plain.inList
    {notToken : Option (Token φ)}
    {inToken opening closing : Token φ}
    {items : Items φ}
    {inners : List (Token φ)}
    (hLeft : Plain select expression .additive left lefts)
    (hNot : ∀ token ∈ notToken, IsWord token .not)
    (hIn : IsWord inToken .keyIn)
    (hRest : ∀ less found negated rest,
      Room .or inners less → found.erase = left →
      Reads (Grammar.inList expression found negated
        (less + 2)) (inToken :: opening :: (inners ++ closing :: rest))
        (fun tree => tree.erase =
          .inList nowhere left items negated) rest) :
    Plain select expression .comparison
      (.inList nowhere left items notToken.isSome)
      (lefts ++ (notToken.toList ++ inToken :: opening ::
        (inners ++ [closing]))) := by
  have hTokens (rest : List (Token φ)) :
      inToken :: opening :: (inners ++ [closing]) ++ rest =
        inToken :: opening :: (inners ++ closing :: rest) := by
    simp only [List.cons_append, List.append_assoc,
      List.nil_append]
  have hIsIn := hIn.2
  have hLess {less : ℕ}
      (hRoom : Room .comparison (lefts ++ (notToken.toList ++
        inToken :: opening :: (inners ++ [closing])))
        (less + 1)) :
      ∃ fewer, less = fewer + 2 ∧ Room .or inners fewer := by
    have hRank : Precedence.comparison.rank = 3 := rfl
    unfold Room at hRoom ⊢
    simp only [List.length_append, List.length_cons] at hRoom
    exact ⟨less - 2, by omega, by omega⟩
  cases notToken with
  | none =>
    refine hLeft.worded hIn
      fun less next after found hRoom hFound => ?_
    rcases hLess hRoom with ⟨fewer, rfl, hFewer⟩
    rw [hTokens]
    refine reads_ifCheckKeyword (fun h => by grind)
      fun _ => ?_
    have hNotIn : (decide (inToken.keyword = some .not) &&
        (opening :: (inners ++ closing :: next :: after)
          ).head?.any fun second =>
            decide (second.keyword = some .keyIn)) =
        false := by
      rw [hIsIn]
      rfl
    refine Reads.bind (reads_notBeforeIn hNotIn nofun)
      fun negated hNegated => ?_
    refine reads_ifCheckKeyword (fun _ => ?_) fun hNo =>
      absurd hIsIn hNo
    subst hNegated
    exact hRest fewer found false _ hFewer hFound
  | some token =>
    have hWord := hNot token rfl
    have hIsNot := hWord.2
    change Plain select expression .comparison _
      (lefts ++ token :: inToken :: opening ::
        (inners ++ [closing]))
    refine hLeft.worded hWord
      fun less next after found hRoom hFound => ?_
    rcases hLess hRoom with ⟨fewer, rfl, hFewer⟩
    rw [List.cons_append, hTokens]
    refine reads_ifCheckKeyword (fun h => by grind)
      fun _ => ?_
    have hNotIn : (decide (token.keyword = some .not) &&
        (inToken :: opening ::
          (inners ++ closing :: next :: after)
          ).head?.any fun second =>
            decide (second.keyword = some .keyIn)) =
        true := by
      rw [hIsNot, List.head?_cons, Option.any_some, hIsIn]
      rfl
    refine Reads.bind (reads_notBeforeIn hNotIn
      fun _ => by rw [hWord.1]; decide)
      fun negated hNegated => ?_
    refine reads_ifCheckKeyword (fun _ => ?_) fun hNo =>
      absurd hIsIn hNo
    subst hNegated
    exact hRest fewer found true _ hFewer hFound

end Levels

--
-- Every Derivation Is Read
--

section Derived

variable [PythonStr] {levels : ℕ} {level : Precedence}
variable {tree : Expression φ} {tokens : List (Token φ)}

/- An expression starts as one of its level does. -/
theorem Derives.starts
    (hDerives : Derives levels level tree tokens) :
    ∃ token rest, tokens = token :: rest ∧
      Starts level token := by
  -- the first token of the left operand is the first of all
  have hLeft {tighter looser : Precedence}
      {lefts rights : List (Token φ)}
      (hRank : looser.rank ≤ tighter.rank)
      (hStarts : ∃ token rest, lefts = token :: rest ∧
        Starts tighter token) :
      ∃ token rest, lefts ++ rights = token :: rest ∧
        Starts looser token := by
    rcases hStarts with ⟨token, rest, rfl, hToken⟩
    exact ⟨token, rest ++ rights, rfl, hToken.of_rank hRank⟩
  apply @Derives.rec φ _
    (fun _ level _ tokens _ => ∃ token rest,
      tokens = token :: rest ∧ Starts level token)
    (fun _ _ _ _ => True) (t := hDerives)
  case looser =>
    rintro _ _ _ level _ ⟨token, rest, rfl, hToken⟩
    exact ⟨token, rest, rfl, hToken.of_rank level.rank_le_next⟩
  case value =>
    intro _ _ _ _ literal
    exact ⟨_, [], rfl, starts_of_literal literal⟩
  case column =>
    intro _ _ isName
    exact ⟨_, _, rfl, starts_of_mark isName (.inl rfl)⟩
  case qualified =>
    intro _ _ _ _ isTable _ _
    exact ⟨_, _, rfl, starts_of_mark isTable (.inl rfl)⟩
  case countRows =>
    intro _ _ _ _ _ isName _ _ _ _
    exact ⟨_, _, rfl, starts_of_mark isName (.inl rfl)⟩
  case call =>
    intro _ _ _ _ _ _ _ isName _ _ _ _ _ _
    exact ⟨_, _, rfl, starts_of_mark isName (.inl rfl)⟩
  case paren =>
    intro _ _ _ _ _ opens _ _ _
    exact ⟨_, _, rfl, starts_of_mark opens (.inr rfl)⟩
  case signed =>
    intro _ _ _ _ _ _ isOperator worded _ _
    exact ⟨_, _, rfl, starts_of_sign isOperator worded⟩
  case chained =>
    intro _ _ _ _ _ _ _ _ _ _ _ _ ih _
    exact hLeft (Nat.le_refl _) ih
  case compared =>
    intro _ _ _ _ _ _ _ _ _ _ ih _
    exact hLeft (by decide) ih
  case isNull =>
    intro _ _ _ _ _ _ _ _ _ _ ih
    exact hLeft (by decide) ih
  case inList =>
    intro _ _ _ _ _ _ _ _ _ _ _ _ _ _ _ ih _
    exact hLeft (by decide) ih
  all_goals intros; trivial

theorem Lists.starts
    {items : Items φ}
    (hLists : Lists levels items tokens) :
    ∃ token rest, tokens = token :: rest ∧
      token.keyword ≠ some .select := by
  cases hLists with
  | one only =>
    rcases only.starts with ⟨token, rest, rfl, hToken⟩
    exact ⟨token, rest, rfl, hToken.noSelect⟩
  | more first _ _ =>
    rcases first.starts with ⟨token, rest, rfl, hToken⟩
    exact ⟨token, _, rfl, hToken.noSelect⟩

variable {select : Rule φ → ℕ → Parsing φ Unit}

/- By induction on the derivation; the loops are told apart by
   what `ReadAt` says of their level. -/
theorem Derives.readAt
    (hDerives : Derives levels level tree tokens) :
    ReadAt select (expression select levels) level tree
      tokens := by
  apply @Derives.rec φ _
    (fun levels level tree tokens _ =>
      ReadAt select (expression select levels) level tree
        tokens)
    (fun levels items tokens _ =>
      ∀ frames closing rest fuel, Room .or tokens frames →
        IsMark closing .rparen → tokens.length < fuel →
          Reads (commaSeparated
            (expression select (levels + 1) (frames + 1)) fuel)
            (tokens ++ closing :: rest)
            (fun found => found.erase = items)
            (closing :: rest)) (t := hDerives)
  case looser =>
    intro _ _ _ _ tighter ih
    exact ih.looser tighter.starts
  case value =>
    intro _ _ _ _ literal frames next others hRoom _
    rcases hRoom.succ with ⟨less, rfl⟩
    exact reads_value literal
  case column =>
    intro _ _ isName frames next others hRoom hFollows
    rcases hRoom.succ with ⟨less, rfl⟩
    exact reads_named isName
      (fun h => absurd h hFollows.noParen)
      (fun _ => reads_column isName hFollows.noDot)
  case qualified =>
    intro _ _ _ _ isTable isDot isName frames next others hRoom
      _
    rcases hRoom.succ with ⟨less, rfl⟩
    exact reads_named isTable
      (fun h => absurd (isDot.1.symm.trans h) (by decide))
      (fun _ => reads_qualified isTable isDot isName)
  case countRows =>
    intro _ _ _ _ _ isName counts opens isStar closes frames
      next others hRoom _
    rcases hRoom.inside (show [].length + 2 ≤ _ by simp) with
      ⟨less, rfl, _⟩
    exact reads_named isName
      (fun _ => reads_call isName counts opens
        (reads_starArgument isStar) closes)
      (fun h => absurd opens.1 h)
  case call =>
    intro _ _ _ _ _ inners _ isName isFunction opens inner
      plain closes ih frames next others hRoom _
    rcases hRoom.inside (show inners.length + 2 ≤ _ by simp)
      with ⟨less, rfl, hLess⟩
    have hRead := ih.plain less _ (next :: others) hLess
      (follows_of_mark closes (.inr rfl))
    rw [List.cons_append, List.cons_append, List.append_assoc]
    refine reads_named isName (fun _ => ?_)
      (fun h => absurd opens.1 h)
    rcases inner.starts with ⟨token, rest, rfl, hStarts⟩
    exact reads_call isName isFunction opens
      (reads_argument hStarts.noStar hRead plain) closes
  case paren =>
    intro _ _ _ inners _ opens inner closes ih frames next
      others hRoom _
    rcases hRoom.inside (show inners.length + 2 ≤ _ by simp)
      with ⟨less, rfl, hLess⟩
    have hRead := ih.plain (less + 1) _ (next :: others)
      (Nat.le_trans hLess (Nat.add_le_add_right
        (Nat.le_succ less) _))
      (follows_of_mark closes (.inr rfl))
    rw [List.cons_append, List.append_assoc]
    rcases inner.starts with ⟨token, rest, rfl, hStarts⟩
    exact reads_paren opens hStarts.noSelect hRead closes
  case signed =>
    intro _ _ _ _ _ _ isOperator worded _ ih
    rw [readAt_iff_plain isOperator] at ih ⊢
    exact ih.signed isOperator worded
  case chained =>
    intro _ _ _ _ _ _ _ _ _ isOperator worded _ ihBefore
      ihAfter
    rw [readAt_iff_continues isOperator] at ihBefore ⊢
    exact ihBefore.chained isOperator worded ihAfter.plain
  case compared =>
    intro _ _ _ _ _ _ _ _ isOperator _ ihBefore ihAfter
    exact Plain.compared ihBefore.plain isOperator
      ihAfter.plain
  case isNull =>
    intro _ _ _ _ _ _ _ isIs isNot isNull ih
    exact Plain.isNull ih.plain isIs isNot isNull
  case inList =>
    intro _ _ _ _ _ _ _ _ _ _ isNot isIn opens listed closes
      ihOperand ihItems
    exact Plain.inList ihOperand.plain isNot isIn
      fun less found negated rest hLess hFound =>
        reads_inList hFound isIn opens listed.starts
          (fun fuel => ihItems less _ rest fuel hLess closes)
          closes
  case one =>
    intro _ _ _ _ ih frames closing rest fuel hRoom closes
      hFuel
    cases fuel with
    | zero => exact absurd hFuel (Nat.not_lt_zero _)
    | succ fuel =>
      refine Reads.bind (ih.plain frames closing rest hRoom
        (follows_of_mark closes (.inr rfl)))
          fun found hFound => ?_
      refine reads_ifNoMatch (by rw [closes.1]; decide)
        (Reads.pure ?_)
      rw [Items.erase, hFound]
  case more =>
    intro _ _ _ _ _ _ _ isComma _ ih ihRest frames closing rest
      fuel hRoom closes hFuel
    unfold Room at hRoom
    rw [List.length_append, List.length_cons] at hFuel hRoom
    cases fuel with
    | zero => exact absurd hFuel (Nat.not_lt_zero _)
    | succ fuel =>
      rw [List.append_assoc, List.cons_append]
      refine Reads.bind (ih.plain frames _ _
        (by unfold Room; omega)
        (follows_of_mark isComma (.inl rfl)))
          fun found hFound => ?_
      refine reads_ifMatch isComma (by decide) ?_
      refine Reads.bind (ihRest frames closing rest fuel
        (by unfold Room; omega) closes (by omega))
          fun last hLast => Reads.pure ?_
      rw [Items.erase, hFound, hLast]

/- More levels do no harm. -/
theorem Derives.mono
    (hDerives : Derives levels level tree tokens)
    (extra : ℕ) :
    Derives (levels + extra) level tree tokens := by
  apply @Derives.rec φ _
    (fun levels level tree tokens _ =>
      Derives (levels + extra) level tree tokens)
    (fun levels items tokens _ =>
      Lists (levels + extra) items tokens) (t := hDerives)
  case looser => exact fun _ ih => .looser ih
  case value => exact fun literal => .value literal
  case column => exact fun isName => .column isName
  case qualified =>
    exact fun isTable isDot isName =>
      .qualified isTable isDot isName
  case countRows =>
    exact fun isName counts opens isStar closes =>
      .countRows isName counts opens isStar closes
  case call =>
    intro levels _ _ _ _ _ _ isName isFunction opens _ plain
      closes ih
    rw [Nat.add_right_comm]
    exact .call isName isFunction opens ih plain closes
  case paren =>
    intro levels _ _ _ _ opens _ closes ih
    rw [Nat.add_right_comm]
    exact .paren opens ih closes
  case signed =>
    exact fun isOperator worded _ ih =>
      .signed isOperator worded ih
  case chained =>
    exact fun _ isOperator worded _ ih ihAfter =>
      .chained ih isOperator worded ihAfter
  case compared =>
    exact fun _ isOperator _ ih ihAfter =>
      .compared ih isOperator ihAfter
  case isNull =>
    exact fun _ isIs isNot isNull ih =>
      .isNull ih isIs isNot isNull
  case inList =>
    intro levels _ _ _ _ _ _ _ _ _ isNot isIn opens _ closes
      ih ihItems
    rw [Nat.add_right_comm] at ih ⊢
    exact .inList ih isNot isIn opens ihItems closes
  case one => exact fun _ ih => .one ih
  case more =>
    exact fun _ isComma _ ih ihRest => .more ih isComma ihRest

end Derived

--
-- The Grammar and the Parser
--

section Example

attribute [local instance] asciiStr

/- A token that is all its type says. -/
def mark (type : TokenType) : Token Rat where
  type := type
  lexeme := []
  span := nowhere.span
  keyword := none
  value := none

def word (keyword : Keyword) : Token Rat :=
  { mark .keyword with keyword := some keyword }

def named (name : String) : Token Rat :=
  { mark .identifier with lexeme := name.toList }

/- `NOT a = b AND c`. -/
def notFirst : List (Token Rat) :=
  [word .not, named "a", mark .eq, named "b", word .and,
   named "c"]

def columnNamed (name : String) : Expression Rat :=
  .columnRef nowhere name none

/- What it says: `(NOT (a = b)) AND c`. -/
def notFirstTree : Expression Rat :=
  .binaryOp nowhere .and
    (.unaryOp nowhere .not (.binaryOp nowhere .eq
      (columnNamed "a") (columnNamed "b")))
    (columnNamed "c")

/- What it does not say: `NOT ((a = b) AND c)`. -/
def notLastTree : Expression Rat :=
  .unaryOp nowhere .not (.binaryOp nowhere .and
    (.binaryOp nowhere .eq (columnNamed "a")
      (columnNamed "b")) (columnNamed "c"))

theorem derives_notFirst (levels : ℕ) :
    Derives levels .or notFirstTree notFirst := by
  have hSum (name : String)
      (hName : identifierName (named name) = name) :
      Derives levels .additive (columnNamed name)
        [named name] := by
    have hDerives : Derives levels .primary
        (.columnRef nowhere (identifierName (named name)) none)
        [named name] := .column ⟨rfl, rfl⟩
    rw [hName] at hDerives
    exact .looser (.looser (.looser hDerives))
  have hEqual : Derives levels .comparison _
      ([named "a"] ++ mark .eq :: [named "b"]) :=
    .compared (hSum "a" rfl) rfl (hSum "b" rfl)
  have hNot : Derives levels .not _
      (word .not :: ([named "a"] ++ mark .eq ::
        [named "b"])) :=
    .signed rfl (fun _ => rfl) (.looser hEqual)
  have hBoth : Derives levels .and notFirstTree
      ((word .not :: ([named "a"] ++ mark .eq ::
        [named "b"])) ++ word .and :: [named "c"]) :=
    .chained (.looser hNot) rfl (fun _ => rfl)
      (.looser (.looser (hSum "c" rfl)))
  exact .looser hBoth

end Example

/-
  What the grammar derives with 99 levels inside one another
  is read as the derivation says, where the stack has room for
  ten calls of rules a token and eleven more: `OR` binds looser
  than `AND`, then `NOT`, comparisons, sums, products and
  signs, and operators of one level associate to the left.
-/
theorem topExpression_reads
    [PythonStr]
    {tree : Expression φ}
    {next : Token φ}
    {tokens others : List (Token φ)}
    {frames : ℕ}
    (hDerives :
      Derives (maxExpressionDepth - 1) .or tree tokens)
    (hFollows : Follows .or next others)
    (hRoom : 10 * tokens.length + 11 ≤ frames)
    (select : Rule φ → ℕ → Parsing φ Unit) :
    Reads (topExpression select frames)
      (tokens ++ next :: others)
      (fun found => found.erase = tree) (next :: others) := by
  obtain ⟨less, rfl⟩ : ∃ less, frames = less + 1 :=
    ⟨frames - 1, by omega⟩
  exact hDerives.readAt.plain less next others
    (show 10 * (tokens.length + 1) ≤ less + 0 by omega)
    hFollows

section Example

attribute [local instance] asciiStr

theorem topExpression_reads_notFirst :
    Reads (topExpression (fun _ _ => Pure.pure ()) 71)
      (notFirst ++ [mark .rparen])
      (fun found => found.erase = notFirstTree)
      [mark .rparen] :=
  topExpression_reads (derives_notFirst _)
    (follows_of_mark ⟨rfl, rfl⟩ (.inr rfl)) (by decide)
    fun _ _ => Pure.pure ()

end Example

/- The grammar is not ambiguous: no tokens have two trees. -/
theorem derives_unique
    [PythonStr]
    {most others : ℕ}
    {level : Precedence}
    {left right : Expression φ}
    {tokens : List (Token φ)}
    (hLeft : Derives most level left tokens)
    (hRight : Derives others level right tokens) :
    left = right := by
  -- the rule of the level reads both trees, with an end after
  let last : Token φ :=
    { type := .comma, lexeme := [], span := nowhere.span,
      keyword := none, value := none }
  have hEnd : Follows level last [] :=
    follows_of_mark ⟨rfl, rfl⟩ (.inl rfl)
  let select (_ : Rule φ) (_ : ℕ) : Parsing φ Unit :=
    Pure.pure ()
  have hFirst : ReadAt select _ level left tokens :=
    (hLeft.mono others).readAt
  have hSecond : ReadAt select _ level right tokens :=
    (hRight.mono most).readAt
  rw [Nat.add_comm others] at hSecond
  let state : ParserState φ :=
    { tokens := tokens ++ [last], nextNodeId := 0 }
  have hRoom : Room level tokens (10 * (tokens.length + 1)) :=
    Nat.le_add_right _ _
  rcases hFirst.plain _ last [] hRoom hEnd state rfl with
    ⟨found, final, hRun, -, hFound⟩
  rcases hSecond.plain _ last [] hRoom hEnd state rfl with
    ⟨found', final', hRun', -, hFound'⟩
  rw [hRun] at hRun'
  cases hRun'
  exact hFound.symm.trans hFound'

section Example

attribute [local instance] asciiStr

theorem derives_unique_notFirst :
    ¬ Derives 2 .or notLastTree notFirst := by
  intro hLast
  cases derives_unique hLast (derives_notFirst 0)

end Example

end Grammar

end Parser

end ChenDB
