import ChenDB.Library.Cursor
import ChenDB.Parser.Tokens

/-
  The lexer: a hand-written scanner of one SQL text. What
  Python says of characters is a parameter that agrees with
  ASCII.
-/

--
-- Characters
--

namespace ChenDB

namespace Parser

open Library.Reading
open Library.StateExcept (ok_of_bind)

/-
  The methods of `str` and the functions that the scanner
  calls, over all of Unicode. `int` answers nothing where it
  raises a `ValueError`.
-/
class PythonStr where
  isAlpha : Char → Bool
  isDigit : Char → Bool
  isNumeric : Char → Bool
  isSpace : Char → Bool
  upper : List Char → List Char
  int : List Char → Option Int
  repr : List Char → String
  alpha_ascii : ∀ char : Char,
    char.toNat < 128 → isAlpha char = char.isAlpha
  digit_ascii : ∀ char : Char,
    char.toNat < 128 → isDigit char = char.isDigit
  numeric_ascii : ∀ char : Char,
    char.toNat < 128 → isNumeric char = char.isDigit
  space_ascii : ∀ char : Char,
    char.toNat < 128 → isSpace char =
      decide (char.toNat ∈ [9, 10, 11, 12, 13, 28, 29, 30, 31,
        32])

/- `float` of a lexeme, on the same terms. -/
class FloatLiteral (φ : Type) where
  float : List Char → Option φ

open PythonStr (isAlpha isDigit isNumeric isSpace)

variable [PythonStr]

/- `str.isalnum`; what is decimal is a digit. -/
def isAlnum (char : Char) : Bool :=
  isAlpha char || isDigit char || isNumeric char

/- What a word goes on with. -/
def inWord (char : Char) : Bool :=
  isAlnum char || char = '_'

--
-- Position Bookkeeping
--

abbrev Lexer := Cursor Char

abbrev advance (lexer : Lexer) : Lexer :=
  lexer.advance '\n'

abbrev advanceWhile
    (passes : Char → Bool)
    (lexer : Lexer) : Lexer :=
  lexer.advanceWhile '\n' passes

/- The arguments `start`, `line` and `column` of the methods
   that scan one token. -/
structure Origin where
  start : Nat
  line : Nat
  column : Nat
deriving DecidableEq, Repr

def origin (lexer : Lexer) : Origin :=
  { start := lexer.pos
    line := lexer.line
    column := lexer.column }

def spanFrom
    (origin : Origin)
    (lexer : Lexer) : SourceSpan :=
  { start := origin.start
    stop := lexer.pos
    line := origin.line
    column := origin.column }

/- A `LexError`, or the `ValueError` of a conversion. -/
inductive ScanError where
  | lexError (message : String) (start stop line column : Nat)
  | valueError
deriving DecidableEq, Repr

def fail
    (message : String)
    (origin : Origin)
    (lexer : Lexer) : ScanError :=
  .lexError message origin.start
    (max lexer.pos (origin.start + 1)) origin.line
    origin.column

/- `self._source[start : self._pos]`. -/
def lexemeFrom
    (source : List Char)
    (origin : Origin)
    (lexer : Lexer) : List Char :=
  source.extract origin.start lexer.pos

--
-- Trivia
--

def skipLineComment (lexer : Lexer) : Lexer :=
  advanceWhile (fun char => char ≠ '\n') lexer

/- The turns of a loop are at least the characters that are
   left, so none left is the end of the text. -/
def blockCommentTurns (origin : Origin) :
    Nat → Lexer → Except ScanError Lexer
  | 0, lexer =>
    .error (fail "unterminated block comment" origin lexer)
  | turns + 1, lexer =>
    if lexer.atEnd then
      .error (fail "unterminated block comment" origin lexer)
    else if lexer.peek 0 = some '*' ∧
        lexer.peek 1 = some '/' then
      .ok (advance (advance lexer))
    else blockCommentTurns origin turns (advance lexer)

def skipBlockComment
    (lexer : Lexer) : Except ScanError Lexer :=
  let inside := advance (advance lexer)
  blockCommentTurns (origin lexer) inside.rest.length inside

def triviaTurns : Nat → Lexer → Except ScanError Lexer
  | 0, lexer => .ok lexer
  | turns + 1, lexer =>
    match lexer.peek 0 with
    | none => .ok lexer
    | some char =>
      if isSpace char then triviaTurns turns (advance lexer)
      else if char = '-' ∧ lexer.peek 1 = some '-' then
        triviaTurns turns (skipLineComment lexer)
      else if char = '/' ∧ lexer.peek 1 = some '*' then do
        let after ← skipBlockComment lexer
        triviaTurns turns after
      else .ok lexer

def skipTrivia (lexer : Lexer) : Except ScanError Lexer :=
  triviaTurns lexer.rest.length lexer

--
-- Words
--

section Tokens

variable {φ : Type} (source : List Char)

def scanWord
    (origin : Origin)
    (lexer : Lexer) : Token φ × Lexer :=
  let after := advanceWhile inWord lexer
  let lexeme := lexemeFrom source origin after
  let span := spanFrom origin after
  match keywords (PythonStr.upper lexeme) with
  | some keyword =>
    ({ type := .keyword
       lexeme := lexeme
       span := span
       keyword := some keyword
       value := none }, after)
  | none =>
    ({ type := .identifier
       lexeme := lexeme
       span := span
       keyword := none
       value := none }, after)

/-
  Up to the closing quote, with a doubled quote for one quote:
  the loop of strings and of quoted identifiers, which differ
  in the character no part may be.
-/
def quotedTurns
    (unterminated : Lexer → ScanError)
    (quote : Char)
    (refuses : Char → Bool) :
    Nat → List Char → Lexer →
      Except ScanError (List Char × Lexer)
  | 0, _, lexer => .error (unterminated lexer)
  | turns + 1, parts, lexer =>
    match lexer.peek 0 with
    | none => .error (unterminated lexer)
    | some char =>
      if refuses char then .error (unterminated lexer)
      else
        let after := advance lexer
        if char = quote then
          if after.peek 0 = some quote then
            quotedTurns unterminated quote refuses turns
              (parts ++ [quote]) (advance after)
          else .ok (parts, after)
        else
          quotedTurns unterminated quote refuses turns
            (parts ++ [char]) after

def scanQuotedIdentifier
    (origin : Origin)
    (lexer : Lexer) : Except ScanError (Token φ × Lexer) := do
  let inside := advance lexer
  let (name, after) ← quotedTurns
    (fail "unterminated quoted identifier" origin) '"'
    (fun char => char = '\n') inside.rest.length [] inside
  if name = [] then
    .error (fail "empty quoted identifier" origin after)
  else
    .ok
      ({ type := .identifier
         lexeme := lexemeFrom source origin after
         span := spanFrom origin after
         keyword := none
         value := some (.text (String.ofList name)) }, after)

def scanString
    (origin : Origin)
    (lexer : Lexer) : Except ScanError (Token φ × Lexer) := do
  let inside := advance lexer
  let (parts, after) ← quotedTurns
    (fail "unterminated string literal" origin) '\''
    (fun _ => false) inside.rest.length [] inside
  .ok
    ({ type := .stringLiteral
       lexeme := lexemeFrom source origin after
       span := spanFrom origin after
       keyword := none
       value := some (.text (String.ofList parts)) }, after)

--
-- Numbers
--

/- Past the fraction, if there is one. -/
def scanFraction (lexer : Lexer) : Bool × Lexer :=
  if lexer.peek 0 = some '.' ∧ (lexer.peek 1).any isDigit then
    (true, advanceWhile isDigit (advance lexer))
  else (false, lexer)

/- Past the exponent, if there is one with a digit. -/
def scanExponent (lexer : Lexer) : Bool × Lexer :=
  let offset :=
    if lexer.peek 1 = some '+' ∨ lexer.peek 1 = some '-' then 2
    else 1
  if (lexer.peek 0 = some 'e' ∨ lexer.peek 0 = some 'E') ∧
      (lexer.peek offset).any isDigit then
    (true, advanceWhile isDigit (advance^[offset] lexer))
  else (false, lexer)

def scanNumber
    [FloatLiteral φ]
    (origin : Origin)
    (lexer : Lexer) : Except ScanError (Token φ × Lexer) :=
  let whole := advanceWhile isDigit lexer
  let fraction := scanFraction whole
  let exponent := scanExponent fraction.2
  let after := exponent.2
  let lexeme := lexemeFrom source origin after
  let span := spanFrom origin after
  if (after.peek 0).any fun char =>
      isAlpha char || char = '_' then
    let past := advanceWhile inWord after
    let typo := PythonStr.repr (lexemeFrom source origin past)
    .error (fail s!"invalid number {typo}" origin past)
  else if fraction.1 || exponent.1 then
    match FloatLiteral.float (φ := φ) lexeme with
    | some value =>
      .ok
        ({ type := .floatLiteral
           lexeme := lexeme
           span := span
           keyword := none
           value := some (.float value) }, after)
    | none => .error .valueError
  else
    match PythonStr.int lexeme with
    | some value =>
      .ok
        ({ type := .intLiteral
           lexeme := lexeme
           span := span
           keyword := none
           value := some (.int value) }, after)
    | none => .error .valueError

--
-- Operators
--

/- `_SIMPLE`. -/
def simple : Char → Option TokenType
  | '*' => some .star
  | ',' => some .comma
  | ';' => some .semicolon
  | '(' => some .lparen
  | ')' => some .rparen
  | '.' => some .dot
  | '+' => some .plus
  | '%' => some .percent
  | '=' => some .eq
  | _ => none

def operator
    (type : TokenType)
    (origin : Origin)
    (lexer : Lexer) : Token φ × Lexer :=
  ({ type := type
     lexeme := lexemeFrom source origin lexer
     span := spanFrom origin lexer
     keyword := none
     value := none }, lexer)

/- `char` is what the first `_advance` answers. -/
def scanOperator
    (char : Char)
    (origin : Origin)
    (lexer : Lexer) : Except ScanError (Token φ × Lexer) :=
  let after := advance lexer
  if char = '<' then
    if after.peek 0 = some '=' then
      .ok (operator source .lte origin (advance after))
    else if after.peek 0 = some '>' then
      .ok (operator source .neq origin (advance after))
    else .ok (operator source .lt origin after)
  else if char = '>' then
    if after.peek 0 = some '=' then
      .ok (operator source .gte origin (advance after))
    else .ok (operator source .gt origin after)
  else if char = '!' then
    if after.peek 0 = some '=' then
      .ok (operator source .neq origin (advance after))
    else .error (fail "expected '=' after '!'" origin after)
  else if char = '-' then
    .ok (operator source .minus origin after)
  else if char = '/' then
    .ok (operator source .slash origin after)
  else
    match simple char with
    | some type => .ok (operator source type origin after)
    | none =>
      .error (fail
        s!"unexpected character {PythonStr.repr [char]}"
        origin after)

--
-- The Main Loop
--

variable [FloatLiteral φ]

def scanToken
    (char : Char)
    (origin : Origin)
    (lexer : Lexer) : Except ScanError (Token φ × Lexer) :=
  if isAlpha char || char = '_' then
    .ok (scanWord source origin lexer)
  else if isDigit char then scanNumber source origin lexer
  else if char = '\'' then scanString source origin lexer
  else if char = '"' then
    scanQuotedIdentifier source origin lexer
  else scanOperator source char origin lexer

def endOfInput (lexer : Lexer) : Token φ :=
  { type := .eof
    lexeme := []
    span := spanFrom (origin lexer) lexer
    keyword := none
    value := none }

def tokenizeTurns :
    Nat → Lexer → Except ScanError (List (Token φ))
  | 0, lexer => .ok [endOfInput lexer]
  | turns + 1, lexer => do
      let lexer ← skipTrivia lexer
      match lexer.peek 0 with
      | none => .ok [endOfInput lexer]
      | some char =>
        let (token, after) ←
          scanToken source char (origin lexer) lexer
        let tokens ← tokenizeTurns turns after
        .ok (token :: tokens)

/- Every token takes a character: there are turns enough. -/
def tokenize : Except ScanError (List (Token φ)) :=
  tokenizeTurns source source.length (Cursor.ofText source)

end Tokens

--
-- Moving On
--

section Moving

variable {lexer finish : Lexer}

variable {turns : Nat}

omit [PythonStr] in
theorem follows_blockCommentTurns
    {origin : Origin}
    (hEnd : blockCommentTurns origin turns lexer = .ok finish) :
    Follows '\n' lexer finish := by
  induction turns generalizing lexer with
  | zero => cases hEnd
  | succ turns ih =>
    unfold blockCommentTurns at hEnd
    split at hEnd
    · cases hEnd
    · split at hEnd
      · cases hEnd
        exact (follows_advance _).trans (follows_advance _)
      · exact (follows_advance _).trans (ih hEnd)

omit [PythonStr] in
theorem follows_skipBlockComment
    (hEnd : skipBlockComment lexer = .ok finish) :
    Follows '\n' lexer finish :=
  ((follows_advance _).trans (follows_advance _)).trans
    (follows_blockCommentTurns hEnd)

theorem follows_triviaTurns
    (hEnd : triviaTurns turns lexer = .ok finish) :
    Follows '\n' lexer finish := by
  induction turns generalizing lexer with
  | zero =>
    cases hEnd
    exact Follows.refl _
  | succ turns ih =>
    unfold triviaTurns at hEnd
    split at hEnd
    · cases hEnd
      exact Follows.refl _
    · split at hEnd
      · exact (follows_advance _).trans (ih hEnd)
      · split at hEnd
        · exact (follows_advanceWhile _ _).trans (ih hEnd)
        · split at hEnd
          · rcases ok_of_bind hEnd with
              ⟨after, hComment, hRest⟩
            exact (follows_skipBlockComment hComment).trans
              (ih hRest)
          · cases hEnd
            exact Follows.refl _

omit [PythonStr] in
theorem follows_quotedTurns
    {unterminated : Lexer → ScanError}
    {quote : Char}
    {refuses : Char → Bool}
    {parts text : List Char}
    (hEnd : quotedTurns unterminated quote refuses turns parts
      lexer = .ok (text, finish)) :
    Follows '\n' lexer finish := by
  induction turns generalizing lexer parts with
  | zero => cases hEnd
  | succ turns ih =>
    unfold quotedTurns at hEnd
    split at hEnd
    · cases hEnd
    · split at hEnd
      · cases hEnd
      · dsimp only at hEnd
        split at hEnd
        · split at hEnd
          · exact ((follows_advance _).trans
              (follows_advance _)).trans (ih hEnd)
          · cases hEnd
            exact follows_advance _
        · exact (follows_advance _).trans (ih hEnd)

theorem follows_scanFraction (lexer : Lexer) :
    Follows '\n' lexer (scanFraction lexer).2 := by
  unfold scanFraction
  split
  · exact (follows_advance _).trans (follows_advanceWhile _ _)
  · exact Follows.refl lexer

omit [PythonStr] in
theorem follows_iterate
    (count : Nat)
    (lexer : Lexer) :
    Follows '\n' lexer (advance^[count] lexer) := by
  induction count generalizing lexer with
  | zero => exact Follows.refl lexer
  | succ count ih =>
    exact (follows_advance lexer).trans (ih (advance lexer))

theorem follows_scanExponent (lexer : Lexer) :
    Follows '\n' lexer (scanExponent lexer).2 := by
  unfold scanExponent
  generalize (if lexer.peek 1 = some '+' ∨
    lexer.peek 1 = some '-' then 2 else 1) = offset
  dsimp only
  split
  · exact (follows_iterate _ _).trans
      (follows_advanceWhile _ _)
  · exact Follows.refl lexer

end Moving

--
-- Scanned Tokens
--

section Scanning

variable {φ : Type} {source : List Char}
variable {lexer after finish : Lexer} {token : Token φ}
variable {char : Char}

/- A token takes at least the next character, and its lexeme
   and its span are those of what it takes. -/
structure Scanned
    (source : List Char)
    (lexer finish : Lexer)
    (token : Token φ) : Prop where
  follows : Follows '\n' (advance lexer) finish
  lexeme :
    token.lexeme = source.extract lexer.pos finish.pos
  span : token.span = spanFrom (origin lexer) finish

theorem scanWord_scanned
    (hChar : lexer.rest.head? = some char)
    (hWord : (isAlpha char || char = '_') = true) :
    Scanned source lexer
      (scanWord (φ := φ) source (origin lexer) lexer).2
      (scanWord (φ := φ) source (origin lexer) lexer).1 := by
  have hPasses : inWord char = true := by
    unfold inWord isAlnum
    rcases (Bool.or_eq_true _ _).mp hWord with
      hAlpha | hUnderscore
    · rw [hAlpha]
      rfl
    · rw [hUnderscore, Bool.or_true]
  have hFollows : Follows '\n' (advance lexer)
      (advanceWhile inWord lexer) :=
    follows_advanceWhile_of_passes hChar hPasses
  unfold scanWord
  dsimp only
  split
  · exact ⟨hFollows, rfl, rfl⟩
  · exact ⟨hFollows, rfl, rfl⟩

omit [PythonStr] in
theorem scanQuotedIdentifier_scanned
    (hEnd : scanQuotedIdentifier source (origin lexer) lexer =
      .ok (token, finish)) :
    Scanned source lexer finish token := by
  unfold scanQuotedIdentifier at hEnd
  rcases ok_of_bind hEnd with ⟨⟨name, after⟩, hName, hRest⟩
  dsimp only at hRest
  split at hRest
  · cases hRest
  · cases hRest
    exact ⟨follows_quotedTurns hName, rfl, rfl⟩

omit [PythonStr] in
theorem scanString_scanned
    (hEnd : scanString source (origin lexer) lexer =
      .ok (token, finish)) :
    Scanned source lexer finish token := by
  unfold scanString at hEnd
  rcases ok_of_bind hEnd with ⟨⟨parts, after⟩, hParts, hRest⟩
  cases hRest
  exact ⟨follows_quotedTurns hParts, rfl, rfl⟩

theorem scanNumber_scanned
    [FloatLiteral φ]
    (hChar : lexer.rest.head? = some char)
    (hDigit : isDigit char = true)
    (hEnd : scanNumber source (origin lexer) lexer =
      .ok (token, finish)) :
    Scanned source lexer finish token := by
  have hWhole : Follows '\n' (advance lexer)
      (advanceWhile isDigit lexer) :=
    follows_advanceWhile_of_passes hChar hDigit
  have hFraction :=
    follows_scanFraction (advanceWhile isDigit lexer)
  have hExponent := follows_scanExponent
    (scanFraction (advanceWhile isDigit lexer)).2
  have hFollows := (hWhole.trans hFraction).trans hExponent
  unfold scanNumber at hEnd
  dsimp only at hEnd
  split at hEnd
  · cases hEnd
  · split at hEnd
    · split at hEnd
      · cases hEnd
        exact ⟨hFollows, rfl, rfl⟩
      · cases hEnd
    · split at hEnd
      · cases hEnd
        exact ⟨hFollows, rfl, rfl⟩
      · cases hEnd

omit [PythonStr] in
theorem operator_scanned
    {type : TokenType}
    (hFollows : Follows '\n' (advance lexer) after)
    (hEnd : (Except.ok
      (operator source type (origin lexer) after) :
        Except ScanError (Token φ × Lexer)) =
          .ok (token, finish)) :
    Scanned source lexer finish token := by
  cases hEnd
  exact ⟨hFollows, rfl, rfl⟩

theorem scanOperator_scanned
    (hEnd : scanOperator source char (origin lexer) lexer =
      .ok (token, finish)) :
    Scanned source lexer finish token := by
  have hOne : Follows '\n' (advance lexer) (advance lexer) :=
    Follows.refl _
  have hTwo : Follows '\n' (advance lexer)
      (advance (advance lexer)) := follows_advance _
  unfold scanOperator at hEnd
  dsimp only at hEnd
  split at hEnd
  · split at hEnd
    · exact operator_scanned hTwo hEnd
    · split at hEnd
      · exact operator_scanned hTwo hEnd
      · exact operator_scanned hOne hEnd
  split at hEnd
  · split at hEnd
    · exact operator_scanned hTwo hEnd
    · exact operator_scanned hOne hEnd
  split at hEnd
  · split at hEnd
    · exact operator_scanned hTwo hEnd
    · cases hEnd
  split at hEnd
  · exact operator_scanned hOne hEnd
  split at hEnd
  · exact operator_scanned hOne hEnd
  split at hEnd
  · exact operator_scanned hOne hEnd
  · cases hEnd

theorem scanToken_scanned
    [FloatLiteral φ]
    (hChar : lexer.rest.head? = some char)
    (hEnd : scanToken source char (origin lexer) lexer =
      .ok (token, finish)) :
    Scanned source lexer finish token := by
  unfold scanToken at hEnd
  split at hEnd
  · rename_i hWord
    have hScanned : Scanned source lexer
        (scanWord (φ := φ) source (origin lexer) lexer).2
        (scanWord (φ := φ) source (origin lexer) lexer).1 :=
      scanWord_scanned hChar hWord
    rw [Except.ok.inj hEnd] at hScanned
    exact hScanned
  split at hEnd
  · rename_i hDigit
    exact scanNumber_scanned hChar hDigit hEnd
  split at hEnd
  · exact scanString_scanned hEnd
  split at hEnd
  · exact scanQuotedIdentifier_scanned hEnd
  · exact scanOperator_scanned hEnd

end Scanning

end Parser

end ChenDB
