import Mathlib.Data.List.Chain
import ChenDB.Parser.Lexer

/-
  The tokens tile the text: every character is in a token, or
  in the whitespace and the comments between two of them, and
  every token says where it stands. What stands between
  quotes with every quote doubled is read back.
-/

--
-- Whitespace and Comments
--

namespace ChenDB

namespace Parser

open Library.Reading
open Library.StateExcept (ok_of_bind)
open PythonStr (isAlpha isDigit isNumeric isSpace)

section Lexing

variable [PythonStr]
variable {lexer : Lexer} {turns : Nat} {φ : Type}

/-
  Whitespace and complete comments, before `after`. A line
  comment goes on to a newline or to the end of the text, and
  a block comment to the first `*` with a slash.
-/
inductive Trivia (after : List Char) : List Char → Prop where
  | none : Trivia after []
  | space
      {char : Char}
      {gap : List Char}
      (hSpace : isSpace char = true)
      (hGap : Trivia after gap) :
      Trivia after (char :: gap)
  | line
      {comment gap : List Char}
      (hDashes : ['-', '-'] <+: comment)
      (hNoLine : '\n' ∉ comment)
      (hComplete : ∀ char,
        (gap ++ after).head? = some char → char = '\n')
      (hGap : Trivia after gap) :
      Trivia after (comment ++ gap)
  | block
      {body gap : List Char}
      (hFirst : ¬ ['*', '/'] <:+: body ++ ['*'])
      (hGap : Trivia after gap) :
      Trivia after
        ('/' :: '*' :: (body ++ '*' :: '/' :: gap))

section Gaps

variable {finish : Lexer}

omit [PythonStr] in
theorem rest_of_peeks
    {first second : Char}
    (hFirst : lexer.peek 0 = some first)
    (hSecond : lexer.peek 1 = some second) :
    ∃ rest, lexer.rest = first :: second :: rest := by
  unfold Cursor.peek at hFirst hSecond
  cases hRest : lexer.rest with
  | nil => simp [hRest] at hFirst
  | cons one more =>
    cases more with
    | nil => simp [hRest] at hSecond
    | cons two rest =>
      simp only [hRest, List.getElem?_cons_zero,
        List.getElem?_cons_succ, Option.some.injEq]
        at hFirst hSecond
      exact ⟨rest, by rw [hFirst, hSecond]⟩

variable {rest : List Char}

omit [PythonStr] in
/- A comment that begins takes its two dashes. -/
theorem dashes_prefix
    {text later : List Char}
    (hText : '-' :: '-' :: rest = text ++ later)
    (hLater : ∀ char, later.head? = some char → char = '\n') :
    ['-', '-'] <+: text := by
  cases text with
  | nil =>
    rw [List.nil_append] at hText
    have hNewline := hLater '-' (by rw [← hText]; rfl)
    exact absurd hNewline (by decide)
  | cons one more =>
    rw [List.cons_append] at hText
    rcases List.cons.inj hText with ⟨rfl, hMore⟩
    cases more with
    | nil =>
      rw [List.nil_append] at hMore
      have hNewline := hLater '-' (by rw [← hMore]; rfl)
      exact absurd hNewline (by decide)
    | cons two rest' =>
      rw [List.cons_append] at hMore
      rcases List.cons.inj hMore with ⟨rfl, _⟩
      exact ⟨rest', rfl⟩

omit [PythonStr] in
theorem skipLineComment_line
    (hRest : lexer.rest = '-' :: '-' :: rest) :
    ∃ comment,
      lexer.rest = comment ++ (skipLineComment lexer).rest ∧
        ['-', '-'] <+: comment ∧ '\n' ∉ comment ∧
        ∀ char,
          (skipLineComment lexer).rest.head? = some char →
            char = '\n' := by
  rcases stops_advanceWhile '\n'
    (fun char => char ≠ '\n') lexer with
    ⟨comment, hText, hAll, hStops⟩
  have hComplete : ∀ char,
      (skipLineComment lexer).rest.head? = some char →
        char = '\n' := by
    intro char hChar
    simpa using hStops char hChar
  refine ⟨comment, hText, ?_, ?_, hComplete⟩
  · exact dashes_prefix (hRest.symm.trans hText) hComplete
  · intro hMem
    simpa using hAll '\n' hMem

omit [PythonStr] in
/- The comment ends with the first end that comes. -/
theorem blockCommentTurns_block
    {origin : Origin}
    (hEnd : blockCommentTurns origin turns lexer = .ok finish) :
    ∃ body,
      lexer.rest = body ++ '*' :: '/' :: finish.rest ∧
        ¬ ['*', '/'] <:+: body ++ ['*'] := by
  induction turns generalizing lexer with
  | zero => cases hEnd
  | succ turns ih =>
    unfold blockCommentTurns at hEnd
    split at hEnd
    · cases hEnd
    · rename_i hMore
      split at hEnd
      · rename_i hPeeks
        rcases rest_of_peeks hPeeks.1 hPeeks.2 with
          ⟨rest, hRest⟩
        cases hEnd
        refine ⟨[], ?_, by decide⟩
        rw [rest_advance, rest_advance, hRest]
        rfl
      · rename_i hPeeks
        rcases ih hEnd with ⟨body, hBody, hFirst⟩
        rw [rest_advance] at hBody
        cases hRest : lexer.rest with
        | nil =>
          rw [hRest] at hBody
          simp at hBody
        | cons char rest =>
          rw [hRest, List.tail_cons] at hBody
          refine ⟨char :: body, ?_, ?_⟩
          · rw [hBody]
            rfl
          · intro hInfix
            rcases List.infix_cons_iff.mp hInfix with
              hPrefix | hLater
            · apply hPeeks
              rcases List.cons_prefix_cons.mp hPrefix with
                ⟨rfl, hNext⟩
              rcases hNext with ⟨tail, hTail⟩
              have hHead : rest.head? = some '/' := by
                rw [hBody]
                cases body with
                | nil => cases hTail
                | cons one more =>
                  rcases List.cons.inj hTail with ⟨rfl, _⟩
                  rfl
              unfold Cursor.peek
              rw [hRest]
              exact ⟨rfl, List.head?_eq_getElem? ▸ hHead⟩
            · exact hFirst hLater

/- What is skipped is whitespace and complete comments. -/
theorem triviaTurns_trivia
    (hEnd : triviaTurns turns lexer = .ok finish) :
    ∃ gap, lexer.rest = gap ++ finish.rest ∧
      Trivia finish.rest gap := by
  induction turns generalizing lexer with
  | zero =>
    cases hEnd
    exact ⟨[], rfl, .none⟩
  | succ turns ih =>
    unfold triviaTurns at hEnd
    split at hEnd
    · cases hEnd
      exact ⟨[], rfl, .none⟩
    rename_i char hChar
    split at hEnd
    · rename_i hSpace
      rcases ih hEnd with ⟨gap, hGap, hTrivia⟩
      refine ⟨char :: gap, ?_, .space hSpace hTrivia⟩
      rw [peek_zero] at hChar
      rw [rest_advance] at hGap
      rw [List.cons_append, ← hGap]
      exact List.eq_cons_of_mem_head? hChar
    split at hEnd
    · rename_i hDashes
      rw [hDashes.1] at hChar
      rcases rest_of_peeks hChar hDashes.2 with ⟨_, hRest⟩
      rcases skipLineComment_line hRest with
        ⟨comment, hText, hPrefix, hNoLine, hComplete⟩
      rcases ih hEnd with ⟨gap, hGap, hTrivia⟩
      rw [hGap] at hText hComplete
      refine ⟨comment ++ gap, ?_,
        .line hPrefix hNoLine hComplete hTrivia⟩
      rw [hText, List.append_assoc]
    split at hEnd
    · rename_i hSlash
      rw [hSlash.1] at hChar
      rcases rest_of_peeks hChar hSlash.2 with ⟨_, hRest⟩
      rcases ok_of_bind hEnd with ⟨after, hComment, hMore⟩
      rcases blockCommentTurns_block hComment with
        ⟨body, hBody, hFirst⟩
      rcases ih hMore with ⟨gap, hGap, hTrivia⟩
      rw [rest_advance, rest_advance, hRest] at hBody
      refine ⟨_, ?_, .block hFirst hTrivia⟩
      rw [hRest]
      simp only [List.tail_cons] at hBody
      simp [hBody, hGap]
    · cases hEnd
      exact ⟨[], rfl, .none⟩

end Gaps

--
-- Tiles
--

section Tiles

variable {source : List Char}
variable {tokens : List (Token φ)} {token : Token φ}

/- Nothing but trivia between two places of the text. -/
def Separated
    (source : List Char)
    (start stop : Nat) : Prop :=
  start ≤ stop ∧
    Trivia (source.drop stop) (source.extract start stop)

/- A token is the slice of its span, and its line and its
   column are those of its start: one more than the newlines
   before it, and one more than the characters since. -/
structure Placed
    (source : List Char)
    (token : Token φ) : Prop where
  ordered : token.span.start ≤ token.span.stop
  fits : token.span.stop ≤ source.length
  lexeme : token.lexeme =
    source.extract token.span.start token.span.stop
  line : token.span.line =
    1 + (source.take token.span.start).count '\n'
  column : token.span.column =
    1 + (lastLine '\n'
      (source.take token.span.start)).length

/- The tokens of the text from `start` on. -/
structure TiledFrom
    (source : List Char)
    (start : Nat)
    (tokens : List (Token φ)) : Prop where
  placed : ∀ token ∈ tokens, Placed source token
  later : ∀ token ∈ tokens, start ≤ token.span.start
  apart : tokens.Pairwise fun first second =>
    first.span.stop ≤ second.span.start
  leading : ∀ token ∈ tokens.head?,
    Separated source start token.span.start
  gaps : tokens.IsChain fun first second =>
    Separated source first.span.stop second.span.start
  ending : ∃ token, tokens.getLast? = some token ∧
    token.type = .eof ∧ token.lexeme = [] ∧
    token.span.start = source.length ∧
    token.span.stop = source.length

theorem TiledFrom.cons
    {start : Nat}
    (hPlaced : Placed source token)
    (hGap : Separated source start token.span.start)
    (hTiled : TiledFrom source token.span.stop tokens) :
    TiledFrom source start (token :: tokens) where
  placed := by
    intro other hMem
    rcases List.mem_cons.mp hMem with rfl | hMem
    · exact hPlaced
    · exact hTiled.placed other hMem
  later := by
    intro other hMem
    rcases List.mem_cons.mp hMem with rfl | hMem
    · exact hGap.1
    · exact (hGap.1.trans hPlaced.ordered).trans
        (hTiled.later other hMem)
  apart := List.pairwise_cons.mpr ⟨hTiled.later, hTiled.apart⟩
  leading := by
    intro other hHead
    cases hHead
    exact hGap
  gaps := List.isChain_cons.mpr ⟨hTiled.leading, hTiled.gaps⟩
  ending := by
    rcases hTiled.ending with ⟨last, hLast, hEof⟩
    exact ⟨last, by rw [List.getLast?_cons, hLast]; rfl, hEof⟩

omit [PythonStr] in
theorem placed_of_span
    {finish : Lexer}
    (hLexer : Stands '\n' source lexer)
    (hFinish : Stands '\n' source finish)
    (hOrdered : lexer.pos ≤ finish.pos)
    (hSpan : token.span = spanFrom (origin lexer) finish)
    (hLexeme : token.lexeme =
      source.extract lexer.pos finish.pos) :
    Placed source token where
  ordered := by
    rw [hSpan]
    exact hOrdered
  fits := by
    rw [hSpan]
    exact hFinish.fits
  lexeme := by
    rw [hSpan]
    exact hLexeme
  line := by
    rw [hSpan]
    exact hLexer.line
  column := by
    rw [hSpan]
    exact hLexer.column

/- The last token, after the last trivia. -/
theorem tiledFrom_endOfInput
    {start : Nat}
    (hLexer : Stands '\n' source lexer)
    (hGap : Separated source start lexer.pos)
    (hRest : lexer.rest = []) :
    TiledFrom source start
      [(endOfInput lexer : Token φ)] where
  placed := by
    intro token hMem
    rw [List.mem_singleton.mp hMem]
    exact placed_of_span hLexer hLexer (Nat.le_refl _) rfl
      (by simp [endOfInput])
  later := by
    intro token hMem
    rw [List.mem_singleton.mp hMem]
    exact hGap.1
  apart := List.pairwise_singleton _ _
  leading := by
    intro token hHead
    cases hHead
    exact hGap
  gaps := List.isChain_singleton _
  ending := by
    have hPos := hLexer.pos_of_rest_nil hRest
    exact ⟨endOfInput lexer, rfl, rfl, rfl, hPos, hPos⟩

/- The induction is over the tokens that are still to come,
   with the place where the scanner stands. -/
theorem tokenizeTurns_tiled
    [FloatLiteral φ]
    {turns : Nat}
    (hLexer : Stands '\n' source lexer)
    (hTurns : lexer.rest.length ≤ turns)
    (hTokens : tokenizeTurns source turns lexer = .ok tokens) :
    TiledFrom source lexer.pos tokens := by
  induction turns generalizing lexer tokens with
  | zero =>
    cases hTokens
    have hRest := List.eq_nil_of_length_eq_zero
      (Nat.le_zero.mp hTurns)
    refine tiledFrom_endOfInput hLexer ?_ hRest
    refine ⟨Nat.le_refl _, ?_⟩
    rw [List.extract_eq_take_drop, Nat.sub_self]
    exact .none
  | succ turns ih =>
    unfold tokenizeTurns at hTokens
    rcases ok_of_bind hTokens with ⟨next, hTrivia, hRest⟩
    rcases triviaTurns_trivia hTrivia with ⟨gap, hText, hGap⟩
    have hNext := (follows_triviaTurns hTrivia
      source hLexer).1
    rcases between_eq hLexer hNext hText with ⟨hLe, hBetween⟩
    have hSeparated :
        Separated source lexer.pos next.pos := by
      refine ⟨hLe, ?_⟩
      rw [← hBetween, ← hNext.rest]
      exact hGap
    rw [peek_zero] at hRest
    split at hRest
    · rename_i hNone
      cases hRest
      exact tiledFrom_endOfInput hNext hSeparated
        (List.head?_eq_none_iff.mp hNone)
    · rename_i char hChar
      rcases ok_of_bind hRest with
        ⟨⟨token, after⟩, hToken, hMore⟩
      rcases ok_of_bind hMore with ⟨others, hOthers, hEnd⟩
      cases hEnd
      have hScanned := scanToken_scanned hChar hToken
      have hNonempty : next.rest ≠ [] := by
        intro hNil
        rw [hNil] at hChar
        cases hChar
      have hPos : (advance next).pos = next.pos + 1 :=
        pos_advance hNonempty
      rcases hScanned.follows source hNext.advance with
        ⟨hAfter, hPast⟩
      have hFewer : after.rest.length ≤ turns := by
        rw [hAfter.length_rest]
        rw [hLexer.length_rest] at hTurns
        have hFits := hAfter.fits
        omega
      have hOrdered : next.pos ≤ after.pos := by omega
      have hStart : token.span.start = next.pos := by
        rw [hScanned.span]
        rfl
      have hStop : token.span.stop = after.pos := by
        rw [hScanned.span]
        rfl
      refine .cons (placed_of_span hNext hAfter hOrdered
        hScanned.span hScanned.lexeme) ?_ ?_
      · rw [hStart]
        exact hSeparated
      · rw [hStop]
        exact ih hAfter hFewer hOthers

end Tiles

--
-- Doubled Quotes
--

section Quotes

variable {quote : Char}

def doubled
    (quote : Char)
    (text : List Char) : List Char :=
  text.flatMap fun char =>
    if char = quote then [quote, quote] else [char]

/- A text between quotes, with its own quotes doubled. -/
def quoted
    (quote : Char)
    (text : List Char) : List Char :=
  quote :: (doubled quote text ++ [quote])

variable {text : List Char}

omit [PythonStr] in
/- The loop reads back what was doubled, whatever comes after
   the closing quote but another one. -/
theorem quotedTurns_doubled
    {unterminated : Lexer → ScanError}
    {refuses : Char → Bool}
    {after : List Char}
    (hQuote : refuses quote = false)
    (hText : ∀ char ∈ text, refuses char = false)
    (hAfter : after.head? ≠ some quote)
    (parts : List Char)
    (hTurns : text.length < turns)
    (hRest : lexer.rest = doubled quote text ++ quote :: after) :
    ∃ finish : Lexer,
      quotedTurns unterminated quote refuses turns parts
          lexer = .ok (parts ++ text, finish) ∧
        finish.rest = after := by
  induction text generalizing turns parts lexer with
  | nil =>
    cases turns with
    | zero => cases hTurns
    | succ turns =>
      have hHead : lexer.peek 0 = some quote := by
        rw [peek_zero, hRest]
        rfl
      have hTail : (advance lexer).rest = after := by
        rw [rest_advance, hRest]
        rfl
      have hNext : (advance lexer).peek 0 ≠ some quote := by
        rw [peek_zero, hTail]
        exact hAfter
      refine ⟨advance lexer, ?_, hTail⟩
      unfold quotedTurns
      simp only [hHead, hQuote, hNext, List.append_nil,
        Bool.false_eq_true, if_false, if_true]
  | cons char text ih =>
    cases turns with
    | zero => cases hTurns
    | succ turns =>
      have hFewer : text.length < turns :=
        Nat.lt_of_succ_lt_succ hTurns
      have hOthers : ∀ other ∈ text,
          refuses other = false := fun other hMem =>
        hText other (.tail char hMem)
      by_cases hSame : char = quote
      · subst hSame
        have hDoubled : lexer.rest = char :: char ::
            (doubled char text ++ char :: after) := by
          rw [hRest]
          simp [doubled]
        have hHead : lexer.peek 0 = some char := by
          rw [peek_zero, hDoubled]
          rfl
        have hNext : (advance lexer).peek 0 = some char := by
          rw [peek_zero, rest_advance, hDoubled]
          rfl
        have hTail : (advance (advance lexer)).rest =
            doubled char text ++ char :: after := by
          rw [rest_advance, rest_advance, hDoubled]
          rfl
        rcases ih hOthers (parts ++ [char]) hFewer
          hTail with ⟨finish, hLoop, hFinish⟩
        refine ⟨finish, ?_, hFinish⟩
        unfold quotedTurns
        simp only [hHead, hQuote, hNext,
          Bool.false_eq_true, if_false, if_true]
        rw [hLoop, List.append_assoc]
        rfl
      · have hSingle : lexer.rest = char ::
            (doubled quote text ++ quote :: after) := by
          rw [hRest]
          simp [doubled, hSame]
        have hHead : lexer.peek 0 = some char := by
          rw [peek_zero, hSingle]
          rfl
        have hTail : (advance lexer).rest =
            doubled quote text ++ quote :: after := by
          rw [rest_advance, hSingle]
          rfl
        rcases ih hOthers (parts ++ [char]) hFewer
          hTail with ⟨finish, hLoop, hFinish⟩
        refine ⟨finish, ?_, hFinish⟩
        unfold quotedTurns
        simp only [hHead, hSame, hText char (.head _),
          Bool.false_eq_true, if_false]
        rw [hLoop, List.append_assoc]
        rfl

variable [FloatLiteral φ]

/- No more than the end of the text is left. -/
theorem tokenizeTurns_atEnd
    {source : List Char}
    (hRest : lexer.rest = []) :
    tokenizeTurns (φ := φ) source turns lexer =
      .ok [endOfInput lexer] := by
  cases turns with
  | zero => rfl
  | succ turns =>
    have hTrivia : skipTrivia lexer = .ok lexer := by
      unfold skipTrivia
      rw [hRest]
      rfl
    have hNone : lexer.peek 0 = none := by
      rw [peek_zero, hRest]
      rfl
    unfold tokenizeTurns
    rw [hTrivia]
    simp only [bind, Except.bind, hNone]

/- A text that is one token. -/
theorem tokenize_one
    {char : Char}
    {token : Token φ}
    {finish : Lexer}
    (hSpace : isSpace char = false)
    (hDash : char ≠ '-')
    (hSlash : char ≠ '/')
    (hToken : scanToken (char :: text) char
      (origin (Cursor.ofText (char :: text)))
      (Cursor.ofText (char :: text)) = .ok (token, finish))
    (hRest : finish.rest = []) :
    tokenize (char :: text) =
      .ok [token, endOfInput finish] := by
  have hHead :
      (Cursor.ofText (char :: text)).peek 0 = some char := rfl
  have hTrivia : skipTrivia (Cursor.ofText (char :: text)) =
      .ok (Cursor.ofText (char :: text)) := by
    unfold skipTrivia
    change triviaTurns (text.length + 1) _ = _
    unfold triviaTurns
    simp only [hHead, hSpace, hDash, hSlash, false_and,
      Bool.false_eq_true, if_false]
  unfold tokenize
  rw [List.length_cons]
  unfold tokenizeTurns
  rw [hTrivia]
  simp only [bind, Except.bind, hHead, hToken,
    tokenizeTurns_atEnd hRest]

/- What the tokens of a quoted text are to say. -/
def ReadsBack
    (φ : Type)
    [FloatLiteral φ]
    (quote : Char)
    (type : TokenType)
    (text : List Char) : Prop :=
  ∃ token ending : Token φ,
    tokenize (quoted quote text) = .ok [token, ending] ∧
      token.type = type ∧
      token.value = some (.text (String.ofList text)) ∧
      ending.type = .eof

omit [PythonStr] in
theorem length_le_doubled (text : List Char) :
    text.length ≤ (doubled quote text).length := by
  induction text with
  | nil => exact Nat.le_refl _
  | cons char text ih =>
    unfold doubled at ih ⊢
    rw [List.flatMap_cons, List.length_append, List.length_cons]
    split <;> simp only [List.length_cons,
      List.length_nil] <;> omega

omit [PythonStr] in
/- The loop inside the quotes of a quoted text. -/
theorem quotedTurns_quoted
    (unterminated : Lexer → ScanError)
    (refuses : Char → Bool)
    (quote : Char)
    (text : List Char)
    (hQuote : refuses quote = false)
    (hText : ∀ char ∈ text, refuses char = false) :
    ∃ finish : Lexer,
      quotedTurns unterminated quote refuses
          (advance
            (Cursor.ofText (quoted quote text))).rest.length
          [] (advance (Cursor.ofText (quoted quote text))) =
            .ok (text, finish) ∧
        finish.rest = [] := by
  have hRest :
      (advance (Cursor.ofText (quoted quote text))).rest =
        doubled quote text ++ [quote] := by
    rw [rest_advance]
    rfl
  have hTurns : text.length <
      (advance
        (Cursor.ofText (quoted quote text))).rest.length := by
    rw [hRest, List.length_append]
    exact Nat.lt_succ_of_le (length_le_doubled text)
  exact quotedTurns_doubled hQuote hText (by simp) [] hTurns
    hRest

theorem string_readsBack (text : List Char) :
    ReadsBack φ '\'' .stringLiteral text := by
  have hAlpha : isAlpha '\'' = false :=
    (PythonStr.alpha_ascii _ (by decide)).trans (by decide)
  have hDigit : isDigit '\'' = false :=
    (PythonStr.digit_ascii _ (by decide)).trans (by decide)
  have hSpace : isSpace '\'' = false :=
    (PythonStr.space_ascii _ (by decide)).trans (by decide)
  let source := quoted '\'' text
  let start := origin (Cursor.ofText source)
  rcases quotedTurns_quoted
    (fail "unterminated string literal" start)
    (fun _ => false) '\'' text rfl (fun _ _ => rfl) with
    ⟨finish, hLoop, hRest⟩
  have hToken : scanToken (φ := φ) source '\'' start
      (Cursor.ofText source) =
        .ok
          ({ type := .stringLiteral
             lexeme := lexemeFrom source start finish
             span := spanFrom start finish
             keyword := none
             value := some (.text (String.ofList text)) },
            finish) := by
    unfold scanToken
    rw [hAlpha, hDigit]
    simp only [Bool.false_or, Bool.false_eq_true, if_false,
      if_true, decide_eq_true_eq]
    rw [if_neg (by decide)]
    unfold scanString
    simp only [bind, Except.bind, hLoop, source]
  exact ⟨_, endOfInput finish,
    tokenize_one hSpace (by decide) (by decide) hToken hRest,
    rfl, rfl, rfl⟩

theorem identifier_readsBack
    (hText : text ≠ [])
    (hNoLine : '\n' ∉ text) :
    ReadsBack φ '"' .identifier text := by
  have hAlpha : isAlpha '"' = false :=
    (PythonStr.alpha_ascii _ (by decide)).trans (by decide)
  have hDigit : isDigit '"' = false :=
    (PythonStr.digit_ascii _ (by decide)).trans (by decide)
  have hSpace : isSpace '"' = false :=
    (PythonStr.space_ascii _ (by decide)).trans (by decide)
  let source := quoted '"' text
  let start := origin (Cursor.ofText source)
  have hRefuses : ∀ char ∈ text,
      (fun char => decide (char = '\n')) char = false :=
    fun char hMem => decide_eq_false
      fun hSame => hNoLine (hSame ▸ hMem)
  rcases quotedTurns_quoted
    (fail "unterminated quoted identifier" start)
    (fun char => char = '\n') '"' text (by decide)
    hRefuses with
    ⟨finish, hLoop, hRest⟩
  have hToken : scanToken (φ := φ) source '"' start
      (Cursor.ofText source) =
        .ok
          ({ type := .identifier
             lexeme := lexemeFrom source start finish
             span := spanFrom start finish
             keyword := none
             value := some (.text (String.ofList text)) },
            finish) := by
    unfold scanToken
    rw [hAlpha, hDigit]
    simp only [Bool.false_or, Bool.false_eq_true, if_false,
      if_true, decide_eq_true_eq]
    rw [if_neg (by decide), if_neg (by decide)]
    unfold scanQuotedIdentifier
    simp only [bind, Except.bind, hLoop, source, hText,
      if_false]
  exact ⟨_, endOfInput finish,
    tokenize_one hSpace (by decide) (by decide) hToken hRest,
    rfl, rfl, rfl⟩

/-
  Whatever `tokenize` returns tiles the text, and a text with
  its quotes doubled is read back: any text as a string, and
  as a quoted identifier any text of one line but the empty
  one.
-/
theorem tokenize_tiles :
    (∀ (source : List Char) (tokens : List (Token φ)),
      tokenize source = .ok tokens →
        TiledFrom source 0 tokens) ∧
    (∀ text : List Char, ReadsBack φ '\'' .stringLiteral text) ∧
    (∀ text : List Char, text ≠ [] → '\n' ∉ text →
      ReadsBack φ '"' .identifier text) := by
  refine ⟨?_, string_readsBack,
    fun text => identifier_readsBack⟩
  intro source tokens hTokens
  exact tokenizeTurns_tiled (stands_ofText source)
    (Nat.le_refl _) hTokens

end Quotes

end Lexing

section EmptyName

/- Python's answers on ASCII, for texts of nothing else. -/
local instance asciiStr : PythonStr where
  isAlpha := Char.isAlpha
  isDigit := Char.isDigit
  isNumeric := Char.isDigit
  isSpace char :=
    decide (char.toNat ∈ [9, 10, 11, 12, 13, 28, 29, 30, 31,
      32])
  upper := List.map Char.toUpper
  int digits :=
    some (digits.foldl
      (fun number digit =>
        10 * number + (digit.toNat - 48 : Nat)) 0)
  repr text := "'" ++ String.ofList text ++ "'"
  alpha_ascii _ _ := rfl
  digit_ascii _ _ := rfl
  numeric_ascii _ _ := rfl
  space_ascii _ _ := rfl

/- No floating-point literal is met. -/
local instance noFloats : FloatLiteral Rat where
  float _ := none

/- Two quotes are no identifier. -/
theorem empty_identifier :
    '\n' ∉ ([] : List Char) ∧
      ¬ ReadsBack Rat '"' .identifier [] := by
  refine ⟨List.not_mem_nil, ?_⟩
  rintro ⟨token, ending, hTokens, _⟩
  have hRaised : tokenize (φ := Rat) (quoted '"' []) =
      .error (.lexError "empty quoted identifier" 0 2 1 1) := by
    rfl
  rw [hRaised] at hTokens
  cases hTokens

end EmptyName

end Parser

end ChenDB
