import Mathlib.Data.List.Induction
import Mathlib.Data.List.DropRight

/-
  Reading a text from left to right, one character after the
  other, with a count of lines: what a reader that stands
  somewhere in a text knows of the text.
-/

--
-- Cursors
--

namespace Library

namespace Reading

variable {κ : Type}

/- A place in a text: what is still to be read, and where the
   reader is, by the offset and by the line. -/
structure Cursor (κ : Type) where
  rest : List κ
  pos : Nat
  line : Nat
  lineStart : Nat
deriving DecidableEq, Repr

namespace Cursor

/- Before the first character of a text. -/
def ofText (source : List κ) : Cursor κ :=
  { rest := source, pos := 0, line := 1, lineStart := 0 }

def column (cursor : Cursor κ) : Nat :=
  cursor.pos - cursor.lineStart + 1

def atEnd (cursor : Cursor κ) : Bool :=
  cursor.rest.isEmpty

def peek
    (cursor : Cursor κ)
    (offset : Nat) : Option κ :=
  cursor.rest[offset]?

/- Past the next character, which may end a line. -/
def advance
    [DecidableEq κ]
    (newline : κ)
    (cursor : Cursor κ) : Cursor κ :=
  match cursor.rest with
  | [] => cursor
  | char :: rest =>
    if char = newline then
      { rest := rest
        pos := cursor.pos + 1
        line := cursor.line + 1
        lineStart := cursor.pos + 1 }
    else { cursor with rest := rest, pos := cursor.pos + 1 }

/- `while` the next character passes, at most that often. -/
def advanceTurns
    [DecidableEq κ]
    (newline : κ)
    (passes : κ → Bool) : Nat → Cursor κ → Cursor κ
  | 0, cursor => cursor
  | turns + 1, cursor =>
    match cursor.peek 0 with
    | none => cursor
    | some char =>
      if passes char then
        advanceTurns newline passes turns
          (cursor.advance newline)
      else cursor

/- No character is read twice: there are turns enough. -/
def advanceWhile
    [DecidableEq κ]
    (newline : κ)
    (passes : κ → Bool)
    (cursor : Cursor κ) : Cursor κ :=
  advanceTurns newline passes cursor.rest.length cursor

end Cursor

section Advancing

variable [DecidableEq κ] {newline : κ} {cursor : Cursor κ}

theorem rest_advance :
    (cursor.advance newline).rest = cursor.rest.tail := by
  unfold Cursor.advance
  split
  · rename_i hRest
    rw [hRest]
    rfl
  · rename_i char rest hRest
    rw [hRest]
    split <;> rfl

theorem pos_advance (hRest : cursor.rest ≠ []) :
    (cursor.advance newline).pos = cursor.pos + 1 := by
  unfold Cursor.advance
  split
  · contradiction
  · split <;> rfl

omit [DecidableEq κ] in
theorem peek_zero (cursor : Cursor κ) :
    cursor.peek 0 = cursor.rest.head? := by
  unfold Cursor.peek
  rw [List.head?_eq_getElem?]

end Advancing

--
-- Standing in a Text
--

section Standing

variable [DecidableEq κ] {newline : κ} {source : List κ}
variable {start middle finish cursor : Cursor κ}

/- The part of a text after its last newline. -/
def lastLine
    (newline : κ)
    (text : List κ) : List κ :=
  text.rtakeWhile (fun char => char ≠ newline)

/- The counts are those of what has been read. -/
structure Stands
    (newline : κ)
    (source : List κ)
    (cursor : Cursor κ) : Prop where
  rest : cursor.rest = source.drop cursor.pos
  fits : cursor.pos ≤ source.length
  line : cursor.line =
    1 + (source.take cursor.pos).count newline
  start : cursor.lineStart +
    (lastLine newline (source.take cursor.pos)).length =
      cursor.pos

theorem stands_ofText (source : List κ) :
    Stands newline source (Cursor.ofText source) where
  rest := rfl
  fits := Nat.zero_le _
  line := rfl
  start := by simp [Cursor.ofText, lastLine]

/- A column is a distance to the last newline. -/
theorem Stands.column
    (hStands : Stands newline source cursor) :
    cursor.column =
      1 + (lastLine newline
        (source.take cursor.pos)).length := by
  have hStart := hStands.start
  unfold Cursor.column
  omega

theorem Stands.length_rest
    (hStands : Stands newline source cursor) :
    cursor.rest.length = source.length - cursor.pos := by
  rw [hStands.rest, List.length_drop]

theorem Stands.pos_of_rest_nil
    (hStands : Stands newline source cursor)
    (hRest : cursor.rest = []) :
    cursor.pos = source.length := by
  have hLength := hStands.length_rest
  have hFits := hStands.fits
  rw [hRest, List.length_nil] at hLength
  omega

/- One more character is read. -/
theorem Stands.advance
    (hStands : Stands newline source cursor) :
    Stands newline source (cursor.advance newline) := by
  cases hRest : cursor.rest with
  | nil =>
    have hSame : cursor.advance newline = cursor := by
      unfold Cursor.advance
      rw [hRest]
    rw [hSame]
    exact hStands
  | cons char rest =>
    have hDrop : source.drop cursor.pos = char :: rest :=
      hStands.rest.symm.trans hRest
    have hLt : cursor.pos < source.length := by
      by_contra hPast
      rw [List.drop_eq_nil_of_le (Nat.le_of_not_lt hPast)]
        at hDrop
      cases hDrop
    have hGet : source[cursor.pos] = char := by
      have hHead := List.drop_eq_getElem_cons hLt
      rw [hDrop] at hHead
      exact (List.cons.inj hHead).1.symm
    have hTail : source.drop (cursor.pos + 1) = rest := by
      rw [← List.tail_drop, hDrop]
      rfl
    have hTake : source.take (cursor.pos + 1) =
        source.take cursor.pos ++ [char] := by
      rw [List.take_succ_eq_append_getElem hLt, hGet]
    unfold Cursor.advance
    simp only [hRest]
    by_cases hNewline : char = newline
    · rw [if_pos hNewline]
      exact
        { rest := hTail.symm
          fits := hLt
          line := by
            dsimp only
            rw [hTake, List.count_append, hStands.line,
              hNewline, List.count_singleton_self]
            omega
          start := by
            dsimp only
            rw [hTake, lastLine, List.rtakeWhile_concat_neg]
            · rfl
            · simpa using hNewline }
    · rw [if_neg hNewline]
      exact
        { rest := hTail.symm
          fits := hLt
          line := by
            dsimp only
            rw [hTake, List.count_append, hStands.line,
              List.count_singleton, if_neg]
            · rfl
            · simpa using hNewline
          start := by
            have hStart := hStands.start
            dsimp only
            rw [hTake, lastLine, List.rtakeWhile_concat_pos,
              List.length_append]
            · exact congrArg Nat.succ hStart
            · simpa using hNewline }

/- Between two places of a text is the text between them. -/
theorem between_eq
    {text : List κ}
    (hStart : Stands newline source start)
    (hFinish : Stands newline source finish)
    (hRest : start.rest = text ++ finish.rest) :
    start.pos ≤ finish.pos ∧
      text = source.extract start.pos finish.pos := by
  have hLength := congrArg List.length hRest
  rw [hStart.rest, hFinish.rest, List.length_append,
    List.length_drop, List.length_drop] at hLength
  have hFits := hStart.fits
  have hFits' := hFinish.fits
  have hPos : finish.pos - start.pos = text.length := by
    omega
  constructor
  · omega
  · rw [List.extract_eq_take_drop, hPos, ← hStart.rest, hRest,
      List.take_left]

/- A later place of whatever text the first place is in. -/
def Follows
    (newline : κ)
    (start finish : Cursor κ) : Prop :=
  ∀ source, Stands newline source start →
    Stands newline source finish ∧ start.pos ≤ finish.pos

theorem Follows.refl (cursor : Cursor κ) :
    Follows newline cursor cursor :=
  fun _ hStands => ⟨hStands, Nat.le_refl _⟩

theorem Follows.trans
    (hFirst : Follows newline start middle)
    (hSecond : Follows newline middle finish) :
    Follows newline start finish := by
  intro source hStands
  rcases hFirst source hStands with ⟨hMiddle, hLe⟩
  rcases hSecond source hMiddle with ⟨hFinish, hLater⟩
  exact ⟨hFinish, Nat.le_trans hLe hLater⟩

theorem follows_advance (cursor : Cursor κ) :
    Follows newline cursor (cursor.advance newline) := by
  intro source hStands
  refine ⟨hStands.advance, ?_⟩
  by_cases hRest : cursor.rest = []
  · unfold Cursor.advance
    rw [hRest]
  · rw [pos_advance hRest]
    exact Nat.le_succ _

theorem follows_advanceTurns
    (passes : κ → Bool)
    (turns : Nat)
    (cursor : Cursor κ) :
    Follows newline cursor
      (cursor.advanceTurns newline passes turns) := by
  induction turns generalizing cursor with
  | zero => exact Follows.refl cursor
  | succ turns ih =>
    unfold Cursor.advanceTurns
    split
    · exact Follows.refl cursor
    · split
      · exact (follows_advance cursor).trans (ih _)
      · exact Follows.refl cursor

theorem follows_advanceWhile
    (passes : κ → Bool)
    (cursor : Cursor κ) :
    Follows newline cursor
      (cursor.advanceWhile newline passes) :=
  follows_advanceTurns passes cursor.rest.length cursor

/- Once the first character passes, the loop reads it. -/
theorem follows_advanceWhile_of_passes
    {passes : κ → Bool}
    {char : κ}
    (hChar : cursor.rest.head? = some char)
    (hPasses : passes char = true) :
    Follows newline (cursor.advance newline)
      (cursor.advanceWhile newline passes) := by
  unfold Cursor.advanceWhile
  cases hRest : cursor.rest with
  | nil =>
    rw [hRest] at hChar
    cases hChar
  | cons first rest =>
    rw [List.length_cons]
    unfold Cursor.advanceTurns
    rw [peek_zero, hChar]
    dsimp only
    rw [if_pos hPasses]
    exact follows_advanceTurns passes _ _

end Standing

/- The loop ends where the next character does not pass. -/
theorem stops_advanceTurns
    [DecidableEq κ]
    {newline : κ}
    {passes : κ → Bool}
    {turns : Nat}
    {cursor : Cursor κ}
    (hTurns : cursor.rest.length ≤ turns) :
    ∃ text,
      cursor.rest = text ++
          (cursor.advanceTurns newline passes turns).rest ∧
        (∀ char ∈ text, passes char = true) ∧
        ∀ char,
          (cursor.advanceTurns newline passes
            turns).rest.head? = some char →
            passes char = false := by
  induction turns generalizing cursor with
  | zero =>
    have hRest := List.eq_nil_of_length_eq_zero
      (Nat.le_zero.mp hTurns)
    refine ⟨[], rfl, by simp, ?_⟩
    intro char hChar
    unfold Cursor.advanceTurns at hChar
    rw [hRest] at hChar
    cases hChar
  | succ turns ih =>
    unfold Cursor.advanceTurns
    rw [peek_zero]
    cases hRest : cursor.rest with
    | nil =>
      refine ⟨[], by simp [hRest], by simp, ?_⟩
      intro char hChar
      dsimp only [List.head?_nil] at hChar
      rw [hRest] at hChar
      cases hChar
    | cons first rest =>
      dsimp only [List.head?_cons]
      split
      · rename_i hPasses
        have hTail :
            (cursor.advance newline).rest = rest := by
          rw [rest_advance, hRest]
          rfl
        have hFewer :
            (cursor.advance newline).rest.length ≤
              turns := by
          rw [hTail]
          rw [hRest, List.length_cons] at hTurns
          omega
        rcases ih hFewer with ⟨text, hText, hAll, hStops⟩
        refine ⟨first :: text, ?_, ?_, hStops⟩
        · rw [List.cons_append, ← hText, hTail]
        · intro char hMem
          rcases List.mem_cons.mp hMem with rfl | hMem
          · exact hPasses
          · exact hAll char hMem
      · rename_i hPasses
        refine ⟨[], by simp [hRest], by simp, ?_⟩
        intro char hChar
        rw [hRest] at hChar
        cases hChar
        simpa using hPasses

theorem stops_advanceWhile
    [DecidableEq κ]
    (newline : κ)
    (passes : κ → Bool)
    (cursor : Cursor κ) :
    ∃ text,
      cursor.rest = text ++
          (cursor.advanceWhile newline passes).rest ∧
        (∀ char ∈ text, passes char = true) ∧
        ∀ char,
          (cursor.advanceWhile newline passes).rest.head? =
              some char →
            passes char = false :=
  stops_advanceTurns (Nat.le_refl _)

end Reading

end Library
