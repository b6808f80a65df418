import ChenDB.Executor.Evaluation
import ChenDB.Executor.Rational

/-
  `x IN (a, b, c)` beside `x = a OR x = b OR x = c`.
-/

--
-- Equalities
--

namespace ChenDB

namespace Executor

open Library.StateExcept (ok_of_bind)

variable {φ : Type} [Double φ]

omit [Double φ] in
def Items.toList : Items φ → List (Expression φ)
  | .one item => [item]
  | .more item rest => item :: rest.toList

omit [Double φ] in
/- What is left of the list, joined to what came before. -/
def orItems
    (operand : Expression φ) :
    Expression φ → Items φ → Expression φ
  | before, .one item =>
    .binaryOp .or before (.binaryOp .eq operand item)
  | before, .more item rest =>
    orItems operand
      (.binaryOp .or before (.binaryOp .eq operand item))
      rest

omit [Double φ] in
/- `x = a OR x = b OR x = c`. -/
def disjunction
    (operand : Expression φ) : Items φ → Expression φ
  | .one item => .binaryOp .eq operand item
  | .more item rest =>
    orItems operand (.binaryOp .eq operand item) rest

omit [Double φ] in
/- What the list is said to mean. -/
def asEqualities
    (operand : Expression φ)
    (items : Items φ)
    (negated : Bool) : Expression φ :=
  if negated then .unaryOp .not (disjunction operand items)
  else disjunction operand items

section Rows

variable {width : Nat}
variable {row : Row φ width}
variable {operand : Expression φ}
variable {value : Value φ}

/- An equality, of a value that is known to the caller. -/
def equality
    (value candidate : Value φ) :
    Except EngineError (Option Bool) :=
  if value.isNull ∨ candidate.isNull then .ok none
  else do
    let order ← compareValues value candidate .eq
    pure (some (decide (order = .eq)))

theorem evaluate_equality
    (hOperand : evaluate row operand = .ok value)
    (item : Expression φ) :
    evaluate row (.binaryOp .eq operand item) = (do
      let candidate ← evaluate row item
      let known ← equality value candidate
      pure (ofOption known)) := by
  rw [evaluate_strict rfl, hOperand]
  simp only [bind, Except.bind]
  cases evaluate row item with
  | error raised => rfl
  | ok candidate =>
    simp only
    unfold equality
    by_cases hNull : value.isNull = true ∨
        candidate.isNull = true
    · rw [if_pos hNull, if_pos hNull]
      rfl
    · have hBinary : binaryValue .eq value candidate = (do
          let order ← compareValues value candidate .eq
          pure (.bool (comparison .eq order))) := rfl
      rw [if_neg hNull, if_neg hNull, hBinary]
      cases compareValues value candidate .eq with
      | error raised => rfl
      | ok order => rfl

/- What `OR` makes of two conditions. -/
def either : Option Bool → Option Bool → Option Bool
  | some true, _ => some true
  | _, some true => some true
  | some false, some false => some false
  | _, _ => none

/- The rest of the disjunction, after what came before. -/
def orValues {width : Nat}
    (row : Row φ width)
    (value : Value φ) :
    Option Bool → Items φ → Except EngineError (Option Bool)
  | some true, _ => .ok (some true)
  | known, .one item => do
      let candidate ← evaluate row item
      let next ← equality value candidate
      pure (either known next)
  | known, .more item rest => do
      let candidate ← evaluate row item
      let next ← equality value candidate
      orValues row value (either known next) rest

omit [Double φ] in
theorem condition_ofOption
    (known : Option Bool)
    (what : String) :
    condition (ofOption known : Value φ) what = .ok known := by
  rcases known with _ | _ | _ <;> rfl

/- One more equality, and what the whole comes to then. -/
theorem evaluate_orEquality
    {before : Expression φ}
    {known : Option Bool}
    (hOperand : evaluate row operand = .ok value)
    (hBefore : evaluate row before = .ok (ofOption known))
    (item : Expression φ) :
    evaluate row (.binaryOp .or before
        (.binaryOp .eq operand item)) =
      if known = some true then .ok (.bool true)
      else (do
        let candidate ← evaluate row item
        let next ← equality value candidate
        pure (ofOption (either known next))) := by
  have hEquality := evaluate_equality hOperand item
  rw [evaluate.eq_def]
  simp only [hBefore, hEquality, bind, Except.bind,
    condition_ofOption]
  cases hCandidate : evaluate row item with
  | error raised => rcases known with _ | _ | _ <;> rfl
  | ok candidate =>
    simp only
    cases equality value candidate with
    | error raised => rcases known with _ | _ | _ <;> rfl
    | ok next =>
      rcases known with _ | _ | _ <;>
        rcases next with _ | _ | _ <;> rfl

theorem evaluate_or_error
    {before : Expression φ}
    {raised : EngineError}
    (hBefore : evaluate row before = .error raised)
    (right : Expression φ) :
    evaluate row (.binaryOp .or before right) =
      .error raised := by
  unfold evaluate
  rw [hBefore]
  rfl

theorem orItems_error
    {items : Items φ}
    {before : Expression φ}
    {raised : EngineError}
    (hBefore : evaluate row before = .error raised) :
    evaluate row (orItems operand before items) =
      .error raised := by
  induction before, items using orItems.induct operand with
  | case1 before item =>
    unfold orItems
    exact evaluate_or_error hBefore _
  | case2 before item rest ih =>
    unfold orItems
    exact ih (evaluate_or_error hBefore _)

theorem orValues_true
    (items : Items φ) :
    orValues row value (some true) items =
      .ok (some true) := by
  unfold orValues
  rfl

theorem orValues_one
    {known : Option Bool}
    (hKnown : known ≠ some true)
    (item : Expression φ) :
    orValues row value known (.one item) = (do
      let candidate ← evaluate row item
      let next ← equality value candidate
      pure (either known next)) := by
  rcases known with _ | _ | _
  · rfl
  · rfl
  · exact absurd rfl hKnown

theorem orValues_more
    {known : Option Bool}
    (hKnown : known ≠ some true)
    (item : Expression φ)
    (rest : Items φ) :
    orValues row value known (.more item rest) = (do
      let candidate ← evaluate row item
      let next ← equality value candidate
      orValues row value (either known next) rest) := by
  rcases known with _ | _ | _
  · rfl
  · rfl
  · exact absurd rfl hKnown

/- The disjunction, of an operand that evaluates. -/
theorem evaluate_orItems
    (hOperand : evaluate row operand = .ok value)
    {items : Items φ}
    {before : Expression φ}
    {known : Option Bool}
    (hBefore : evaluate row before = .ok (ofOption known)) :
    evaluate row (orItems operand before items) =
      (orValues row value known items).map ofOption := by
  induction before, items using orItems.induct operand
    generalizing known with
  | case1 before item =>
    unfold orItems
    rw [evaluate_orEquality hOperand hBefore]
    by_cases hKnown : known = some true
    · rw [if_pos hKnown, hKnown, orValues_true]
      rfl
    · rw [if_neg hKnown, orValues_one hKnown]
      simp only [bind, Except.bind]
      cases evaluate row item with
      | error raised => rfl
      | ok candidate =>
        simp only
        cases equality value candidate <;> rfl
  | case2 before item rest ih =>
    unfold orItems
    have hItem := evaluate_orEquality hOperand hBefore item
    by_cases hKnown : known = some true
    · rw [if_pos hKnown] at hItem
      have hTrue : evaluate row (.binaryOp .or before
          (.binaryOp .eq operand item)) =
          .ok (ofOption (some true)) := hItem
      rw [ih hTrue, hKnown, orValues_true, orValues_true]
    · rw [if_neg hKnown] at hItem
      rw [orValues_more hKnown]
      simp only [bind, Except.bind] at hItem ⊢
      cases hCandidate : evaluate row item with
      | error raised =>
        rw [hCandidate] at hItem
        exact orItems_error hItem
      | ok candidate =>
        rw [hCandidate] at hItem
        simp only at hItem ⊢
        cases hNext : equality value candidate with
        | error raised =>
          rw [hNext] at hItem
          exact orItems_error hItem
        | ok next =>
          rw [hNext] at hItem
          exact ih hItem

theorem either_false (known : Option Bool) :
    either (some false) known = known := by
  rcases known with _ | _ | _ <;> rfl

theorem evaluate_disjunction
    (hOperand : evaluate row operand = .ok value)
    (items : Items φ) :
    evaluate row (disjunction operand items) =
      (orValues row value (some false) items).map
        ofOption := by
  have hFirst := evaluate_equality hOperand
  cases items with
  | one item =>
    unfold disjunction
    rw [hFirst, orValues_one (by decide)]
    simp only [bind, Except.bind]
    cases evaluate row item with
    | error raised => rfl
    | ok candidate =>
      simp only
      cases equality value candidate with
      | error raised => rfl
      | ok next =>
        simp only [either_false]
        rfl
  | more item rest =>
    unfold disjunction
    have hItem := hFirst item
    rw [orValues_more (by decide)]
    simp only [bind, Except.bind] at hItem ⊢
    cases hCandidate : evaluate row item with
    | error raised =>
      rw [hCandidate] at hItem
      exact orItems_error hItem
    | ok candidate =>
      rw [hCandidate] at hItem
      simp only at hItem ⊢
      cases hNext : equality value candidate with
      | error raised =>
        rw [hNext] at hItem
        exact orItems_error hItem
      | ok next =>
        rw [hNext] at hItem
        simp only [either_false]
        exact evaluate_orItems hOperand hItem

--
-- Masked Matches
--

/- The item is the value. -/
def Matches {width : Nat}
    (row : Row φ width)
    (value : Value φ)
    (item : Expression φ) : Prop :=
  ∃ candidate, evaluate row item = .ok candidate ∧
    equality value candidate = .ok (some true)

/- The item is another value, or NULL. -/
def Passes {width : Nat}
    (row : Row φ width)
    (value : Value φ)
    (item : Expression φ) : Prop :=
  ∃ candidate known, evaluate row item = .ok candidate ∧
    equality value candidate = .ok known ∧ known ≠ some true

/- The first match comes after a NULL, and the items after it
   evaluate. -/
def MaskedFrom {width : Nat}
    (row : Row φ width)
    (value : Value φ)
    (seen : Bool)
    (items : List (Expression φ)) : Prop :=
  ∃ before item after, items = before ++ item :: after ∧
    (seen = true ∨
      ∃ other ∈ before, evaluate row other = .ok .null) ∧
    (∀ other ∈ before, Passes row value other) ∧
    Matches row value item ∧
    ∀ other ∈ after, ∃ candidate,
      evaluate row other = .ok candidate

/- The operand is not NULL, and a NULL hides its match. -/
def Masked {width : Nat}
    (row : Row φ width)
    (operand : Expression φ)
    (items : Items φ) : Prop :=
  ∃ value, evaluate row operand = .ok value ∧
    value.isNull = false ∧
    MaskedFrom row value false items.toList

theorem maskedFrom_nil (seen : Bool) :
    ¬ MaskedFrom row value seen [] := by
  rintro ⟨before, item, after, hSame, _⟩
  cases before <;> cases hSame

theorem maskedFrom_cons
    {seen : Bool}
    {item : Expression φ}
    {candidate : Value φ}
    {rest : List (Expression φ)}
    (hItem : evaluate row item = .ok candidate) :
    MaskedFrom row value seen (item :: rest) ↔
      (seen = true ∧ Matches row value item ∧
        ∀ other ∈ rest, ∃ candidate,
          evaluate row other = .ok candidate) ∨
      (Passes row value item ∧
        MaskedFrom row value (seen || candidate.isNull)
          rest) := by
  have hNull : evaluate row item = .ok .null ↔
      candidate.isNull = true := by
    rw [hItem, Except.ok.injEq]
    cases candidate <;> simp [Value.isNull]
  constructor
  · rintro ⟨before, found, after, hSame, hSeen, hPasses,
      hMatches, hAfter⟩
    cases before with
    | nil =>
      cases hSame
      refine .inl ⟨?_, hMatches, hAfter⟩
      simpa using hSeen
    | cons first before =>
      rw [List.cons_append, List.cons.injEq] at hSame
      rcases hSame with ⟨rfl, rfl⟩
      refine .inr ⟨hPasses item (.head _),
        before, found, after, rfl, ?_,
        fun other hMem =>
          hPasses other (.tail _ hMem),
        hMatches, hAfter⟩
      rcases hSeen with hSeen | ⟨other, hMem, hOther⟩
      · exact .inl (by rw [hSeen, Bool.true_or])
      · rcases List.mem_cons.mp hMem with rfl | hIn
        · exact .inl (by
            rw [hNull.mp hOther, Bool.or_true])
        · exact .inr ⟨other, hIn, hOther⟩
  · rintro (⟨hSeen, hMatches, hRest⟩ | ⟨hPasses, before,
      found, after, rfl, hSeen, hAll, hMatches, hAfter⟩)
    · exact ⟨[], item, rest, rfl, .inl hSeen, by simp,
        hMatches, hRest⟩
    · refine ⟨item :: before, found, after, rfl, ?_, ?_,
        hMatches, hAfter⟩
      · rcases hSeen with hSeen | ⟨other, hMem, hOther⟩
        · rcases Bool.or_eq_true_iff.mp hSeen with hOld | hNew
          · exact .inl hOld
          · exact .inr ⟨item, .head _,
              hNull.mpr hNew⟩
        · exact .inr ⟨other, .tail _ hMem,
            hOther⟩
      · intro other hMem
        rcases List.mem_cons.mp hMem with rfl | hIn
        · exact hPasses
        · exact hAll other hIn

/- What a disjunction without a match has come to. -/
def passed (seen : Bool) : Option Bool :=
  if seen then none else some false

theorem passed_ne_true (seen : Bool) :
    passed seen ≠ some true := by
  cases seen <;> decide

/- An equality that was evaluated, beside the loop's own look
   at the item. -/
theorem equality_ok
    (hValue : value.isNull = false)
    {candidate : Value φ}
    {known : Option Bool}
    (hEquality : equality value candidate = .ok known)
    (seen : Bool) :
    (known = some true ∧
      matchItem value seen candidate = .ok (!seen, seen)) ∨
    (known ≠ some true ∧
      matchItem value seen candidate =
          .ok (false, seen || candidate.isNull) ∧
      either (passed seen) known =
        passed (seen || candidate.isNull)) := by
  unfold equality at hEquality
  unfold matchItem
  cases hNull : candidate.isNull with
  | true =>
    rw [if_pos (.inr hNull)] at hEquality
    cases hEquality
    refine .inr ⟨nofun, ?_, ?_⟩
    · rw [if_pos (.inl rfl), Bool.or_true]
      rfl
    · cases seen <;> rfl
  | false =>
    rw [if_neg (by simp [hValue, hNull])] at hEquality
    rcases ok_of_bind hEquality with ⟨order, hOrder, hKnown⟩
    cases hKnown
    by_cases hSame : order = .eq
    · refine .inl ⟨by rw [decide_eq_true hSame], ?_⟩
      cases seen with
      | true => rfl
      | false =>
        rw [if_neg (by decide), hOrder]
        simp [bind, Except.bind, hSame]
        rfl
    · refine .inr ⟨by simp [hSame], ?_, ?_⟩
      · cases seen with
        | true => rfl
        | false =>
          rw [if_neg (by decide), hOrder]
          simp [bind, Except.bind, hSame]
          rfl
      · rw [decide_eq_false hSame]
        cases seen <;> rfl

/- After an unknown no item is a match any more. -/
theorem evaluateItems_unknown
    {value : Value φ}
    {negated : Bool}
    {items : Items φ}
    (hItems : ∀ item ∈ items.toList, ∃ candidate,
      evaluate row item = .ok candidate) :
    evaluateItems row value true negated items =
      .ok .null := by
  have hMatch : ∀ candidate : Value φ,
      matchItem value true candidate =
        .ok (false, true) := by
    intro candidate
    unfold matchItem
    rw [if_pos (.inr rfl)]
    rfl
  match items with
  | .one item =>
    rcases hItems item (by simp [Items.toList]) with
      ⟨candidate, hItem⟩
    unfold evaluateItems
    rw [hItem]
    simp only [bind, Except.bind, hMatch]
    rfl
  | .more item rest =>
    rcases hItems item (by simp [Items.toList]) with
      ⟨candidate, hItem⟩
    have hRest : ∀ other ∈ rest.toList, ∃ candidate,
        evaluate row other = .ok candidate :=
      fun other hMem => hItems other
        (.tail _ hMem)
    unfold evaluateItems
    rw [hItem]
    simp only [bind, Except.bind, hMatch]
    exact evaluateItems_unknown hRest

theorem items_evaluate
    {value result : Value φ}
    {negated : Bool}
    {items : Items φ}
    (hOk : evaluateItems row value true negated items =
      .ok result) :
    ∀ item ∈ items.toList, ∃ candidate,
      evaluate row item = .ok candidate := by
  match items with
  | .one item =>
    unfold evaluateItems at hOk
    rcases ok_of_bind hOk with ⟨candidate, hItem, _⟩
    intro other hMem
    rw [List.mem_singleton.mp hMem]
    exact ⟨candidate, hItem⟩
  | .more item rest =>
    unfold evaluateItems at hOk
    rcases ok_of_bind hOk with ⟨candidate, hItem, hRest⟩
    have hMatch : matchItem value true candidate =
        .ok (false, true) := by
      unfold matchItem
      rw [if_pos (.inr rfl)]
      rfl
    rw [hMatch] at hRest
    intro other hMem
    rcases List.mem_cons.mp hMem with rfl | hIn
    · exact ⟨candidate, hItem⟩
    · exact items_evaluate hRest other hIn

/- A masked match is lost to the loop and found by the
   disjunction. -/
theorem evaluateItems_masked
    (hValue : value.isNull = false)
    (negated : Bool)
    {seen : Bool}
    {items : Items φ}
    (hMasked : MaskedFrom row value seen items.toList) :
    evaluateItems row value seen negated items =
        .ok .null ∧
      orValues row value (passed seen) items =
        .ok (some true) := by
  have hFirst : ∃ item candidate, items.toList.head? =
      some item ∧ evaluate row item = .ok candidate := by
    rcases hMasked with ⟨before, item, after, hSame, _,
      hPasses, ⟨candidate, hItem, _⟩, _⟩
    cases before with
    | nil => exact ⟨item, candidate, by rw [hSame]; rfl, hItem⟩
    | cons first before =>
      rcases hPasses first (.head _) with
        ⟨candidate, _, hFirst, _⟩
      exact ⟨first, candidate, by rw [hSame]; rfl, hFirst⟩
  match items with
  | .one item =>
    rcases hFirst with ⟨_, candidate, hHead, hItem⟩
    cases hHead
    rcases (maskedFrom_cons hItem).mp hMasked with
      ⟨rfl, ⟨other, hOther, hTrue⟩, _⟩ | ⟨_, hNone⟩
    · cases hItem.symm.trans hOther
      refine ⟨evaluateItems_unknown ?_, ?_⟩
      · intro other hMem
        rw [List.mem_singleton.mp hMem]
        exact ⟨candidate, hItem⟩
      · rw [orValues_one (passed_ne_true true), hItem]
        simp only [bind, Except.bind, hTrue]
        rfl
    · exact absurd hNone (maskedFrom_nil _)
  | .more item rest =>
    rcases hFirst with ⟨_, candidate, hHead, hItem⟩
    cases hHead
    rcases (maskedFrom_cons hItem).mp hMasked with
      ⟨rfl, ⟨other, hOther, hTrue⟩, hRest⟩ |
      ⟨⟨other, known, hOther, hKnown, hNot⟩, hLater⟩
    · cases hItem.symm.trans hOther
      refine ⟨evaluateItems_unknown ?_, ?_⟩
      · intro other hMem
        rcases List.mem_cons.mp hMem with rfl | hIn
        · exact ⟨candidate, hItem⟩
        · exact hRest other hIn
      · rw [orValues_more (passed_ne_true true), hItem]
        simp only [bind, Except.bind, hTrue]
        exact orValues_true rest
    · cases hItem.symm.trans hOther
      rcases equality_ok hValue hKnown seen with
        ⟨hTrue, _⟩ | ⟨_, hMatch, hEither⟩
      · exact absurd hTrue hNot
      · have hNext := evaluateItems_masked hValue negated
          hLater
        constructor
        · unfold evaluateItems
          rw [hItem]
          simp only [bind, Except.bind, hMatch]
          exact hNext.1
        · rw [orValues_more (passed_ne_true seen), hItem]
          simp only [bind, Except.bind, hKnown, hEither]
          exact hNext.2

/- Where nothing is masked the two come to the same. -/
theorem evaluateItems_unmasked
    (hValue : value.isNull = false)
    {negated seen : Bool}
    {items : Items φ}
    {result : Value φ}
    {known : Option Bool}
    (hUnmasked : ¬ MaskedFrom row value seen items.toList)
    (hOk : evaluateItems row value seen negated items =
      .ok result)
    (hOr : orValues row value (passed seen) items = .ok known) :
    result = ofOption (known.map (negated != ·)) := by
  match items with
  | .one item =>
    unfold evaluateItems at hOk
    rcases ok_of_bind hOk with ⟨candidate, hItem, hRest⟩
    rw [orValues_one (passed_ne_true seen)] at hOr
    rcases ok_of_bind hOr with ⟨other, hOther, hStep⟩
    cases hItem.symm.trans hOther
    rcases ok_of_bind hStep with ⟨next, hNext, hDone⟩
    cases hDone
    rcases equality_ok hValue hNext seen with
      ⟨rfl, hMatch⟩ | ⟨_, hMatch, hEither⟩
    · rw [hMatch] at hRest
      cases seen with
      | true =>
        exact absurd ((maskedFrom_cons hItem).mpr
          (.inl ⟨rfl, ⟨candidate, hItem, hNext⟩,
            by simp⟩)) hUnmasked
      | false =>
        cases hRest
        cases negated <;> rfl
    · rw [hMatch] at hRest
      rw [hEither]
      cases hSeen : seen || candidate.isNull with
      | true =>
        rw [hSeen] at hRest
        cases hRest
        rfl
      | false =>
        rw [hSeen] at hRest
        cases hRest
        cases negated <;> rfl
  | .more item rest =>
    unfold evaluateItems at hOk
    rcases ok_of_bind hOk with ⟨candidate, hItem, hRest⟩
    rw [orValues_more (passed_ne_true seen)] at hOr
    rcases ok_of_bind hOr with ⟨other, hOther, hStep⟩
    cases hItem.symm.trans hOther
    rcases ok_of_bind hStep with ⟨next, hNext, hLater⟩
    rcases equality_ok hValue hNext seen with
      ⟨rfl, hMatch⟩ | ⟨hNot, hMatch, hEither⟩
    · rw [hMatch] at hRest
      cases seen with
      | true =>
        exact absurd ((maskedFrom_cons hItem).mpr
          (.inl ⟨rfl, ⟨candidate, hItem, hNext⟩,
            items_evaluate hRest⟩)) hUnmasked
      | false =>
        have hTrue : either (passed false) (some true) =
            some true := rfl
        rw [hTrue, orValues_true] at hLater
        cases hLater
        cases hRest
        cases negated <;> rfl
    · rw [hMatch] at hRest
      rw [hEither] at hLater
      apply evaluateItems_unmasked hValue _ hRest hLater
      intro hMasked
      exact hUnmasked ((maskedFrom_cons hItem).mpr (.inr
        ⟨⟨candidate, next, hItem, hNext, hNot⟩, hMasked⟩))

theorem equality_null
    (hValue : value.isNull = true)
    (candidate : Value φ) :
    equality value candidate = .ok none :=
  if_pos (.inl hValue)

/- NULL equals no item. -/
theorem orValues_null
    (hValue : value.isNull = true)
    {items : Items φ}
    {known result : Option Bool}
    (hKnown : known ≠ some true)
    (hOr : orValues row value known items = .ok result) :
    result = none := by
  have hEither : either known none = none := by
    rcases known with _ | _ | _
    · rfl
    · rfl
    · exact absurd rfl hKnown
  match items with
  | .one item =>
    rw [orValues_one hKnown] at hOr
    rcases ok_of_bind hOr with ⟨candidate, _, hStep⟩
    rw [equality_null hValue] at hStep
    cases hStep
    exact hEither
  | .more item rest =>
    rw [orValues_more hKnown] at hOr
    rcases ok_of_bind hOr with ⟨candidate, _, hStep⟩
    rw [equality_null hValue] at hStep
    have hRest : orValues row value (either known none)
        rest = .ok result := hStep
    rw [hEither] at hRest
    have hNone : (none : Option Bool) ≠ some true := nofun
    exact orValues_null hValue hNone hRest

theorem evaluate_not
    {expression : Expression φ}
    {known : Option Bool}
    (hOk : evaluate row expression = .ok (ofOption known)) :
    evaluate row (.unaryOp .not expression) =
      .ok (ofOption (known.map not)) := by
  unfold evaluate
  rw [hOk]
  rcases known with _ | _ | _ <;> rfl

/- What the equalities come to, in either form. -/
theorem evaluate_asEqualities
    {items : Items φ}
    {negated : Bool}
    {result : Value φ}
    (hOperand : evaluate row operand = .ok value)
    (hOk : evaluate row (asEqualities operand items negated) =
      .ok result) :
    ∃ known,
      orValues row value (some false) items = .ok known ∧
        result = ofOption (known.map (negated != ·)) := by
  have hDisjunction := evaluate_disjunction hOperand items
  cases hOr : orValues row value (some false) items with
  | error raised =>
    rw [hOr] at hDisjunction
    cases negated with
    | false => cases hDisjunction.symm.trans hOk
    | true =>
      have hNot : evaluate row (.unaryOp .not
          (disjunction operand items)) =
          .error raised := by
        unfold evaluate
        rw [hDisjunction]
        rfl
      cases hNot.symm.trans hOk
  | ok known =>
    rw [hOr] at hDisjunction
    refine ⟨known, rfl, ?_⟩
    cases negated with
    | false =>
      cases hDisjunction.symm.trans hOk
      rcases known with _ | _ | _ <;> rfl
    | true =>
      cases (evaluate_not hDisjunction).symm.trans hOk
      rcases known with _ | _ | _ <;> rfl

/- The two agree on every row, except where a NULL in front of
   the match hides it. -/
theorem inList_iff
    (row : Row φ width)
    (operand : Expression φ)
    (items : Items φ)
    (negated : Bool) :
    (∀ result expected,
      evaluate row (.inList operand items negated) =
          .ok result →
        evaluate row (asEqualities operand items negated) =
          .ok expected →
          result = expected) ↔
      ¬ Masked row operand items := by
  constructor
  · rintro hSame ⟨value, hOperand, hValue, hMasked⟩
    rcases evaluateItems_masked hValue negated hMasked with
      ⟨hItems, hOr⟩
    have hIn : evaluate row (.inList operand items negated) =
        .ok .null := by
      unfold evaluate
      rw [hOperand]
      simp only [bind, Except.bind, hValue]
      exact hItems
    have hDisjunction : evaluate row
        (disjunction operand items) =
          .ok (ofOption (some true)) := by
      have hPassed : passed false = some false := rfl
      rw [hPassed] at hOr
      rw [evaluate_disjunction hOperand, hOr]
      rfl
    cases negated with
    | false => cases hSame _ _ hIn hDisjunction
    | true =>
      cases hSame _ _ hIn (evaluate_not hDisjunction)
  · intro hUnmasked result expected hIn hExpected
    unfold evaluate at hIn
    rcases ok_of_bind hIn with ⟨value, hOperand, hItems⟩
    rcases evaluate_asEqualities hOperand hExpected with
      ⟨known, hOr, rfl⟩
    cases hValue : value.isNull with
    | true =>
      rw [hValue] at hItems
      have hNull : evaluateItems row value true negated
          items = .ok .null :=
        evaluateItems_unknown (items_evaluate hItems)
      cases hNull.symm.trans hItems
      have hFalse : some false ≠ some true := by decide
      rw [orValues_null hValue hFalse hOr]
      rfl
    | false =>
      rw [hValue] at hItems
      apply evaluateItems_unmasked hValue _ hItems hOr
      intro hMasked
      exact hUnmasked ⟨value, hOperand, hValue, hMasked⟩

end Rows

/- `2 IN (NULL, 2)`. -/
theorem null_before_match :
    ¬ ∀ (row : Row Rat 0)
      (operand : Expression Rat)
      (items : Items Rat)
      (negated : Bool)
      (result expected : Value Rat),
      evaluate row (.inList operand items negated) =
          .ok result →
        evaluate row (asEqualities operand items negated) =
          .ok expected →
          result = expected := by
  intro hAll
  have hNull := hAll (fun slot => slot.elim0)
    (.literal (.int 2))
    (.more (.literal .null) (.one (.literal (.int 2))))
    false .null (.bool true) rfl rfl
  cases hNull

end Executor

end ChenDB
