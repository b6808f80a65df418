import Mathlib.Data.Fin.VecNotation
import ChenDB.Executor.Ordering
import ChenDB.Library.StableSort

/-
  `ORDER BY`: one stable pass for each key, the last key first.
-/

--
-- The Operator
--

namespace ChenDB

namespace Executor

open Library.StableSort (Before Tied TotalPreorder passes)

variable {φ : Type} {width : Nat}

/- One term of the `ORDER BY`, which is bound to a column of the
   rows that are sorted. -/
abbrev SortKey (width : Nat) :=
  {key : BoundSortKey // key.outputIndex < width}

def SortKey.of
    (key : SortKey width)
    (row : Row φ width) : Value φ :=
  row ⟨key.1.outputIndex, key.2⟩

/- NULL goes after everything, and is compared to nothing. -/
def sortKey : Value φ → Nat × Value φ
  | .null => (1, .int 0)
  | .bool value => (0, .int value.toInt)
  | value => (0, value)

section Operator

variable [Double φ]

/- Python's `<` on two such pairs. -/
def keyLess
    (left right : Nat × Value φ) : Except EngineError Bool :=
  if left.1 = right.1 then lessThan left.2 right.2
  else .ok (decide (left.1 < right.1))

def lessBy
    (key : SortKey width)
    (left right : Row φ width) : Except EngineError Bool :=
  keyLess (sortKey (key.of left))
    (sortKey (key.of right))

/- Whether the pass may leave `left` before `right`; going down,
   each comparison is reversed. -/
def inOrder
    (key : SortKey width)
    (left right : Row φ width) : Bool :=
  let less :=
    if key.1.descending then lessBy key left right
    else lessBy key right left
  less.toOption = some false

/- `list.sort`, which is stable. Two values that cannot be
   compared stand somewhere in the order, and putting them
   there takes comparing them. -/
def sortPass
    (key : SortKey width)
    (rows : List (Row φ width)) :
    Except EngineError (List (Row φ width)) :=
  if rows.all fun left => rows.all fun right =>
      (lessBy key left right).isOk then
    .ok (rows.mergeSort (inOrder key))
  else .error (unsupported "<")

def sortRows
    (keys : List (SortKey width))
    (rows : List (Row φ width)) :
    Except EngineError (List (Row φ width)) :=
  keys.reverse.foldlM (fun rows key => sortPass key rows) rows

--
-- The Order Asked For
--

/- Does `ORDER BY` put the value before the other? NULL goes
   after every value ascending and before them descending. -/
def before
    (descending : Bool)
    (left right : Value φ) : Bool :=
  match left, right with
  | .null, .null => false
  | .null, _ => descending
  | _, .null => !descending
  | left, right =>
    (compareValues left right .lt).toOption =
      some (if descending then .gt else .lt)

/- Two values that no key tells apart. -/
def ties (left right : Value φ) : Bool :=
  match left, right with
  | .null, .null => true
  | .null, _ => false
  | _, .null => false
  | left, right =>
    (compareValues left right .eq).toOption = some .eq

/- The first key that tells the rows apart puts `left` first. -/
def rowBefore :
    List (SortKey width) →
    Row φ width → Row φ width → Bool
  | [], _, _ => false
  | key :: rest, left, right =>
    before key.1.descending (key.of left)
        (key.of right) ||
      (ties (key.of left) (key.of right) &&
        rowBefore rest left right)

def tiesOnAll
    (keys : List (SortKey width))
    (left right : Row φ width) : Bool :=
  keys.all fun key =>
    ties (key.of left) (key.of right)

/- The rows in the order of the keys, and rows that tie on all
   of them as they came. -/
structure Ordered
    (keys : List (SortKey width))
    (rows output : List (Row φ width)) : Prop where
  perm : output.Perm rows
  sorted : output.Pairwise fun left right =>
    rowBefore keys right left = false
  stable : ∀ row ∈ rows,
    output.filter (tiesOnAll keys row) =
      rows.filter (tiesOnAll keys row)

/- The column of a key holds values of one comparable type, and
   NULLs anywhere. -/
structure OneType
    (key : SortKey width)
    (rows : List (Row φ width)) : Prop where
  finite : ∀ row ∈ rows, (key.of row).finite = true
  kind : ∃ kind, ∀ row ∈ rows,
    key.of row = .null ∨ (key.of row).kind = kind

end Operator

--
-- One Key
--

section Keys

variable [Double φ] [ExactDouble φ]

/- Two values of a column that holds one type. -/
structure Alike (left right : Value φ) : Prop where
  finiteLeft : left.finite = true
  finiteRight : right.finite = true
  kind : left = .null ∨ right = .null ∨ left.kind = right.kind

variable {key : SortKey width} {rows : List (Row φ width)}

omit [ExactDouble φ] in
theorem OneType.alike
    (hColumn : OneType key rows)
    {left right : Row φ width}
    (hLeft : left ∈ rows)
    (hRight : right ∈ rows) :
    Alike (key.of left) (key.of right) := by
  rcases hColumn.kind with ⟨kind, hKind⟩
  refine ⟨hColumn.finite left hLeft,
    hColumn.finite right hRight, ?_⟩
  rcases hKind left hLeft with hNull | hFirst
  · exact .inl hNull
  rcases hKind right hRight with hNull | hSecond
  · exact .inr (.inl hNull)
  · exact .inr (.inr (hFirst.trans hSecond.symm))

theorem rank_lt_top
    {value : Value φ}
    (hKnown : value ≠ .null) : rank value < ⊤ := by
  cases value with
  | null => exact absurd rfl hKnown
  | bool value => exact WithTop.coe_lt_top _
  | int value => exact WithTop.coe_lt_top _
  | float value => exact WithTop.coe_lt_top _
  | text value => exact WithTop.coe_lt_top _

variable {left right : Value φ}

/- The second part of a known value's key. -/
theorem sortKey_known
    (hLeft : left ≠ .null)
    (hRight : right ≠ .null)
    (hAlike : Alike left right) :
    keyLess (sortKey left) (sortKey right) =
      .ok (decide (rank left < rank right)) := by
  have hKind : left.kind = right.kind :=
    (hAlike.kind.resolve_left hLeft).resolve_left hRight
  have hLess : lessThan left right =
      .ok (decide (rank left < rank right)) :=
    lessThan_rank hKind hLeft hAlike.finiteLeft
      hAlike.finiteRight
  -- A truth value goes as the integer `lessThan` takes it for.
  cases left with
  | null => exact absurd rfl hLeft
  | _ =>
    cases right with
    | null => exact absurd rfl hRight
    | _ => exact hLess

theorem keyLess_rank
    (hAlike : Alike left right) :
    keyLess (sortKey left) (sortKey right) =
      .ok (decide (rank left < rank right)) := by
  by_cases hLeft : left = .null
  · subst hLeft
    have hTop : ¬ (⊤ : WithTop (ℚ ⊕ₗ String)) < rank right :=
      not_top_lt
    have hFalse : decide (rank (.null : Value φ) <
        rank right) = false := decide_eq_false hTop
    rw [hFalse]
    cases right with
    | null => rfl
    | _ => rfl
  by_cases hRight : right = .null
  · subst hRight
    have hTrue : decide (rank left <
        rank (.null : Value φ)) = true :=
      decide_eq_true (rank_lt_top hLeft)
    rw [hTrue]
    cases left with
    | null => exact absurd rfl hLeft
    | _ => rfl
  · exact sortKey_known hLeft hRight hAlike

theorem compareValues_alike
    (hLeft : left ≠ .null)
    (hRight : right ≠ .null)
    (hAlike : Alike left right)
    (op : BinaryOperator) :
    compareValues left right op =
      .ok (Ord.compare (rank left) (rank right)) :=
  compareValues_rank
    ((hAlike.kind.resolve_left hLeft).resolve_left hRight)
    hLeft hAlike.finiteLeft hAlike.finiteRight op

omit [ExactDouble φ] in
theorem before_known
    (descending : Bool)
    (hLeft : left ≠ .null)
    (hRight : right ≠ .null) :
    before descending left right =
      decide ((compareValues left right .lt).toOption =
        some (if descending then .gt else .lt)) := by
  cases left with
  | null => exact absurd rfl hLeft
  | _ =>
    cases right with
    | null => exact absurd rfl hRight
    | _ => rfl

omit [ExactDouble φ] in
theorem ties_known
    (hLeft : left ≠ .null)
    (hRight : right ≠ .null) :
    ties left right =
      decide ((compareValues left right .eq).toOption =
        some .eq) := by
  cases left with
  | null => exact absurd rfl hLeft
  | _ =>
    cases right with
    | null => exact absurd rfl hRight
    | _ => rfl

theorem before_rank
    (descending : Bool)
    (hAlike : Alike left right) :
    before descending left right =
      if descending then decide (rank right < rank left)
      else decide (rank left < rank right) := by
  by_cases hLeft : left = .null
  · subst hLeft
    by_cases hRight : right = .null
    · subst hRight
      cases descending <;> simp [before]
    · have hLess : rank right < rank (.null : Value φ) :=
        rank_lt_top hRight
      have hBefore : before descending .null right =
          descending := by
        cases right with
        | null => exact absurd rfl hRight
        | _ => rfl
      cases descending <;> simp [hBefore, hLess, hLess.le]
  by_cases hRight : right = .null
  · subst hRight
    have hLess : rank left < rank (.null : Value φ) :=
      rank_lt_top hLeft
    have hBefore : before descending left .null =
        !descending := by
      cases left with
      | null => exact absurd rfl hLeft
      | _ => rfl
    cases descending <;> simp [hBefore, hLess, hLess.le]
  · rw [before_known descending hLeft hRight,
      compareValues_alike hLeft hRight hAlike]
    cases descending <;>
      simp [Except.toOption, compare_lt_iff_lt,
        compare_gt_iff_gt]

theorem ties_rank
    (hAlike : Alike left right) :
    ties left right = decide (rank left = rank right) := by
  by_cases hLeft : left = .null
  · subst hLeft
    by_cases hRight : right = .null
    · subst hRight
      simp [ties]
    · have hLess : rank right < rank (.null : Value φ) :=
        rank_lt_top hRight
      have hTies : ties .null right = false := by
        cases right with
        | null => exact absurd rfl hRight
        | _ => rfl
      simp [hTies, hLess.ne']
  by_cases hRight : right = .null
  · subst hRight
    have hLess : rank left < rank (.null : Value φ) :=
      rank_lt_top hLeft
    have hTies : ties left .null = false := by
      cases left with
      | null => exact absurd rfl hLeft
      | _ => rfl
    simp [hTies, hLess.ne]
  · rw [ties_known hLeft hRight,
      compareValues_alike hLeft hRight hAlike]
    simp [Except.toOption, compare_eq_iff_eq]

--
-- Every Key
--

/- The order of one key by rank. -/
def rankOrder
    (key : SortKey width)
    (left right : Row φ width) : Bool :=
  if key.1.descending then
    decide (rank (key.of right) ≤ rank (key.of left))
  else decide (rank (key.of left) ≤ rank (key.of right))

theorem rankOrder_total (key : SortKey width) :
    TotalPreorder (rankOrder key : Row φ width → _) where
  trans := by
    intro first second third
    unfold rankOrder
    cases key.1.descending with
    | true =>
      simp only [if_true, decide_eq_true_eq]
      exact fun hFirst hSecond => hSecond.trans hFirst
    | false =>
      simp only [Bool.false_eq_true, if_false,
        decide_eq_true_eq]
      exact fun hFirst hSecond => hFirst.trans hSecond
  total := by
    intro first second
    unfold rankOrder
    cases key.1.descending with
    | true =>
      simpa using le_total (rank (key.of second))
        (rank (key.of first))
    | false =>
      simpa using le_total (rank (key.of first))
        (rank (key.of second))

theorem inOrder_rank
    {left right : Row φ width}
    (hAlike : Alike (key.of left) (key.of right)) :
    inOrder key left right = rankOrder key left right := by
  have hBack : Alike (key.of right) (key.of left) :=
    { finiteLeft := hAlike.finiteRight
      finiteRight := hAlike.finiteLeft
      kind := by
        rcases hAlike.kind with hNull | hNull | hKind
        · exact .inr (.inl hNull)
        · exact .inl hNull
        · exact .inr (.inr hKind.symm) }
  unfold inOrder rankOrder lessBy
  rw [keyLess_rank hAlike, keyLess_rank hBack]
  cases key.1.descending <;> simp [Except.toOption]

/- A pass over a column of one type raises nothing, and follows
   the ranks. -/
theorem sortPass_rank
    (hColumn : OneType key rows) :
    sortPass key rows =
      .ok (rows.mergeSort (rankOrder key)) := by
  have hLess : (rows.all fun left => rows.all fun right =>
      (lessBy key left right).isOk) = true := by
    simp only [List.all_eq_true]
    intro left hLeft right hRight
    unfold lessBy
    rw [keyLess_rank (hColumn.alike hLeft hRight)]
    rfl
  have hSame := @List.map_mergeSort _ _ (inOrder key)
    (rankOrder key) id rows fun left hLeft right hRight =>
      inOrder_rank (hColumn.alike hLeft hRight)
  unfold sortPass
  rw [if_pos hLess]
  simpa using hSame

omit [ExactDouble φ] in
theorem OneType.perm
    {output : List (Row φ width)}
    (hColumn : OneType key rows)
    (hPerm : output.Perm rows) :
    OneType key output where
  finite row hRow := hColumn.finite row (hPerm.mem_iff.mp hRow)
  kind := by
    rcases hColumn.kind with ⟨kind, hKind⟩
    exact ⟨kind, fun row hRow =>
      hKind row (hPerm.mem_iff.mp hRow)⟩

variable {keys : List (SortKey width)}

/- The loop over the keys, from the last to the first. -/
theorem sortRows_passes
    (hColumns : ∀ key ∈ keys, OneType key rows) :
    sortRows keys rows =
      .ok (passes (keys.map rankOrder) rows) := by
  induction keys with
  | nil => rfl
  | cons key rest ih =>
    have hRest := ih fun other hOther =>
      hColumns other (.tail key hOther)
    have hPass := sortPass_rank
      ((hColumns key (.head _)).perm
        (Library.StableSort.passes_perm
          (rest.map rankOrder) rows))
    unfold sortRows at hRest ⊢
    rw [List.reverse_cons, List.foldlM_append, hRest]
    exact (bind_pure _).trans hPass

theorem rowBefore_rank
    {left right : Row φ width}
    (hAlike : ∀ key ∈ keys, Alike (key.of left) (key.of right))
    (hBefore : rowBefore keys left right = true) :
    Before (keys.map rankOrder) left right := by
  induction keys with
  | nil => cases hBefore
  | cons key rest ih =>
    have hKey := hAlike key (.head _)
    have hRest := ih fun other hOther =>
      hAlike other (.tail key hOther)
    rw [rowBefore, before_rank _ hKey, ties_rank hKey,
      Bool.or_eq_true, Bool.and_eq_true,
      decide_eq_true_eq] at hBefore
    rcases hBefore with hLess | ⟨hTie, hLater⟩
    · left
      unfold rankOrder
      cases hDescending : key.1.descending <;>
        simpa [hDescending] using hLess
    · right
      refine ⟨?_, ?_, hRest hLater⟩
      · unfold rankOrder
        simp [hTie]
      · unfold rankOrder
        simp [hTie]

/- Rows of the same rank on every key. -/
def sameRanks
    (keys : List (SortKey width))
    (left right : Row φ width) : Bool :=
  keys.all fun key =>
    rank (key.of left) = rank (key.of right)

theorem tied_of_sameRanks
    {row left right : Row φ width}
    (hLeft : sameRanks keys row left = true)
    (hRight : sameRanks keys row right = true) :
    Tied (keys.map rankOrder) left right := by
  intro le hOrder
  rcases List.mem_map.mp hOrder with ⟨key, hKey, rfl⟩
  have hSame : rank (key.of left) = rank (key.of right) := by
    have hFirst := of_decide_eq_true
      (List.all_eq_true.mp hLeft key hKey)
    have hSecond := of_decide_eq_true
      (List.all_eq_true.mp hRight key hKey)
    exact hFirst.symm.trans hSecond
  unfold rankOrder
  simp [hSame]

/- Over columns of one type each, the rows come out in the order
   of the keys, and ties as they came in. -/
theorem sortRows_ordered
    (keys : List (SortKey width))
    (rows : List (Row φ width))
    (hColumns : ∀ key ∈ keys, OneType key rows) :
    ∃ output, sortRows keys rows = .ok output ∧
      Ordered keys rows output := by
  have hOrders : ∀ le ∈ keys.map rankOrder,
      TotalPreorder (le : Row φ width → _) := by
    intro le hOrder
    rcases List.mem_map.mp hOrder with ⟨key, _, rfl⟩
    exact rankOrder_total key
  have hPerm := Library.StableSort.passes_perm
    (keys.map rankOrder) rows
  refine ⟨passes (keys.map rankOrder) rows,
    sortRows_passes hColumns, hPerm, ?_, ?_⟩
  · refine (Library.StableSort.passes_sorted hOrders
      rows).imp_of_mem ?_
    intro left right hLeft hRight hNot
    rw [← Bool.not_eq_true]
    intro hBefore
    refine hNot (rowBefore_rank (fun key hKey => ?_) hBefore)
    exact (hColumns key hKey).alike
      (hPerm.mem_iff.mp hRight) (hPerm.mem_iff.mp hLeft)
  · intro row hRow
    have hTies : ∀ other ∈ rows,
        tiesOnAll keys row other = sameRanks keys row other := by
      intro other hOther
      rw [Bool.eq_iff_iff, tiesOnAll, sameRanks,
        List.all_eq_true, List.all_eq_true]
      refine forall₂_congr fun key hKey => ?_
      rw [ties_rank ((hColumns key hKey).alike hRow hOther)]
    rw [List.filter_congr hTies,
      List.filter_congr fun other hOther =>
        hTies other (hPerm.mem_iff.mp hOther)]
    exact Library.StableSort.filter_passes hOrders
      (fun left right hLeft hRight =>
        tied_of_sameRanks hLeft hRight) rows

end Keys

/- `ORDER BY 1 DESC, 2`, with a NULL in the first column. -/
theorem sortRows_descending :
    let rows : List (Row Rat 2) :=
      [![.int 1, .text "b"], ![.null, .text "a"],
        ![.int 2, .text "a"], ![.int 1, .text "a"]]
    let keys : List (SortKey 2) :=
      [⟨⟨0, true⟩, by decide⟩, ⟨⟨1, false⟩, by decide⟩]
    ∃ output, sortRows keys rows = .ok output ∧
      Ordered keys rows output := by
  intro rows keys
  refine sortRows_ordered keys rows fun key hKey => ?_
  rcases List.mem_cons.mp hKey with rfl | hKey
  · exact
      { finite := by decide
        kind := ⟨"number", by decide⟩ }
  · rcases List.mem_singleton.mp hKey with rfl
    exact
      { finite := by decide
        kind := ⟨"TEXT", by decide⟩ }

end Executor

end ChenDB
