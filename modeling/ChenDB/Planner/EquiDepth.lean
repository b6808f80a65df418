import ChenDB.Planner.Statistics

/-
  The histogram is equi-depth: the boundaries grow from the
  least value to the greatest, and between two of them there
  are no more rows than an even share and the upper one's own.
-/

--
-- Edges
--

namespace ChenDB

namespace Planner

open Library.Tally

section Edges

variable {ρ : Type} [LinearOrder ρ] {buckets turns edge : ℕ}
variable {edges : ℕ → ℚ}

variable {value last : ρ} {bounds : List ρ}

theorem addBound_last
    (hLast : bounds.getLast? = some last) :
    addBound value bounds =
      if value = last then bounds else bounds ++ [value] := by
  unfold addBound
  rw [hLast]
  show (if decide (value = last) = true then _ else _) = _
  simp only [decide_eq_true_eq]

theorem getLast?_addBound
    (hLast : bounds.getLast? = some last) :
    (addBound value bounds).getLast? = some value := by
  rw [addBound_last hLast]
  split
  · rename_i hSame
    rw [hLast, hSame]
  · exact List.getLast?_concat

/- A boundary is there once, however many edges it passes. -/
theorem addBound_again
    (hLast : bounds.getLast? = some last) :
    addBound value (addBound value bounds) =
      addBound value bounds := by
  rw [addBound_last (getLast?_addBound hLast), if_pos rfl]

/- The last edge that so many rows have reached, and every one
   before it. -/
def reached
    (buckets : ℕ)
    (edges : ℕ → ℚ)
    (running : ℕ) : ℕ :=
  Nat.findGreatest
    (fun edge => ∀ below ≤ edge, 0 < below →
      edges below ≤ running)
    (buckets - 1)

theorem reached_all
    (buckets : ℕ)
    (edges : ℕ → ℚ)
    (running : ℕ)
    {below : ℕ}
    (hPos : 0 < below)
    (hBelow : below ≤ reached buckets edges running) :
    edges below ≤ running := by
  have hAll := Nat.findGreatest_spec
    (P := fun edge => ∀ below ≤ edge, 0 < below →
      edges below ≤ running)
    (Nat.zero_le (buckets - 1)) fun below hZero hPos => by omega
  exact hAll below hBelow hPos

variable {running : ℕ}

theorem le_reached
    (hEdge : edge ≤ buckets - 1)
    (hAll : ∀ below ≤ edge, 0 < below → edges below ≤ running) :
    edge ≤ reached buckets edges running :=
  Nat.le_findGreatest hEdge hAll

theorem reached_mono
    (buckets : ℕ)
    (edges : ℕ → ℚ)
    {more : ℕ}
    (hMore : running ≤ more) :
    reached buckets edges running ≤
      reached buckets edges more := by
  refine Nat.findGreatest_mono (fun edge hAll below hLe hPos =>
    (hAll below hLe hPos).trans ?_) (Nat.le_refl _)
  exact_mod_cast hMore

theorem reached_le
    (buckets : ℕ)
    (edges : ℕ → ℚ)
    (running : ℕ) :
    reached buckets edges running ≤ buckets - 1 :=
  Nat.findGreatest_le _

/- The loop leaves off behind the last edge reached, and the
   value is a boundary if that is one more. -/
theorem passEdges_eq
    (running : ℕ)
    (value : ρ)
    (hLast : bounds.getLast? = some last)
    (hTurns : buckets - edge ≤ turns)
    (hPos : 0 < edge)
    (hEdge : edge ≤ buckets)
    (hBehind : ∀ below < edge, 0 < below →
      edges below ≤ running) :
    passEdges buckets edges running value turns bounds edge =
      (if edge ≤ reached buckets edges running then
          addBound value bounds
        else bounds,
        reached buckets edges running + 1) := by
  have hGe : edge - 1 ≤ reached buckets edges running :=
    le_reached (by omega) fun below hLe hPos =>
      hBehind below (by omega) hPos
  have hMost := reached_le buckets edges running
  induction turns generalizing bounds edge last with
  | zero =>
    have hEnd : reached buckets edges running + 1 = edge := by
      omega
    rw [passEdges, hEnd, if_neg (by omega)]
  | succ turns ih =>
    rw [passEdges]
    split
    · rename_i hPassed
      have hHere : ∀ below < edge + 1, 0 < below →
          edges below ≤ running := by
        intro below hLess hPos
        rcases Nat.lt_succ_iff_lt_or_eq.mp hLess with
          hBelow | rfl
        · exact hBehind below hBelow hPos
        · exact hPassed.2
      have hIn : edge ≤ reached buckets edges running :=
        le_reached (by omega) fun below hLe hPos =>
          hHere below (by omega) hPos
      rw [ih (getLast?_addBound hLast) (by omega)
        (Nat.succ_pos _) hPassed.1 hHere hIn, if_pos hIn,
        addBound_again hLast, ite_self]
    · rename_i hNot
      have hStop : ¬ edge ≤ reached buckets edges running :=
        fun hIn => hNot ⟨by omega,
          reached_all buckets edges running hPos hIn⟩
      have hEnd : reached buckets edges running + 1 =
          edge := by
        omega
      rw [if_neg hStop, hEnd]

end Edges

--
-- Filling the Buckets
--

section Filling

variable {ρ : Type} [LinearOrder ρ]

/- The rows of the values up to one. -/
def upTo (rest : Counter ρ) (value : ρ) : ℕ :=
  rows (fun other => decide (other ≤ value)) rest

/- The rows of the values before one. -/
def rowsBefore (rest : Counter ρ) (value : ρ) : ℕ :=
  rows (fun other => decide (other < value)) rest

/- The rows of the value itself. -/
def own (rest : Counter ρ) (value : ρ) : ℕ :=
  rows (fun other => decide (other = value)) rest

/- The rows of the values between two, the upper one among
   them. -/
def rowsBetween (rest : Counter ρ) (low high : ρ) : ℕ :=
  rows (fun value => decide (low < value) &&
    decide (value ≤ high)) rest

variable {low high : ρ}

theorem upTo_between
    (rest : Counter ρ)
    (hOrder : low ≤ high) :
    upTo rest high =
      upTo rest low + rowsBetween rest low high := by
  unfold upTo rowsBetween
  rw [← rows_or]
  · refine rows_congr fun entry _ => ?_
    rw [Bool.eq_iff_iff]
    simp only [Bool.or_eq_true, Bool.and_eq_true,
      decide_eq_true_eq]
    constructor
    · intro hHigh
      rcases le_or_gt entry.1 low with hLow | hLow
      · exact .inl hLow
      · exact .inr ⟨hLow, hHigh⟩
    · rintro (hLow | ⟨_, hHigh⟩)
      · exact hLow.trans hOrder
      · exact hHigh
  · intro entry _ hLow
    have hLow := of_decide_eq_true hLow
    rw [decide_eq_false (not_lt.mpr hLow), Bool.false_and]

theorem upTo_own (rest : Counter ρ) (value : ρ) :
    upTo rest value = rowsBefore rest value + own rest value := by
  unfold upTo rowsBefore own
  rw [← rows_or]
  · refine rows_congr fun entry _ => ?_
    rw [Bool.eq_iff_iff]
    simp only [Bool.or_eq_true, decide_eq_true_eq,
      le_iff_lt_or_eq]
  · intro entry _ hLess
    exact decide_eq_false (ne_of_lt (of_decide_eq_true hLess))

theorem upTo_mono
    (rest : Counter ρ)
    (hOrder : low ≤ high) :
    upTo rest low ≤ upTo rest high :=
  rows_mono fun _ _ hLow =>
    decide_eq_true ((of_decide_eq_true hLow).trans hOrder)

theorem upTo_before
    (rest : Counter ρ)
    (hOrder : low < high) :
    upTo rest low ≤ rowsBefore rest high :=
  rows_mono fun _ _ hLow => decide_eq_true
    (lt_of_le_of_lt (of_decide_eq_true hLow) hOrder)

variable {entry : ρ × ℕ}

/- In growing order the values before one are those to the
   left of it. -/
theorem before_here
    {done todo : Counter ρ}
    (hSorted : (done ++ entry :: todo).Pairwise
      fun first second => first.1 < second.1) :
    rowsBefore (done ++ entry :: todo) entry.1 =
      (done.map Prod.snd).sum := by
  rcases List.pairwise_append.mp hSorted with
    ⟨_, hTodo, hBefore⟩
  have hAfter := (List.pairwise_cons.mp hTodo).1
  unfold rowsBefore
  rw [rows_append, rows_all, rows_none, Nat.add_zero]
  · intro other hOther
    rcases List.mem_cons.mp hOther with rfl | hOther
    · exact decide_eq_false (lt_irrefl _)
    · exact decide_eq_false (not_lt.mpr
        (le_of_lt (hAfter other hOther)))
  · intro other hOther
    exact decide_eq_true
      (hBefore other hOther entry (.head _))

theorem own_here
    {rest : Counter ρ}
    (hSorted : rest.Pairwise
      fun first second => first.1 < second.1)
    (hMem : entry ∈ rest) :
    own rest entry.1 = entry.2 :=
  rows_eq_of_mem (List.pairwise_map.mpr
    (hSorted.imp fun hLess => ne_of_lt hLess)) hMem

variable {rest : Counter ρ} {buckets : ℕ} {edges : ℕ → ℚ}

/- An edge is reached at the value, and not before it. -/
def Cuts
    (buckets : ℕ)
    (edges : ℕ → ℚ)
    (rest : Counter ρ)
    (value : ρ) : Prop :=
  reached buckets edges (rowsBefore rest value) <
    reached buckets edges (upTo rest value)

/- Where the loop stands after some of the entries, of which
   there is one at least. -/
structure Filling
    (rest : Counter ρ)
    (buckets : ℕ)
    (edges : ℕ → ℚ)
    (first : ρ)
    (done : Counter ρ)
    (state : Boundaries ρ) : Prop where
  running : state.running = (done.map Prod.snd).sum
  edge : state.edge = reached buckets edges state.running + 1
  length : state.bounds.length ≤ state.edge
  start : first ∈ done.map Prod.fst
  head : state.bounds.head? = some first
  increasing : state.bounds.Pairwise (· < ·)
  mem : ∀ value, value ∈ state.bounds ↔
    value ∈ done.map Prod.fst ∧
      (value = first ∨ Cuts buckets edges rest value)

variable {first : ρ} {done todo : Counter ρ}
variable {state : Boundaries ρ}

theorem Filling.last
    (hFilling : Filling rest buckets edges first done state) :
    ∃ last, state.bounds.getLast? = some last ∧
      last ∈ done.map Prod.fst := by
  have hSome : state.bounds ≠ [] := by
    intro hNil
    have hHead := hFilling.head
    rw [hNil] at hHead
    cases hHead
  refine ⟨_, List.getLast?_eq_some_getLast hSome, ?_⟩
  exact ((hFilling.mem _).mp (List.getLast_mem hSome)).1

/- One entry more. -/
theorem filling_next
    (hBuckets : 0 < buckets)
    (hSorted : rest.Pairwise
      fun first second => first.1 < second.1)
    (hSplit : rest = done ++ entry :: todo)
    (hFilling : Filling rest buckets edges first done state) :
    Filling rest buckets edges first (done ++ [entry])
      (state.next buckets edges entry) := by
  rcases hFilling.last with ⟨last, hLast, hDrawn⟩
  have hAbove : ∀ value ∈ done.map Prod.fst,
      value < entry.1 := by
    intro value hMem
    rcases List.mem_map.mp hMem with ⟨other, hOther, rfl⟩
    exact (List.pairwise_append.mp (hSplit ▸ hSorted)).2.2
      other hOther entry (.head _)
  have hBefore : rowsBefore rest entry.1 = state.running := by
    rw [hFilling.running, hSplit]
    exact before_here (hSplit ▸ hSorted)
  have hUpTo : upTo rest entry.1 =
      state.running + entry.2 := by
    rw [upTo_own, hBefore, own_here hSorted (hSplit ▸
      List.mem_append_right _ (.head _))]
  have hRunning : state.running + entry.2 =
      ((done ++ [entry]).map Prod.snd).sum := by
    simp [hFilling.running]
  have hMost : reached buckets edges state.running ≤
      buckets - 1 := reached_le buckets edges state.running
  have hEdge := hFilling.edge
  have hPos : 0 < state.edge := by omega
  have hWithin : state.edge ≤ buckets := by omega
  have hBehind : ∀ below < state.edge, 0 < below →
      edges below ≤ (state.running + entry.2 : ℕ) := by
    intro below hLess hBelow
    have hIn : below ≤ reached buckets edges state.running := by
      omega
    refine (reached_all buckets edges state.running hBelow
      hIn).trans ?_
    exact_mod_cast Nat.le_add_right _ _
  have hPass := passEdges_eq (state.running + entry.2) entry.1
    hLast (Nat.le_refl _) hPos hWithin hBehind
  have hGrown : reached buckets edges state.running ≤
      reached buckets edges (state.running + entry.2) :=
    reached_mono buckets edges (Nat.le_add_right _ _)
  have hCuts : state.edge ≤
      reached buckets edges (state.running + entry.2) ↔
        Cuts buckets edges rest entry.1 := by
    unfold Cuts
    rw [hBefore, hUpTo]
    omega
  have hDone : ∀ value,
      value ∈ (done ++ [entry]).map Prod.fst ↔
        value ∈ done.map Prod.fst ∨ value = entry.1 := by
    simp
  have hFirst := hAbove first hFilling.start
  rw [addBound_last hLast,
    if_neg (ne_of_gt (hAbove last hDrawn))] at hPass
  simp only [Boundaries.next, hPass]
  by_cases hCut : Cuts buckets edges rest entry.1
  · simp only [if_pos (hCuts.mpr hCut)]
    exact
      { running := hRunning
        edge := rfl
        length := by
          have hLength := hFilling.length
          have hIn := hCuts.mpr hCut
          simp only [List.length_append, List.length_singleton]
          omega
        start := (hDone _).mpr (.inl hFilling.start)
        head := by
          rw [List.head?_append, hFilling.head]
          rfl
        increasing := by
          refine List.pairwise_append.mpr
            ⟨hFilling.increasing, List.pairwise_singleton _ _,
              ?_⟩
          intro low hLow high hHigh
          rw [List.mem_singleton.mp hHigh]
          exact hAbove low ((hFilling.mem low).mp hLow).1
        mem := by
          intro value
          rw [List.mem_append, List.mem_singleton,
            hFilling.mem, hDone]
          constructor
          · rintro (⟨hIn, hBound⟩ | rfl)
            · exact ⟨.inl hIn, hBound⟩
            · exact ⟨.inr rfl, .inr hCut⟩
          · rintro ⟨hIn | rfl, hBound⟩
            · exact .inl ⟨hIn, hBound⟩
            · exact .inr rfl }
  · simp only [if_neg (mt hCuts.mp hCut)]
    exact
      { running := hRunning
        edge := rfl
        length := by
          have hLength := hFilling.length
          show state.bounds.length ≤ _ + 1
          omega
        start := (hDone _).mpr (.inl hFilling.start)
        head := hFilling.head
        increasing := hFilling.increasing
        mem := by
          intro value
          show value ∈ state.bounds ↔ _
          rw [hFilling.mem, hDone]
          constructor
          · rintro ⟨hIn, hBound⟩
            exact ⟨.inl hIn, hBound⟩
          · rintro ⟨hIn | rfl, hBound⟩
            · exact ⟨hIn, hBound⟩
            · rcases hBound with hSame | hOther
              · exact absurd hSame (ne_of_gt hFirst)
              · exact absurd hOther hCut }

theorem filling_foldl
    (hBuckets : 0 < buckets)
    (hSorted : rest.Pairwise
      fun first second => first.1 < second.1)
    (hSplit : rest = done ++ todo)
    (hFilling : Filling rest buckets edges first done state) :
    Filling rest buckets edges first rest
      (todo.foldl (Boundaries.next buckets edges) state) := by
  induction todo generalizing done state with
  | nil =>
    rw [List.append_nil] at hSplit
    rw [hSplit] at hFilling ⊢
    exact hFilling
  | cons entry todo ih =>
    rw [List.foldl_cons]
    refine ih ?_
      (filling_next hBuckets hSorted hSplit hFilling)
    rw [List.append_assoc]
    exact hSplit

/- The first entry only starts the list. -/
theorem filling_start
    (rest : Counter ρ)
    (edges : ℕ → ℚ)
    (entry : ρ × ℕ)
    (hBuckets : 0 < buckets) :
    Filling rest buckets edges entry.1 [entry]
      (Boundaries.next buckets edges
        { bounds := [entry.1], running := 0, edge := 1 }
        entry) := by
  have hLast : [entry.1].getLast? = some entry.1 := rfl
  have hBehind : ∀ below < 1, 0 < below →
      edges below ≤ (0 + entry.2 : ℕ) := by
    omega
  have hPass := passEdges_eq (0 + entry.2) entry.1 hLast
    (Nat.le_refl (buckets - 1)) Nat.one_pos hBuckets hBehind
  rw [addBound_last hLast, if_pos rfl, ite_self] at hPass
  simp only [Boundaries.next, hPass]
  exact
    { running := by simp
      edge := rfl
      length := by simp
      start := by simp
      head := rfl
      increasing := List.pairwise_singleton _ _
      mem := by simp }

end Filling

--
-- Boundaries
--

section Boundaries

variable {ρ : Type} [LinearOrder ρ]
variable {rest : Counter ρ} {buckets : ℕ}

variable {values : List ρ} {value : ρ}

theorem le_of_getLast?
    (hGrows : values.Pairwise (· < ·))
    {last : ρ}
    (hLast : values.getLast? = some last)
    (hMem : value ∈ values) : value ≤ last := by
  rcases List.getLast?_eq_some_iff.mp hLast with ⟨front, rfl⟩
  rcases List.mem_append.mp hMem with hFront | hIn
  · exact le_of_lt ((List.pairwise_append.mp hGrows).2.2
      value hFront last (.head _))
  · exact le_of_eq (List.mem_singleton.mp hIn)

theorem le_of_head?
    (hGrows : values.Pairwise (· < ·))
    {first : ρ}
    (hFirst : values.head? = some first)
    (hMem : value ∈ values) : first ≤ value := by
  rcases List.head?_eq_some_iff.mp hFirst with ⟨back, rfl⟩
  rcases List.mem_cons.mp hMem with rfl | hBack
  · exact le_refl _
  · exact le_of_lt ((List.pairwise_cons.mp hGrows).1
      value hBack)

/- The edges for some entries. -/
def edgesOf (rest : Counter ρ) (buckets : ℕ) : ℕ → ℚ :=
  edgeAt (rest.map Prod.snd).sum buckets

/- What there is to say of boundaries. -/
structure Buckets
    (rest : Counter ρ)
    (buckets : ℕ)
    (bounds : List ρ) : Prop where
  head : bounds.head? = (rest.map Prod.fst).head?
  last : bounds.getLast? = (rest.map Prod.fst).getLast?
  increasing : bounds.Pairwise (· < ·)
  length : bounds.length ≤ buckets + 1
  mem : ∀ value, value ∈ bounds ↔
    value ∈ rest.map Prod.fst ∧
      (some value = (rest.map Prod.fst).head? ∨
        some value = (rest.map Prod.fst).getLast? ∨
        Cuts buckets (edgesOf rest buckets) rest value)

theorem equiDepth_buckets
    (hBuckets : 0 < buckets)
    (hSorted : rest.Pairwise
      fun first second => first.1 < second.1)
    (hTotal : (rest.map Prod.snd).sum ≠ 0)
    (hTwo : 2 ≤ rest.length) :
    Buckets rest buckets (equiDepth rest buckets) := by
  have hGrows := List.pairwise_map.mpr hSorted
  cases rest with
  | nil => exact absurd hTwo (by simp)
  | cons start more =>
    have hNot : ¬ (((start :: more).map Prod.snd).sum = 0 ∨
        (start :: more).length < 2) := by
      rintro (hZero | hShort)
      · exact hTotal hZero
      · omega
    have hSome : (start :: more).getLast?.isSome := by simp
    rcases Option.isSome_iff_exists.mp hSome with ⟨stop, hStop⟩
    have hEnd := filling_foldl hBuckets hSorted
      (List.singleton_append).symm
      (filling_start (start :: more)
        (edgesOf (start :: more) buckets) start hBuckets)
    unfold equiDepth
    rw [if_neg hNot, hStop, List.head?_cons]
    simp only [List.foldl_cons]
    unfold edgesOf at hEnd
    generalize more.foldl _ _ = state at hEnd ⊢
    rcases hEnd.last with ⟨last, hLast, hDrawn⟩
    have hStop' : ((start :: more).map
        Prod.fst).getLast? = some stop.1 := by
      rw [List.getLast?_map, hStop]
      rfl
    have hLe := le_of_getLast? hGrows hStop' hDrawn
    have hStopMem : stop.1 ∈ (start :: more).map Prod.fst :=
      List.mem_of_getLast? hStop'
    have hMost := reached_le buckets
      (edgeAt ((start :: more).map Prod.snd).sum buckets)
      state.running
    have hEdge := hEnd.edge
    have hLength := hEnd.length
    rw [addBound_last hLast]
    split
    · rename_i hSame
      exact
        { head := hEnd.head
          last := by rw [hLast, hStop', hSame]
          increasing := hEnd.increasing
          length := by omega
          mem := by
            intro value
            rw [hEnd.mem, hStop', List.map_cons,
              List.head?_cons, Option.some_inj,
              Option.some_inj]
            constructor
            · rintro ⟨hIn, hFirst | hCut⟩
              · exact ⟨hIn, .inl hFirst⟩
              · exact ⟨hIn, .inr (.inr hCut)⟩
            · rintro ⟨hIn, hFirst | rfl | hCut⟩
              · exact ⟨hIn, .inl hFirst⟩
              · exact (hEnd.mem _).mp
                  (hSame ▸ List.mem_of_getLast? hLast)
              · exact ⟨hIn, .inr hCut⟩ }
    · rename_i hOther
      have hLess := lt_of_le_of_ne hLe (Ne.symm hOther)
      exact
        { head := by
            rw [List.head?_append, hEnd.head]
            rfl
          last := by rw [List.getLast?_concat, hStop']
          increasing := by
            refine List.pairwise_append.mpr
              ⟨hEnd.increasing, List.pairwise_singleton _ _, ?_⟩
            intro low hLow high hHigh
            rw [List.mem_singleton.mp hHigh]
            exact lt_of_le_of_lt (le_of_getLast?
              hEnd.increasing hLast hLow) hLess
          length := by
            simp only [List.length_append,
              List.length_singleton]
            omega
          mem := by
            intro value
            rw [List.mem_append, List.mem_singleton,
              hEnd.mem, hStop', List.map_cons,
              List.head?_cons, Option.some_inj,
              Option.some_inj]
            constructor
            · rintro (⟨hIn, hFirst | hCut⟩ | rfl)
              · exact ⟨hIn, .inl hFirst⟩
              · exact ⟨hIn, .inr (.inr hCut)⟩
              · exact ⟨hStopMem, .inr (.inl rfl)⟩
            · rintro ⟨hIn, hFirst | rfl | hCut⟩
              · exact .inl ⟨hIn, .inl hFirst⟩
              · exact .inr rfl
              · exact .inl ⟨hIn, .inr hCut⟩ }

end Boundaries

--
-- Even Shares
--

section Shares

variable {ρ : Type} [LinearOrder ρ]

variable {xs : List ρ}

/- Of a growing list, what holds of each two neighbours. -/
theorem isChain_iff_adjacent
    {R : ρ → ρ → Prop}
    (hGrows : xs.Pairwise (· < ·)) :
    xs.IsChain R ↔
      ∀ low ∈ xs, ∀ high ∈ xs, low < high →
        (∀ mid ∈ xs, mid ≤ low ∨ high ≤ mid) → R low high := by
  induction xs with
  | nil => simp
  | cons x xs ih =>
    rcases List.pairwise_cons.mp hGrows with ⟨hLeast, hRest⟩
    cases xs with
    | nil => simp
    | cons y ys =>
      rw [List.isChain_cons_cons, ih hRest]
      constructor
      · rintro ⟨hFirst, hTail⟩ low hLow high hHigh hLess
          hMid
        have hAbove : high ∈ y :: ys := by
          rcases List.mem_cons.mp hHigh with rfl | hIn
          · rcases List.mem_cons.mp hLow with rfl | hLow
            · exact absurd hLess (lt_irrefl _)
            · exact absurd hLess
                (not_lt.mpr (le_of_lt (hLeast low hLow)))
          · exact hIn
        rcases List.mem_cons.mp hLow with rfl | hLow
        · rcases hMid y (by simp) with hBelow | hBeyond
          · exact absurd (hLeast y (by simp))
              (not_lt.mpr hBelow)
          · rcases List.mem_cons.mp hAbove with rfl | hIn
            · exact hFirst
            · exact absurd ((List.pairwise_cons.mp
                hRest).1 high hIn) (not_lt.mpr hBeyond)
        · exact hTail low hLow high hAbove hLess
            fun mid hIn => hMid mid
              (.tail _ hIn)
      · intro hAll
        refine ⟨hAll x (by simp) y (by simp)
          (hLeast y (by simp)) ?_, ?_⟩
        · intro mid hIn
          rcases List.mem_cons.mp hIn with rfl | hIn
          · exact .inl (le_refl _)
          · rcases List.mem_cons.mp hIn with rfl | hIn
            · exact .inr (le_refl _)
            · exact .inr (le_of_lt
                ((List.pairwise_cons.mp hRest).1 mid hIn))
        · intro low hLow high hHigh hLess hMid
          refine hAll low (.tail _ hLow) high
            (.tail _ hHigh) hLess ?_
          intro mid hIn
          rcases List.mem_cons.mp hIn with rfl | hIn
          · exact .inl (le_of_lt (hLeast low hLow))
          · exact hMid mid hIn

variable {rest : Counter ρ} {buckets : ℕ} {bounds : List ρ}

/- What an even share of the rows comes to. -/
def depth (rest : Counter ρ) (buckets : ℕ) : ℚ :=
  ((rest.map Prod.snd).sum : ℕ) / buckets

/- No more rows between two boundaries than an even share and
   the upper one's own. -/
def Shares
    (rest : Counter ρ)
    (buckets : ℕ)
    (low high : ρ) : Prop :=
  (rowsBetween rest low high : ℚ) ≤
    depth rest buckets + own rest high

/- Below the greatest value, two values that no edge is reached
   between have no more than an even share of the rows between
   them. -/
def EvenlyCut (rest : Counter ρ) (buckets : ℕ) : Prop :=
  ∀ low ∈ rest.map Prod.fst, ∀ high ∈ rest.map Prod.fst,
    (∃ more ∈ rest.map Prod.fst, high < more) →
    reached buckets (edgesOf rest buckets) (upTo rest low) =
      reached buckets (edgesOf rest buckets)
        (upTo rest high) →
      (rowsBetween rest low high : ℚ) ≤ depth rest buckets

/- One value right after another. -/
structure Next (rest : Counter ρ) (low high : ρ) : Prop where
  low_mem : low ∈ rest.map Prod.fst
  high_mem : high ∈ rest.map Prod.fst
  less : low < high
  mid : ∀ value ∈ rest.map Prod.fst, value ≤ low ∨ high ≤ value

variable {low high : ρ}

theorem Next.before_eq
    (hNext : Next rest low high) :
    rowsBefore rest high = upTo rest low := by
  refine rows_congr fun entry hMem => ?_
  rw [decide_eq_decide]
  constructor
  · intro hLess
    exact (hNext.mid entry.1
      (List.mem_map_of_mem hMem)).resolve_right
        (not_le.mpr hLess)
  · exact fun hLe => lt_of_le_of_lt hLe hNext.less

theorem values_next
    (hSorted : (rest.map Prod.fst).Pairwise (· < ·)) :
    (rest.map Prod.fst).IsChain (Next rest) :=
  (isChain_iff_adjacent hSorted).mpr
    fun _ hLow _ hHigh hLess hMid =>
      ⟨hLow, hHigh, hLess, hMid⟩

variable {value : ρ}

/- Every value but the first comes right after another. -/
theorem exists_next
    (hSorted : (rest.map Prod.fst).Pairwise (· < ·))
    (hMem : value ∈ rest.map Prod.fst) :
    some value = (rest.map Prod.fst).head? ∨
      ∃ low, Next rest low value := by
  refine (values_next hSorted).induction
    (fun value => some value = (rest.map Prod.fst).head? ∨
      ∃ low, Next rest low value) _ ?_ ?_ value hMem
  · exact fun low _ hNext _ => .inr ⟨low, hNext⟩
  · intro hSome
    exact .inl (List.head?_eq_some_head hSome).symm

theorem Buckets.mem_values
    (hBuckets : Buckets rest buckets bounds)
    (hMem : value ∈ bounds) : value ∈ rest.map Prod.fst :=
  ((hBuckets.mem value).mp hMem).1

/- No edge is reached between neighbouring boundaries. -/
theorem Buckets.reached_between
    (hBuckets : Buckets rest buckets bounds)
    (hSorted : (rest.map Prod.fst).Pairwise (· < ·))
    (hLow : low ∈ rest.map Prod.fst)
    (hMid : ∀ mid ∈ bounds, mid ≤ low ∨ high ≤ mid) :
    ∀ value ∈ rest.map Prod.fst, low ≤ value → value < high →
      reached buckets (edgesOf rest buckets)
          (upTo rest value) =
        reached buckets (edgesOf rest buckets)
          (upTo rest low) := by
  refine (values_next hSorted).induction
    (fun value => low ≤ value → value < high →
      reached buckets (edgesOf rest buckets)
          (upTo rest value) =
        reached buckets (edgesOf rest buckets)
          (upTo rest low)) _ ?_ ?_
  · intro value next hNext ih hAbove hBelow
    rcases eq_or_lt_of_le hAbove with rfl | hLess
    · rfl
    -- The value next to one between the two is no boundary.
    have hNot : ¬ Cuts buckets (edgesOf rest buckets) rest
        next := by
      intro hCut
      have hBound := (hBuckets.mem next).mpr
        ⟨hNext.high_mem, .inr (.inr hCut)⟩
      rcases hMid next hBound with hLe | hGe
      · exact absurd hLess (not_lt.mpr hLe)
      · exact absurd hBelow (not_lt.mpr hGe)
    have hFrom : low ≤ value :=
      (hNext.mid low hLow).resolve_right (not_le.mpr hLess)
    rw [← ih hFrom (hNext.less.trans hBelow), ← hNext.before_eq]
    refine (Nat.le_antisymm (reached_mono _ _ ?_)
      (not_lt.mp hNot)).symm
    rw [upTo_own]
    exact Nat.le_add_right _ _
  · intro hSome hAbove _
    have hFirst := le_of_head? hSorted
      (List.head?_eq_some_head hSome) hLow
    rw [le_antisymm hFirst hAbove]

variable {p : ρ → Prop}

theorem exists_greatest
    (hSome : ∃ x ∈ xs, p x) :
    ∃ x ∈ xs, p x ∧ ∀ y ∈ xs, p y → y ≤ x := by
  classical
  rcases hSome with ⟨x, hMem, hHolds⟩
  rcases Finset.exists_max_image (xs.toFinset.filter p) id
    ⟨x, by simp [hMem, hHolds]⟩ with ⟨most, hIn, hMost⟩
  rw [Finset.mem_filter, List.mem_toFinset] at hIn
  refine ⟨most, hIn.1, hIn.2, fun y hY hOther => ?_⟩
  exact hMost y (by simp [hY, hOther])

theorem exists_least
    (hSome : ∃ x ∈ xs, p x) :
    ∃ x ∈ xs, p x ∧ ∀ y ∈ xs, p y → x ≤ y :=
  exists_greatest (ρ := ρᵒᵈ) hSome

/- Two values that an edge is not reached between lie between
   two neighbouring boundaries. -/
theorem Buckets.exists_around
    (hBuckets : Buckets rest buckets bounds)
    (hSorted : (rest.map Prod.fst).Pairwise (· < ·))
    {more : ρ}
    (hLow : low ∈ rest.map Prod.fst)
    (hMore : more ∈ rest.map Prod.fst)
    (hLess : high < more)
    (hSame : reached buckets (edgesOf rest buckets)
        (upTo rest low) =
      reached buckets (edgesOf rest buckets)
        (upTo rest high)) :
    ∃ start ∈ bounds, ∃ stop ∈ bounds, start ≤ low ∧
      high < stop ∧
      ∀ mid ∈ bounds, mid ≤ start ∨ stop ≤ mid := by
  have hValues : rest.map Prod.fst ≠ [] :=
    List.ne_nil_of_mem hLow
  have hHead := hBuckets.head
  have hLast := hBuckets.last
  rw [List.head?_eq_some_head hValues] at hHead
  rw [List.getLast?_eq_some_getLast hValues] at hLast
  have hFirst := le_of_head? hSorted
    (List.head?_eq_some_head hValues) hLow
  have hEnd := le_of_getLast? hSorted
    (List.getLast?_eq_some_getLast hValues) hMore
  rcases exists_greatest (p := fun value => value ≤ low)
    ⟨_, List.mem_of_head? hHead, hFirst⟩ with
    ⟨start, hStart, hBelow, hMost⟩
  rcases exists_least (p := fun value => high < value)
    ⟨_, List.mem_of_getLast? hLast,
      lt_of_lt_of_le hLess hEnd⟩ with
    ⟨stop, hStop, hAbove, hLeast⟩
  refine ⟨start, hStart, stop, hStop, hBelow, hAbove, ?_⟩
  intro mid hMid
  rcases le_or_gt mid low with hUnder | hOver
  · exact .inl (hMost mid hMid hUnder)
  rcases lt_or_ge high mid with hBeyond | hWithin
  · exact .inr (hLeast mid hMid hBeyond)
  -- An edge would be reached at a boundary between the two.
  exfalso
  rcases (hBuckets.mem mid).mp hMid with ⟨_, hIs | hIs | hCut⟩
  · have hLe := le_of_head? hSorted hIs.symm hLow
    exact absurd hOver (not_lt.mpr hLe)
  · have hLe := le_of_getLast? hSorted hIs.symm hMore
    exact absurd (lt_of_le_of_lt hWithin hLess)
      (not_lt.mpr hLe)
  · have hFrom := reached_mono buckets (edgesOf rest buckets)
      (upTo_before rest hOver)
    have hTo := reached_mono buckets (edgesOf rest buckets)
      (upTo_mono rest hWithin)
    unfold Cuts at hCut
    omega

omit [LinearOrder ρ] in
theorem depth_nonneg (rest : Counter ρ) (buckets : ℕ) :
    0 ≤ depth rest buckets :=
  div_nonneg (Nat.cast_nonneg _) (Nat.cast_nonneg _)

theorem rowsBetween_back
    (buckets : ℕ)
    (hBack : high < low) :
    (rowsBetween rest low high : ℚ) ≤ depth rest buckets := by
  have hNone : rowsBetween rest low high = 0 :=
    rows_none fun entry _ => by
      simp only [Bool.and_eq_false_iff,
        decide_eq_false_iff_not, not_lt, not_le]
      exact (le_or_gt entry.1 low).imp_right hBack.trans
  rw [hNone]
  exact_mod_cast depth_nonneg rest buckets

/- An even cut is what makes the shares even. -/
theorem Buckets.shares_iff
    (hBuckets : Buckets rest buckets bounds)
    (hSorted : (rest.map Prod.fst).Pairwise (· < ·)) :
    bounds.IsChain (Shares rest buckets) ↔
      EvenlyCut rest buckets := by
  rw [isChain_iff_adjacent hBuckets.increasing]
  constructor
  · rintro hShares low hLow high hHigh ⟨more, hMore, hLess⟩
      hSame
    rcases lt_or_ge high low with hBack | hOrder
    · exact rowsBetween_back buckets hBack
    rcases hBuckets.exists_around hSorted hLow hMore hLess
      hSame with
      ⟨start, hStart, stop, hStop, hBelow, hAbove, hMid⟩
    have hWide := hShares start hStart stop hStop
      (lt_of_le_of_lt (hBelow.trans hOrder) hAbove) hMid
    have hInner := upTo_between rest hOrder
    have hOuter := upTo_between rest
      ((hBelow.trans hOrder).trans (le_of_lt hAbove))
    have hOwn := upTo_own rest stop
    have hFrom := upTo_mono rest hBelow
    have hTo := upTo_before rest hAbove
    have hFewer : rowsBetween rest low high +
        own rest stop ≤ rowsBetween rest start stop := by
      omega
    have hCast : (rowsBetween rest low high : ℚ) +
        own rest stop ≤ rowsBetween rest start stop := by
      exact_mod_cast hFewer
    unfold Shares at hWide
    linarith
  · intro hEven low hLow high hHigh hLess hMid
    have hLowMem := hBuckets.mem_values hLow
    rcases exists_next hSorted (hBuckets.mem_values hHigh) with
      hFirst | ⟨last, hNext⟩
    · have hLe := le_of_head? hSorted hFirst.symm hLowMem
      exact absurd hLess (not_lt.mpr hLe)
    have hFrom : low ≤ last :=
      (hNext.mid low hLowMem).resolve_right
        (not_le.mpr hLess)
    have hSame := hBuckets.reached_between hSorted hLowMem
      hMid last hNext.low_mem hFrom hNext.less
    have hShare := hEven low hLowMem last hNext.low_mem
      ⟨high, hNext.high_mem, hNext.less⟩ hSame.symm
    have hInner := upTo_between rest hFrom
    have hOuter := upTo_between rest (le_of_lt hLess)
    have hOwn := upTo_own rest high
    rw [hNext.before_eq] at hOwn
    have hRows : rowsBetween rest low high =
        rowsBetween rest low last + own rest high := by
      omega
    unfold Shares
    rw [hRows]
    push_cast
    linarith

/- While the edges are whole numbers of bits, they are where
   they ought to be. -/
theorem edgeAt_exact
    {total edge : ℕ}
    (hEdge : 0 < edge)
    (hFew : edge * total < 2 ^ 53) :
    edgeAt total statisticsTarget edge =
      edge * (total / statisticsTarget) := by
  have hTotal : total < 2 ^ 53 :=
    (Nat.le_mul_of_pos_left total hEdge).trans_lt hFew
  have hTarget : (statisticsTarget : ℚ) = 2 ^ 5 := by
    norm_num [statisticsTarget]
  have hStep := Library.Rounding.toDouble_exact (i := 5) hTotal
  have hExact := Library.Rounding.toDouble_exact (i := 5) hFew
  unfold edgeAt
  rw [hTarget, hStep, ← mul_div_assoc, ← Nat.cast_mul, hExact]

theorem evenlyCut_of_few
    (hFew : 31 * (rest.map Prod.snd).sum < 2 ^ 53) :
    EvenlyCut rest statisticsTarget := by
  rintro low hLow high hHigh _ hSame
  rcases lt_or_ge high low with hBack | hOrder
  · exact rowsBetween_back statisticsTarget hBack
  generalize hTotal : (rest.map Prod.snd).sum = total at hFew
  generalize hEdges : edgesOf rest statisticsTarget = edges
    at hSame
  have hDepth : depth rest statisticsTarget = total / 32 := by
    unfold depth
    rw [hTotal]
    rfl
  have hExact : ∀ edge, 0 < edge → edge ≤ 31 →
      edges edge = edge * (total / 32) := by
    intro edge hPos hLe
    have hMul : edge * total ≤ 31 * total :=
      Nat.mul_le_mul_right total hLe
    rw [← hEdges, edgesOf, hTotal,
      edgeAt_exact hPos (hMul.trans_lt hFew)]
    rfl
  have hInner := upTo_between rest hOrder
  have hRows : (upTo rest high : ℚ) = upTo rest low +
      rowsBetween rest low high := by
    exact_mod_cast hInner
  have hMost : (upTo rest high : ℚ) ≤ total := by
    exact_mod_cast hTotal ▸ rows_le _ rest
  rw [hDepth]
  generalize hCount :
    reached statisticsTarget edges (upTo rest high) = count
    at hSame
  have hLe : count ≤ 31 := hCount ▸ reached_le _ edges _
  -- The rows up to the lower value reach the last edge.
  have hFrom : (count : ℚ) * (total / 32) ≤ upTo rest low := by
    rcases Nat.eq_zero_or_pos count with hZero | hPos
    · rw [hZero]
      simp
    · rw [← hExact count hPos hLe]
      exact reached_all statisticsTarget edges _
        hPos hSame.ge
  rcases Nat.lt_or_ge count 31 with hLess | hAll
  · have hNot : ¬ edges (count + 1) ≤ upTo rest high := by
      intro hPast
      have hMore : count + 1 ≤
          reached statisticsTarget edges (upTo rest high) := by
        refine le_reached (by unfold statisticsTarget; omega)
          fun below hBelow hPos => ?_
        rcases Nat.lt_succ_iff_lt_or_eq.mp
          (Nat.lt_succ_of_le hBelow) with hIn | rfl
        · exact reached_all statisticsTarget
            edges _ hPos (by omega)
        · exact hPast
      omega
    rw [hExact (count + 1) (by omega) (by omega)] at hNot
    push_cast at hNot
    linarith
  · have hCast : (count : ℚ) = 31 := by
      exact_mod_cast le_antisymm hLe hAll
    rw [hCast] at hFrom
    linarith

end Shares

--
-- Most Common Values
--

section Sorting

theorem sortedBy_perm {α : Type}
    (before : α → α → Bool)
    (xs : List α) :
    (sortedBy before xs).Perm xs :=
  List.mergeSort_perm _ _

theorem sortedBy_pairwise {α ω : Type} [LinearOrder ω]
    {before : α → α → Bool}
    {key : α → ω}
    (hBefore : ∀ first second,
      before first second = decide (key first < key second))
    (xs : List α) :
    (sortedBy before xs).Pairwise
      fun first second => key first ≤ key second := by
  have hLe : (fun first second => !before second first) =
      fun first second => decide (key first ≤ key second) := by
    funext first second
    rw [hBefore, ← decide_not, decide_eq_decide, not_lt]
  unfold sortedBy
  rw [hLe]
  refine (List.pairwise_mergeSort ?_ ?_ xs).imp
    of_decide_eq_true
  · intro first second third hFirst hSecond
    exact decide_eq_true ((of_decide_eq_true hFirst).trans
      (of_decide_eq_true hSecond))
  · intro first second
    simpa using le_total (key first) (key second)

variable {ρ : Type} [LinearOrder ρ]

theorem commonBefore_key (first second : ρ × ℕ) :
    commonBefore first second =
      decide (toLex (OrderDual.toDual first.2, first.1) <
        toLex (OrderDual.toDual second.2, second.1)) := by
  rw [Bool.eq_iff_iff, decide_eq_true_eq, Prod.Lex.lt_iff]
  unfold commonBefore
  by_cases hSame : first.2 = second.2
  · simp only [hSame, if_true, ofLex_toLex, lt_irrefl,
      false_or, true_and]
    show (!decide _ && decide _) = true ↔ _
    simp only [Bool.and_eq_true, Bool.not_eq_true',
      decide_eq_false_iff_not, decide_eq_true_eq]
    exact ⟨fun hBoth => hBoth.2, fun hLess =>
      ⟨ne_of_lt hLess, hLess⟩⟩
  · simp [hSame]

theorem valueBefore_key (first second : ρ × ℕ) :
    valueBefore first second =
      decide (toLex first < toLex second) := by
  rw [Bool.eq_iff_iff, decide_eq_true_eq, Prod.Lex.lt_iff]
  unfold valueBefore
  show (if decide (first.1 = second.1) = true then _
    else decide _) = true ↔ _
  by_cases hSame : first.1 = second.1
  · simp [hSame]
  · simp [hSame]

end Sorting

section Summary

variable {ρ : Type} [LinearOrder ρ]

/- A summary of more values than its list holds. -/
structure Splits
    (counts : Counter ρ)
    (mostCommon rest : Counter ρ) : Prop where
  length : mostCommon.length = statisticsTarget
  perm : (mostCommon ++ rest).Perm counts
  common : ∀ entry ∈ mostCommon, ∀ other ∈ rest,
    other.2 ≤ entry.2
  sorted : rest.Pairwise
    fun first second => first.1 < second.1

variable {counts : Counter ρ}

theorem restOf_perm
    {front back : Counter ρ}
    (hNodup : (counts.map Prod.fst).Nodup)
    (hPerm : (front ++ back).Perm counts) :
    (restOf front counts).Perm back := by
  have hApart := (List.nodup_append.mp
    (List.map_append ▸ (hPerm.map Prod.fst).nodup_iff.mpr
      hNodup)).2.2
  refine (sortedBy_perm _ _).trans
    ((hPerm.symm.filter _).trans ?_)
  rw [List.filter_append]
  have hFront : front.filter (fun entry =>
      !front.any fun common =>
        Comparable.same common.1 entry.1) = [] := by
    refine List.filter_eq_nil_iff.mpr fun entry hMem => ?_
    rw [Bool.not_eq_true', Bool.not_eq_false, List.any_eq_true]
    exact ⟨entry, hMem, decide_eq_true rfl⟩
  have hBack : back.filter (fun entry =>
      !front.any fun common =>
        Comparable.same common.1 entry.1) = back := by
    refine List.filter_eq_self.mpr fun entry hMem => ?_
    rw [Bool.not_eq_true', List.any_eq_false]
    intro common hCommon hSame
    exact hApart common.1 (List.mem_map_of_mem hCommon)
      entry.1 (List.mem_map_of_mem hMem)
      (of_decide_eq_true hSame)
  rw [hFront, hBack, List.nil_append]

theorem restOf_sorted
    {mostCommon : Counter ρ}
    (hNodup : (counts.map Prod.fst).Nodup) :
    (restOf mostCommon counts).Pairwise
      fun first second => first.1 < second.1 := by
  have hKeys : ((restOf mostCommon counts).map
      Prod.fst).Nodup :=
    ((sortedBy_perm _ _).map Prod.fst).nodup_iff.mpr
      (hNodup.sublist (List.filter_sublist.map Prod.fst))
  have hOrder := sortedBy_pairwise valueBefore_key
    (counts.filter fun entry => !mostCommon.any fun common =>
      Comparable.same common.1 entry.1)
  refine (hOrder.and (List.pairwise_map.mp hKeys)).imp ?_
  rintro first second ⟨hLe, hNe⟩
  rcases Prod.Lex.le_iff.mp hLe with hLess | ⟨hSame, _⟩
  · exact hLess
  · exact absurd hSame hNe

theorem summarise_complete
    (hFew : counts.length ≤ statisticsTarget) :
    (summarise counts).1.Perm counts ∧
      (summarise counts).2 = [] := by
  unfold summarise
  split
  · rename_i hNone
    rw [List.isEmpty_iff.mp hNone]
    exact ⟨List.Perm.refl _, rfl⟩
  · rw [if_pos]
    · exact ⟨sortedBy_perm _ _, rfl⟩
    · rw [(sortedBy_perm _ _).length_eq]
      exact hFew

theorem summarise_splits
    (hNodup : (counts.map Prod.fst).Nodup)
    (hMany : statisticsTarget < counts.length) :
    Splits counts (summarise counts).1
        (restOf (summarise counts).1 counts) ∧
      (summarise counts).2 =
        equiDepth (restOf (summarise counts).1 counts)
          statisticsTarget := by
  have hLength := (sortedBy_perm commonBefore
    counts).length_eq
  unfold summarise
  rw [if_neg]
  · simp only
    rw [if_neg (by rw [hLength]; omega)]
    refine ⟨?_, rfl⟩
    have hPerm : ((sortedBy commonBefore counts).take
        statisticsTarget ++
          (sortedBy commonBefore counts).drop
            statisticsTarget).Perm counts := by
      rw [List.take_append_drop]
      exact sortedBy_perm _ _
    have hRest := restOf_perm hNodup hPerm
    have hOrder := sortedBy_pairwise commonBefore_key counts
    rw [← List.take_append_drop statisticsTarget
      (sortedBy commonBefore counts)] at hOrder
    exact
      { length := by
          rw [List.length_take, hLength]
          omega
        perm := (hRest.append_left _).trans hPerm
        common := by
          intro entry hEntry other hOther
          have hLe := (List.pairwise_append.mp hOrder).2.2
            entry hEntry other (hRest.mem_iff.mp hOther)
          rcases Prod.Lex.le_iff.mp hLe with
            hLess | ⟨hSame, _⟩
          · exact le_of_lt hLess
          · exact le_of_eq (OrderDual.toDual.injective
              hSame).symm
        sorted := restOf_sorted hNodup }
  · intro hNone
    rw [List.isEmpty_iff.mp hNone] at hMany
    exact absurd hMany (by simp)

end Summary

--
-- Count Tables
--

section Tables

variable {κ ρ : Type} [Comparable κ] [LinearOrder ρ]

/- What a `Counter` of the values of a column is: values that
   can be sorted, each there once, and each seen. -/
structure IsCountTable
    (rank : κ → ρ)
    (counts : Counter κ) : Prop where
  ranks : Ranks rank (· ∈ counts.map Prod.fst)
  once : (counts.map fun entry => rank entry.1).Nodup
  seen : ∀ entry ∈ counts, 0 < entry.2

/- What is left outside the most common values. -/
def remaining (counts : Counter κ) : Counter κ :=
  counts.filter fun entry =>
    !(summarise counts).1.any fun common =>
      Comparable.same common.1 entry.1

/- Boundaries that grow from the least value to the greatest,
   and are not too many. -/
structure Outlines
    (rest : Counter κ)
    (bounds : List κ) : Prop where
  increasing : bounds.Pairwise fun low high =>
    Comparable.less low high = true
  smallest : ∃ first, bounds.head? = some first ∧
    first ∈ rest.map Prod.fst ∧
    ∀ entry ∈ rest, Comparable.less entry.1 first = false
  largest : ∃ last, bounds.getLast? = some last ∧
    last ∈ rest.map Prod.fst ∧
    ∀ entry ∈ rest, Comparable.less last entry.1 = false
  number : bounds.length ≤ statisticsTarget + 1

/- The rows of the values above one and up to another. -/
def rowsWithin (rest : Counter κ) (low high : κ) : ℕ :=
  rows (fun value => Comparable.less low value &&
    !Comparable.less high value) rest

/- An even share of the rows, taken exactly. -/
def evenShare (rest : Counter κ) : ℚ :=
  ((rest.map Prod.snd).sum : ℕ) / statisticsTarget

/- With no more rows between two of them than an even share
   and those of the upper one. -/
structure IsEquiDepth
    (rest : Counter κ)
    (bounds : List κ) : Prop extends Outlines rest bounds where
  depth : bounds.IsChain fun low high =>
    (rowsWithin rest low high : ℚ) ≤ evenShare rest +
      rows (fun value => Comparable.same value high) rest

/- How many edges the rows up to a value reach, one after the
   other. -/
def reachedBy (rest : Counter κ) (value : κ) : ℕ :=
  reached statisticsTarget
    (edgeAt (rest.map Prod.snd).sum statisticsTarget)
    (rows (fun other => !Comparable.less value other) rest)

/-
  The rows are cut where they ought to be: between two values
  that as many edges are reached by, the upper one of which is
  not the greatest, lies no more than an even share of them.
-/
def CutEvenly (rest : Counter κ) : Prop :=
  ∀ low ∈ rest.map Prod.fst, ∀ high ∈ rest.map Prod.fst,
    (∃ more ∈ rest.map Prod.fst,
      Comparable.less high more = true) →
    reachedBy rest low = reachedBy rest high →
      (rowsWithin rest low high : ℚ) ≤ evenShare rest

variable {bound : κ}

theorem mem_equiDepth
    {rest : Counter κ}
    {buckets : ℕ}
    (hMem : bound ∈ equiDepth rest buckets) :
    bound ∈ rest.map Prod.fst := by
  unfold equiDepth at hMem
  simp only at hMem
  split at hMem
  · cases hMem
  · split at hMem
    · rename_i first last hFirst hLast
      have hStart := List.mem_map_of_mem (f := Prod.fst)
        (List.mem_of_head? hFirst)
      have hStop := List.mem_map_of_mem (f := Prod.fst)
        (List.mem_of_getLast? hLast)
      rcases mem_addBound hMem with hOld | rfl
      · rcases mem_foldl_next hOld with hOld | hNew
        · rw [List.mem_singleton.mp hOld]
          exact hStart
        · exact hNew
      · exact hStop
    · cases hMem

theorem mem_histogram
    {counts : Counter κ}
    (hMem : bound ∈ (summarise counts).2) :
    bound ∈ counts.map Prod.fst := by
  unfold summarise at hMem
  split at hMem
  · cases hMem
  · simp only at hMem
    split at hMem
    · cases hMem
    · rcases List.mem_map.mp (mem_equiDepth hMem) with
        ⟨entry, hEntry, rfl⟩
      exact List.mem_map_of_mem (List.mem_filter.mp
        (mem_sortedBy.mp hEntry)).1

variable {rank : κ → ρ} {counts : Counter κ}

theorem IsCountTable.nodup
    (hTable : IsCountTable rank counts) :
    ((ranked rank counts).map Prod.fst).Nodup := by
  rw [ranked, List.map_map]
  exact hTable.once

theorem IsCountTable.good
    (_ : IsCountTable rank counts) :
    ∀ entry ∈ counts, entry.1 ∈ counts.map Prod.fst :=
  fun _ hMem => List.mem_map_of_mem hMem

theorem remaining_perm (counts : Counter κ) :
    (restOf (summarise counts).1 counts).Perm
      (remaining counts) :=
  sortedBy_perm _ _

/- The summary of the ranks, where there is something left. -/
theorem IsCountTable.splits
    (hTable : IsCountTable rank counts)
    (hMany : statisticsTarget < counts.length) :
    Splits (ranked rank counts)
        (ranked rank (summarise counts).1)
        (ranked rank (restOf (summarise counts).1 counts)) ∧
      (summarise counts).2 =
        equiDepth (restOf (summarise counts).1 counts)
          statisticsTarget := by
  have hSummary := hTable.ranks.summarise hTable.good
  have hSplits := (summarise_splits hTable.nodup (by
    rw [ranked, List.length_map]
    exact hMany)).1
  rw [hSummary, ← hTable.ranks.restOf
    (fun entry hMem => hTable.good entry (mem_summarise hMem))
    hTable.good] at hSplits
  refine ⟨hSplits, ?_⟩
  unfold summarise
  have hLength := (sortedBy_perm commonBefore
    counts).length_eq
  rw [if_neg]
  · simp only
    rw [if_neg (by rw [hLength]; omega)]
  · intro hNone
    rw [List.isEmpty_iff.mp hNone] at hMany
    exact absurd hMany (by simp)

theorem IsCountTable.length_remaining
    (hTable : IsCountTable rank counts)
    (hMany : statisticsTarget < counts.length) :
    statisticsTarget + (remaining counts).length =
      counts.length := by
  have hSplits := (hTable.splits hMany).1
  have hLength := hSplits.perm.length_eq
  rw [List.length_append, hSplits.length] at hLength
  rw [← (remaining_perm counts).length_eq]
  simpa [ranked] using hLength

section Ranked

variable {good : κ → Prop} {rest : Counter κ}

omit [Comparable κ] [LinearOrder ρ] in
theorem ranked_counts (rank : κ → ρ) (rest : Counter κ) :
    (ranked rank rest).map Prod.snd = rest.map Prod.snd := by
  simp [ranked]

omit [Comparable κ] [LinearOrder ρ] in
theorem ranked_values (rank : κ → ρ) (rest : Counter κ) :
    (ranked rank rest).map Prod.fst =
      (rest.map Prod.fst).map rank := by
  simp [ranked]

theorem outlines_of_ranked
    (hSome : rest ≠ [])
    (hRanks : Ranks rank good)
    (hKeys : ∀ value ∈ rest.map Prod.fst, good value)
    (hSorted : ((ranked rank rest).map Prod.fst).Pairwise
      (· < ·))
    (hBuckets : Buckets (ranked rank rest) statisticsTarget
      ((equiDepth rest statisticsTarget).map rank)) :
    Outlines rest (equiDepth rest statisticsTarget) := by
  generalize hDef : equiDepth rest statisticsTarget = bounds
    at hBuckets ⊢
  have hDrawn : ∀ bound ∈ bounds, bound ∈ rest.map Prod.fst :=
    fun bound hMem => mem_equiDepth (hDef ▸ hMem)
  have hRankMem : ∀ entry ∈ rest,
      rank entry.1 ∈ (ranked rank rest).map Prod.fst :=
    fun entry hMem => ranked_values rank rest ▸
      List.mem_map_of_mem (List.mem_map_of_mem hMem)
  exact
    { increasing := by
        refine (List.pairwise_map.mp
          hBuckets.increasing).imp_of_mem ?_
        intro low high hLow hHigh hLess
        rw [hRanks.less (hKeys _ (hDrawn low hLow))
          (hKeys _ (hDrawn high hHigh))]
        exact decide_eq_true hLess
      smallest := by
        rcases Option.isSome_iff_exists.mp
          (List.isSome_head?.mpr hSome) with ⟨entry, hEntry⟩
        have hStart : ((ranked rank rest).map
            Prod.fst).head? = some (rank entry.1) := by
          rw [ranked_values, List.head?_map, List.head?_map,
            hEntry]
          rfl
        have hHead := hBuckets.head
        rw [hStart, List.head?_map] at hHead
        rcases Option.map_eq_some_iff.mp hHead with
          ⟨first, hFirst, hRank⟩
        have hMem := hDrawn first (List.mem_of_head? hFirst)
        refine ⟨first, hFirst, hMem, fun other hOther => ?_⟩
        have hLe := le_of_head? hSorted hStart
          (hRankMem other hOther)
        rw [hRanks.less (hKeys _
          (List.mem_map_of_mem hOther)) (hKeys _ hMem)]
        exact decide_eq_false (not_lt.mpr (hRank ▸ hLe))
      largest := by
        have hStop : ((ranked rank rest).map
            Prod.fst).getLast? =
              some (rank (rest.getLast hSome).1) := by
          rw [ranked_values, List.getLast?_map,
            List.getLast?_map,
            List.getLast?_eq_some_getLast hSome]
          rfl
        have hEnd := hBuckets.last
        rw [hStop, List.getLast?_map] at hEnd
        rcases Option.map_eq_some_iff.mp hEnd with
          ⟨last, hLast, hRank⟩
        have hMem := hDrawn last
          (List.mem_of_getLast? hLast)
        refine ⟨last, hLast, hMem, fun other hOther => ?_⟩
        have hLe := le_of_getLast? hSorted hStop
          (hRankMem other hOther)
        rw [hRanks.less (hKeys _ hMem) (hKeys _
          (List.mem_map_of_mem hOther))]
        exact decide_eq_false (not_lt.mpr (hRank ▸ hLe))
      number := by
        simpa using hBuckets.length }

omit [Comparable κ] [LinearOrder ρ] in
theorem evenShare_ranked (rank : κ → ρ) (rest : Counter κ) :
    depth (ranked rank rest) statisticsTarget =
      evenShare rest := by
  unfold depth evenShare
  rw [ranked_counts]

theorem rowsWithin_ranked
    (hRanks : Ranks rank good)
    (hKeys : ∀ value ∈ rest.map Prod.fst, good value)
    {low high : κ}
    (hLow : good low)
    (hHigh : good high) :
    rowsWithin rest low high =
      rowsBetween (ranked rank rest) (rank low)
        (rank high) := by
  refine rows_ranked rank fun entry hMem => ?_
  have hEntry := hKeys _ (List.mem_map_of_mem hMem)
  rw [hRanks.less hLow hEntry, hRanks.less hHigh hEntry,
    ← decide_not]
  simp only [not_lt]

theorem reachedBy_ranked
    (hRanks : Ranks rank good)
    (hKeys : ∀ value ∈ rest.map Prod.fst, good value)
    {value : κ}
    (hValue : good value) :
    reachedBy rest value =
      reached statisticsTarget
        (edgesOf (ranked rank rest) statisticsTarget)
        (upTo (ranked rank rest) (rank value)) := by
  have hRows : rows (fun other =>
      !Comparable.less value other) rest =
        upTo (ranked rank rest) (rank value) := by
    refine rows_ranked rank fun entry hMem => ?_
    rw [hRanks.less hValue
      (hKeys _ (List.mem_map_of_mem hMem)), ← decide_not]
    simp only [not_lt]
  unfold reachedBy edgesOf
  rw [hRows, ranked_counts]

theorem cutEvenly_ranked
    (hRanks : Ranks rank good)
    (hKeys : ∀ value ∈ rest.map Prod.fst, good value) :
    CutEvenly rest ↔
      EvenlyCut (ranked rank rest) statisticsTarget := by
  have hPair : ∀ low ∈ rest.map Prod.fst,
      ∀ high ∈ rest.map Prod.fst,
      (((∃ more ∈ rest.map Prod.fst,
          Comparable.less high more = true) ↔
        ∃ more ∈ (ranked rank rest).map Prod.fst,
          rank high < more) ∧
      (reachedBy rest low = reachedBy rest high ↔
        reached statisticsTarget
            (edgesOf (ranked rank rest) statisticsTarget)
            (upTo (ranked rank rest) (rank low)) =
          reached statisticsTarget
            (edgesOf (ranked rank rest) statisticsTarget)
            (upTo (ranked rank rest) (rank high))) ∧
      ((rowsWithin rest low high : ℚ) ≤ evenShare rest ↔
        (rowsBetween (ranked rank rest) (rank low)
            (rank high) : ℚ) ≤
          depth (ranked rank rest) statisticsTarget)) := by
    intro low hLow high hHigh
    rw [reachedBy_ranked hRanks hKeys (hKeys _ hLow),
      reachedBy_ranked hRanks hKeys (hKeys _ hHigh),
      rowsWithin_ranked hRanks hKeys (hKeys _ hLow)
        (hKeys _ hHigh), evenShare_ranked, ranked_values]
    refine ⟨?_, Iff.rfl, Iff.rfl⟩
    constructor
    · rintro ⟨more, hMore, hLess⟩
      rw [hRanks.less (hKeys _ hHigh) (hKeys _ hMore)] at hLess
      exact ⟨rank more, List.mem_map_of_mem hMore,
        of_decide_eq_true hLess⟩
    · rintro ⟨_, hMore, hLess⟩
      rcases List.mem_map.mp hMore with ⟨more, hMem, rfl⟩
      refine ⟨more, hMem, ?_⟩
      rw [hRanks.less (hKeys _ hHigh) (hKeys _ hMem)]
      exact decide_eq_true hLess
  constructor
  · intro hEven
    unfold EvenlyCut
    intro low hLow high hHigh
    rw [ranked_values] at hLow hHigh
    rcases List.mem_map.mp hLow with ⟨first, hFirst, rfl⟩
    rcases List.mem_map.mp hHigh with ⟨last, hLast, rfl⟩
    rcases hPair first hFirst last hLast with
      ⟨hMore, hSame, hRows⟩
    exact fun hBelow hReached => hRows.mp
      (hEven first hFirst last hLast (hMore.mpr hBelow)
        (hSame.mpr hReached))
  · intro hEven low hLow high hHigh hBelow hReached
    rcases hPair low hLow high hHigh with ⟨hMore, hSame, hRows⟩
    have hRank : ∀ value ∈ rest.map Prod.fst,
        rank value ∈ (ranked rank rest).map Prod.fst :=
      fun value hMem => ranked_values rank rest ▸
        List.mem_map_of_mem hMem
    exact hRows.mpr (hEven _ (hRank low hLow) _
      (hRank high hHigh) (hMore.mp hBelow)
      (hSame.mp hReached))

variable {bounds : List κ}

theorem isEquiDepth_iff
    (hRanks : Ranks rank good)
    (hKeys : ∀ value ∈ rest.map Prod.fst, good value)
    (hOutlines : Outlines rest bounds)
    (hDrawn : ∀ bound ∈ bounds, bound ∈ rest.map Prod.fst) :
    IsEquiDepth rest bounds ↔
      (bounds.map rank).IsChain
        (Shares (ranked rank rest) statisticsTarget) := by
  have hPair : ∀ low ∈ bounds, ∀ high ∈ bounds,
      ((rowsWithin rest low high : ℚ) ≤ evenShare rest +
        rows (fun value => Comparable.same value high) rest ↔
      Shares (ranked rank rest) statisticsTarget (rank low)
        (rank high)) := by
    intro low hLow high hHigh
    have hLow := hKeys _ (hDrawn low hLow)
    have hHigh := hKeys _ (hDrawn high hHigh)
    have hOwn : rows (fun value =>
        Comparable.same value high) rest =
          own (ranked rank rest) (rank high) := by
      refine rows_ranked rank fun entry hMem => ?_
      exact hRanks.same
        (hKeys _ (List.mem_map_of_mem hMem)) hHigh
    unfold Shares
    rw [rowsWithin_ranked hRanks hKeys hLow hHigh, hOwn,
      evenShare_ranked]
  rw [List.isChain_map]
  constructor
  · intro hDepth
    exact hDepth.depth.imp_of_mem_imp
      fun low high hLow hHigh => (hPair low hLow high hHigh).mp
  · intro hChain
    exact
      { hOutlines with
        depth := hChain.imp_of_mem_imp
          fun low high hLow hHigh =>
            (hPair low hLow high hHigh).mpr }

variable {more : Counter κ}

theorem Outlines.perm
    (hOutlines : Outlines rest bounds)
    (hPerm : rest.Perm more) :
    Outlines more bounds := by
  have hKeys := hPerm.map Prod.fst
  rcases hOutlines.smallest with ⟨first, hFirst, hMem, hLeast⟩
  rcases hOutlines.largest with ⟨last, hLast, hIn, hGreatest⟩
  exact
    { increasing := hOutlines.increasing
      smallest := ⟨first, hFirst, hKeys.mem_iff.mp hMem,
        fun entry hEntry =>
          hLeast entry (hPerm.mem_iff.mpr hEntry)⟩
      largest := ⟨last, hLast, hKeys.mem_iff.mp hIn,
        fun entry hEntry =>
          hGreatest entry (hPerm.mem_iff.mpr hEntry)⟩
      number := hOutlines.number }

theorem rowsWithin_perm
    (hPerm : rest.Perm more)
    (low high : κ) :
    rowsWithin rest low high = rowsWithin more low high :=
  rows_perm _ hPerm

omit [Comparable κ] in
theorem evenShare_perm
    (hPerm : rest.Perm more) :
    evenShare rest = evenShare more := by
  unfold evenShare
  rw [(hPerm.map Prod.snd).sum_eq]

theorem IsEquiDepth.perm
    (hDepth : IsEquiDepth rest bounds)
    (hPerm : rest.Perm more) :
    IsEquiDepth more bounds :=
  { hDepth.toOutlines.perm hPerm with
    depth := by
      refine hDepth.depth.imp fun low high hShare => ?_
      rw [← rowsWithin_perm hPerm, ← evenShare_perm hPerm,
        ← rows_perm _ hPerm]
      exact hShare }

theorem cutEvenly_perm
    (hPerm : rest.Perm more) :
    CutEvenly rest ↔ CutEvenly more := by
  have hKeys : ∀ value, value ∈ rest.map Prod.fst ↔
      value ∈ more.map Prod.fst :=
    fun _ => (hPerm.map Prod.fst).mem_iff
  have hReached : ∀ value,
      reachedBy rest value = reachedBy more value := by
    intro value
    unfold reachedBy
    rw [(hPerm.map Prod.snd).sum_eq, rows_perm _ hPerm]
  unfold CutEvenly
  simp only [hKeys, hReached, rowsWithin_perm hPerm,
    evenShare_perm hPerm]

end Ranked

/- The list of boundaries is what it ought to be but for the
   depth, and that exactly where the rows are cut evenly. -/
theorem summarise_iff
    (hTable : IsCountTable rank counts)
    (hMany : statisticsTarget < counts.length)
    (hRest : 2 ≤ (remaining counts).length) :
    Outlines (remaining counts) (summarise counts).2 ∧
      (IsEquiDepth (remaining counts) (summarise counts).2 ↔
        CutEvenly (remaining counts)) := by
  rcases hTable.splits hMany with ⟨hSplits, hBounds⟩
  have hPerm := remaining_perm counts
  rw [hBounds]
  generalize hDef : restOf (summarise counts).1 counts = rest
    at hSplits hPerm ⊢
  have hKeys : ∀ value ∈ rest.map Prod.fst,
      value ∈ counts.map Prod.fst := by
    intro value hMem
    rw [(hPerm.map Prod.fst).mem_iff] at hMem
    exact List.map_subset Prod.fst
      (List.filter_subset_self _) hMem
  have hGood : ∀ entry ∈ rest,
      entry.1 ∈ counts.map Prod.fst :=
    fun entry hMem => hKeys _ (List.mem_map_of_mem hMem)
  have hTwo : 2 ≤ rest.length := hPerm.length_eq ▸ hRest
  have hSome : rest ≠ [] := by
    rintro rfl
    exact absurd hTwo (by simp)
  have hTotal : ((ranked rank rest).map Prod.snd).sum ≠ 0 := by
    rcases List.exists_mem_of_ne_nil rest hSome with
      ⟨entry, hEntry⟩
    have hSeen := hTable.seen entry
      (List.mem_filter.mp (hPerm.mem_iff.mp hEntry)).1
    have hLe : entry.2 ≤ (rest.map Prod.snd).sum :=
      List.le_sum_of_mem (List.mem_map_of_mem hEntry)
    rw [ranked_counts]
    omega
  have hBuckets := equiDepth_buckets
    (by decide : 0 < statisticsTarget) hSplits.sorted hTotal
    (by
      rw [ranked, List.length_map]
      exact hTwo)
  rw [← hTable.ranks.equiDepth hGood] at hBuckets
  have hSorted := List.pairwise_map.mpr hSplits.sorted
  have hOutlines := outlines_of_ranked hSome hTable.ranks hKeys
    hSorted hBuckets
  refine ⟨hOutlines.perm hPerm, ?_⟩
  rw [← cutEvenly_perm hPerm,
    cutEvenly_ranked hTable.ranks hKeys,
    ← hBuckets.shares_iff hSorted,
    ← isEquiDepth_iff hTable.ranks hKeys hOutlines
      fun bound hMem => mem_equiDepth hMem]
  exact ⟨fun hDepth => hDepth.perm hPerm.symm,
    fun hDepth => hDepth.perm hPerm⟩

/- So they are in a table of less than `2 ^ 53 / 31` rows. -/
theorem cutEvenly_of_few
    (hTable : IsCountTable rank counts)
    (hFew : 31 * (counts.map Prod.snd).sum < 2 ^ 53) :
    CutEvenly (remaining counts) := by
  have hPart : ((remaining counts).map Prod.snd).sum ≤
      (counts.map Prod.snd).sum :=
    (List.filter_sublist.map Prod.snd).sum_le_sum
      fun _ _ => Nat.zero_le _
  have hKeys : ∀ value ∈ (remaining counts).map Prod.fst,
      value ∈ counts.map Prod.fst := fun value hMem =>
    List.map_subset Prod.fst (List.filter_subset_self _) hMem
  rw [cutEvenly_ranked hTable.ranks hKeys]
  refine evenlyCut_of_few ?_
  rw [ranked_counts]
  omega

end Tables

/- Thirty-four numbers, each seen once. -/
def numbersOnce : Counter ℕ :=
  (List.range 34).map fun number => (number, 1)

theorem isCountTable_numbersOnce :
    IsCountTable (fun number : ℕ => number) numbersOnce where
  ranks :=
    { less := fun _ _ => rfl
      same := fun _ _ => rfl }
  once := by decide
  seen := by decide

/- What is left of the next table, where the first number has
   thirty shares and the second one a little more than one. -/
def unevenRest : Counter ℕ :=
  [(32, 8719776712914622), (33, 290659223763821),
    (34, 290659223763821)]

/- Thirty-two numbers seen often, and those. -/
def numbersOften : Counter ℕ :=
  (List.range 32).map (fun number => (number, 10 ^ 17)) ++
    unevenRest

theorem isCountTable_numbersOften :
    IsCountTable (fun number : ℕ => number) numbersOften where
  ranks :=
    { less := fun _ _ => rfl
      same := fun _ _ => rfl }
  once := by decide
  seen := by decide

theorem remaining_numbersOften :
    remaining numbersOften = unevenRest := by
  have hSorted : sortedBy commonBefore numbersOften =
      numbersOften :=
    List.mergeSort_of_pairwise (by decide +kernel)
  unfold remaining summarise
  rw [hSorted]
  decide +kernel

end Planner

end ChenDB
