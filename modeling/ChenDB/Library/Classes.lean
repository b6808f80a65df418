import Mathlib.Data.List.Induction
import Mathlib.Data.List.Pairwise
import ChenDB.Library.Traversal

/-
  Classes of the elements of a list whose keys are the same:
  the first element of each, and a state kept for each.
-/

--
-- First Elements
--

namespace Library

namespace Classes

variable {ε σ α β κ : Type}

/- An equality that is symmetric and transitive, on whatever
   elements it is reflexive. -/
structure Lawful (same : κ → κ → Bool) : Prop where
  symm : ∀ first second,
    same first second = true → same second first = true
  trans : ∀ first second third,
    same first second = true → same second third = true →
      same first third = true

/- Tuples of one length, the same in each place. -/
def tuples (same : κ → κ → Bool) :
    List κ → List κ → Bool
  | [], [] => true
  | first :: rest, second :: later =>
    same first second && tuples same rest later
  | _, _ => false

theorem tuples_iff
    {same : κ → κ → Bool}
    {first second : List κ} :
    tuples same first second = true ↔
      List.Forall₂ (fun one other => same one other = true)
        first second := by
  induction first generalizing second with
  | nil => cases second <;> simp [tuples]
  | cons one rest ih =>
    cases second with
    | nil => simp [tuples]
    | cons other later =>
      rw [tuples, Bool.and_eq_true, ih, List.forall₂_cons]

theorem Lawful.tuples
    {same : κ → κ → Bool}
    (hLawful : Lawful same) :
    Lawful (Classes.tuples same) where
  symm := by
    intro first second hSame
    rw [tuples_iff] at hSame ⊢
    induction hSame with
    | nil => exact .nil
    | cons hHead _ ih =>
      exact .cons (hLawful.symm _ _ hHead) ih
  trans := by
    intro first second third hFirst hSecond
    rw [tuples_iff] at hFirst hSecond ⊢
    induction hFirst generalizing third with
    | nil => exact hSecond
    | cons hHead _ ih =>
      cases hSecond with
      | cons hNext hLater =>
        exact .cons (hLawful.trans _ _ _ hHead hNext)
          (ih _ hLater)

theorem tuples_refl
    {same : κ → κ → Bool}
    {keys : List κ}
    (hRefl : ∀ key ∈ keys, same key key = true) :
    tuples same keys keys = true := by
  rw [tuples_iff]
  exact List.forall₂_same.mpr hRefl

/- The elements whose key is none of those seen, by a loop
   that remembers the keys of what it lets through. -/
def firsts
    (same : κ → κ → Bool)
    (key : α → κ) : List κ → List α → List α
  | _, [] => []
  | seen, x :: rest =>
    if seen.any (same · (key x)) then
      firsts same key seen rest
    else x :: firsts same key (seen ++ [key x]) rest

/- The elements before which there is none of the same key. -/
def leaders
    (same : κ → κ → Bool)
    (key : α → κ)
    (xs : List α) : List α :=
  (xs.zipIdx.filter fun entry =>
    !(xs.take entry.2).any fun earlier =>
      same (key earlier) (key entry.1)).map Prod.fst

variable {same : κ → κ → Bool} {key : α → κ}

theorem firsts_snoc
    (seen : List κ)
    (xs : List α)
    (x : α) :
    firsts same key seen (xs ++ [x]) =
      firsts same key seen xs ++
        if (seen ++ (firsts same key seen xs).map key).any
            (same · (key x)) then []
        else [x] := by
  induction xs generalizing seen with
  | nil =>
    rw [List.nil_append, firsts, firsts, List.map_nil,
      List.append_nil, List.nil_append]
    rfl
  | cons y rest ih =>
    rw [List.cons_append, firsts, firsts]
    split
    · exact ih seen
    · rw [ih, List.map_cons, List.cons_append,
        List.append_assoc, List.singleton_append]

theorem leaders_snoc
    (xs : List α)
    (x : α) :
    leaders same key (xs ++ [x]) =
      leaders same key xs ++
        if xs.any fun earlier => same (key earlier) (key x)
        then [] else [x] := by
  have hEarlier : ∀ entry ∈ xs.zipIdx,
      (!((xs ++ [x]).take entry.2).any fun earlier =>
          same (key earlier) (key entry.1)) =
        !(xs.take entry.2).any fun earlier =>
          same (key earlier) (key entry.1) := by
    intro entry hEntry
    have hIndex := (List.mem_zipIdx' hEntry).1
    rw [List.take_append_of_le_length
      (Nat.le_of_lt hIndex)]
  unfold leaders
  rw [List.zipIdx_append, List.filter_append,
    List.map_append, List.filter_congr hEarlier]
  refine congrArg _ ?_
  simp only [List.zipIdx_cons, List.zipIdx_nil, Nat.zero_add,
    List.filter_cons, List.filter_nil, List.take_left']
  cases xs.any fun earlier =>
      same (key earlier) (key x) <;>
    simp

theorem firsts_subset
    (seen : List κ)
    (xs : List α) :
    firsts same key seen xs ⊆ xs := by
  induction xs generalizing seen with
  | nil => exact List.nil_subset _
  | cons y rest ih =>
    rw [firsts]
    split
    · exact List.subset_cons_of_subset _ (ih seen)
    · exact List.cons_subset_cons _ (ih _)

/- Each key is that of an element let through. -/
theorem firsts_cover
    {xs : List α}
    (hRefl : ∀ x ∈ xs, same (key x) (key x) = true) :
    ∀ x ∈ xs, ∃ first ∈ firsts same key [] xs,
      same (key first) (key x) = true := by
  induction xs using List.reverseRecOn with
  | nil => exact fun _ hMem => absurd hMem List.not_mem_nil
  | append_singleton rest last ih =>
    intro x hMem
    rw [firsts_snoc, List.nil_append]
    rcases List.mem_append.mp hMem with hMem | hMem
    · rcases ih (fun y hy => hRefl y
        (List.mem_append_left _ hy)) x hMem with
        ⟨first, hFirst, hSame⟩
      exact ⟨first, List.mem_append_left _ hFirst, hSame⟩
    · rw [List.mem_singleton.mp hMem]
      split
      · rename_i hSeen
        rcases List.any_eq_true.mp hSeen with
          ⟨seen, hFound, hSame⟩
        rcases List.mem_map.mp hFound with ⟨first, hFirst, rfl⟩
        exact ⟨first, List.mem_append_left _ hFirst, hSame⟩
      · exact ⟨last, List.mem_append_right _
          (.head _), hRefl last
            (List.mem_append_right _ (.head _))⟩

theorem firsts_pairwise
    (xs : List α) :
    ((firsts same key [] xs).map key).Pairwise
      (fun first second => same first second = false) := by
  induction xs using List.reverseRecOn with
  | nil => exact List.Pairwise.nil
  | append_singleton rest last ih =>
    rw [firsts_snoc, List.nil_append]
    split
    · rw [List.append_nil]
      exact ih
    · rename_i hNew
      rw [List.map_append, List.pairwise_append]
      refine ⟨ih, List.pairwise_singleton _ _, ?_⟩
      intro first hFirst second hSecond
      rw [List.mem_singleton.mp hSecond]
      exact eq_false_of_ne_true fun hSame =>
        hNew (List.any_eq_true.mpr ⟨first, hFirst, hSame⟩)

/- A loop that remembers what it let through lets the first
   of each class through. -/
theorem firsts_eq_leaders
    (hLawful : Lawful same)
    {xs : List α}
    (hRefl : ∀ x ∈ xs, same (key x) (key x) = true) :
    firsts same key [] xs = leaders same key xs := by
  induction xs using List.reverseRecOn with
  | nil => rfl
  | append_singleton rest last ih =>
    have hRest : ∀ x ∈ rest, same (key x) (key x) = true :=
      fun x hMem => hRefl x (List.mem_append_left _ hMem)
    have hAny :
        ((firsts same key [] rest).map key).any
            (same · (key last)) =
          rest.any fun earlier =>
            same (key earlier) (key last) := by
      rw [List.any_map, Bool.eq_iff_iff, List.any_eq_true,
        List.any_eq_true]
      constructor
      · rintro ⟨first, hFirst, hSame⟩
        exact ⟨first, firsts_subset [] rest hFirst, hSame⟩
      · rintro ⟨earlier, hEarlier, hSame⟩
        rcases firsts_cover hRest earlier hEarlier with
          ⟨first, hFirst, hAlike⟩
        exact ⟨first, hFirst, hLawful.trans _ _ _ hAlike hSame⟩
    rw [firsts_snoc, leaders_snoc, ih hRest,
      List.nil_append, ← ih hRest, hAny]

theorem leaders_congr {κ' : Type}
    {other : κ' → κ' → Bool}
    {key' : α → κ'}
    {xs : List α}
    (hSame : ∀ x ∈ xs, ∀ y ∈ xs,
      same (key x) (key y) = other (key' x) (key' y)) :
    leaders same key xs = leaders other key' xs := by
  unfold leaders
  refine congrArg _ (List.filter_congr fun entry hEntry => ?_)
  have hMem : entry.1 ∈ xs := List.fst_mem_of_mem_zipIdx hEntry
  refine congrArg _ ?_
  rw [Bool.eq_iff_iff, List.any_eq_true, List.any_eq_true]
  refine exists_congr fun earlier =>
    and_congr_right fun hEarlier => ?_
  rw [hSame earlier (List.mem_of_mem_take hEarlier) _ hMem]

theorem leaders_map
    (f : β → α)
    (xs : List β) :
    leaders same key (xs.map f) =
      (leaders same (key ∘ f) xs).map f := by
  unfold leaders
  rw [List.zipIdx_map, List.filter_map, List.map_map,
    List.map_map]
  refine congrArg _ (List.filter_congr fun entry _ => ?_)
  simp only [Function.comp_apply, Prod.map_fst, Prod.map_snd,
    id_eq, ← List.map_take, List.any_map]
  rfl

--
-- A State for Each Class
--

/- One more element, given to the state of its class, which is
   a new one if there is none. -/
def addTo
    (same : κ → κ → Bool)
    (give : σ → α → Except ε σ)
    (fresh : σ)
    (wanted : κ)
    (x : α) : List (κ × σ) → Except ε (List (κ × σ))
  | [] => do
      let state ← give fresh x
      pure [(wanted, state)]
  | group :: rest =>
    if same group.1 wanted then do
      let state ← give group.2 x
      pure ((group.1, state) :: rest)
    else do
      let rest ← addTo same give fresh wanted x rest
      pure (group :: rest)

variable {give : σ → α → Except ε σ} {fresh : σ}

variable {x : α} {groups' : List (κ × σ)}

theorem addTo_ok
    {wanted : κ}
    {groups : List (κ × σ)}
    (hOk : addTo same give fresh wanted x groups =
      .ok groups') :
    (∃ before group after state,
      groups = before ++ group :: after ∧
      (∀ other ∈ before, same other.1 wanted = false) ∧
      same group.1 wanted = true ∧
      give group.2 x = .ok state ∧
      groups' = before ++ (group.1, state) :: after) ∨
    ((∀ other ∈ groups, same other.1 wanted = false) ∧
      ∃ state, give fresh x = .ok state ∧
        groups' = groups ++ [(wanted, state)]) := by
  induction groups generalizing groups' with
  | nil =>
    rcases StateExcept.ok_of_bind hOk with ⟨state, hState, hEnd⟩
    cases hEnd
    exact .inr ⟨fun _ hMem => absurd hMem List.not_mem_nil,
      state, hState, rfl⟩
  | cons group rest ih =>
    rw [addTo] at hOk
    split at hOk
    · rename_i hSame
      rcases StateExcept.ok_of_bind hOk with
        ⟨state, hState, hEnd⟩
      cases hEnd
      exact .inl ⟨[], group, rest, state, rfl,
        fun _ hMem => absurd hMem List.not_mem_nil, hSame,
        hState, rfl⟩
    · rename_i hOther
      have hOther := eq_false_of_ne_true hOther
      rcases StateExcept.ok_of_bind hOk with
        ⟨rest', hRest, hEnd⟩
      cases hEnd
      rcases ih hRest with
        ⟨before, found, after, state, rfl, hBefore, hSame,
          hState, rfl⟩ | ⟨hNone, state, hState, rfl⟩
      · refine .inl ⟨group :: before, found, after, state,
          rfl, ?_, hSame, hState, rfl⟩
        exact List.forall_mem_cons.mpr ⟨hOther, hBefore⟩
      · refine .inr ⟨?_, state, hState, rfl⟩
        exact List.forall_mem_cons.mpr ⟨hOther, hNone⟩

theorem addTo_total
    (hGive : ∀ state x, ∃ next : σ, give state x = .ok next)
    (wanted : κ)
    (x : α)
    (groups : List (κ × σ)) :
    ∃ groups', addTo same give fresh wanted x groups =
      .ok groups' := by
  induction groups with
  | nil =>
    rcases hGive fresh x with ⟨state, hState⟩
    exact ⟨_, by rw [addTo, hState]; rfl⟩
  | cons group rest ih =>
    rw [addTo]
    split
    · rcases hGive group.2 x with ⟨state, hState⟩
      exact ⟨_, by rw [hState]; rfl⟩
    · rcases ih with ⟨rest', hRest⟩
      exact ⟨_, by rw [hRest]; rfl⟩

/- The classes in the order of their first elements, each with
   what its elements made of the fresh state. -/
structure Partitioned
    (same : κ → κ → Bool)
    (key : α → κ)
    (give : σ → α → Except ε σ)
    (fresh : σ)
    (xs : List α)
    (groups : List (κ × σ)) : Prop where
  keys : groups.map Prod.fst = (firsts same key [] xs).map key
  states : ∀ group ∈ groups,
    (xs.filter fun x => same group.1 (key x)).foldlM
      give fresh = .ok group.2

theorem filter_snoc
    (xs : List α)
    (x : α)
    (wanted : κ) :
    (xs ++ [x]).filter (fun y => same wanted (key y)) =
      xs.filter (fun y => same wanted (key y)) ++
        if same wanted (key x) then [x] else [] := by
  rw [List.filter_append, List.filter_cons, List.filter_nil]

theorem Partitioned.snoc
    (hLawful : Lawful same)
    {xs : List α}
    {groups : List (κ × σ)}
    (hRefl : ∀ y ∈ xs ++ [x], same (key y) (key y) = true)
    (hPart : Partitioned same key give fresh xs groups)
    (hOk : addTo same give fresh (key x) x groups =
      .ok groups') :
    Partitioned same key give fresh (xs ++ [x]) groups' := by
  have hApart : (groups.map Prod.fst).Pairwise
      (fun first second => same first second = false) :=
    hPart.keys ▸ firsts_pairwise xs
  rcases addTo_ok hOk with
    ⟨before, group, after, state, rfl, hBefore, hSame,
      hState, rfl⟩ | ⟨hNone, state, hState, rfl⟩
  · -- The class is there, and no other is the element's.
    have hSeen : ((firsts same key [] xs).map key).any
        (same · (key x)) = true := by
      rw [← hPart.keys, List.any_eq_true]
      exact ⟨group.1, by simp, hSame⟩
    have hAfter : ∀ other ∈ after,
        same other.1 (key x) = false := by
      intro other hOther
      refine eq_false_of_ne_true fun hBoth => ?_
      rw [List.map_append, List.pairwise_append,
        List.map_cons, List.pairwise_cons] at hApart
      have hNot := hApart.2.1.1 other.1
        (List.mem_map_of_mem hOther)
      rw [hLawful.trans _ _ _ hSame
        (hLawful.symm _ _ hBoth)] at hNot
      cases hNot
    have hKept : ∀ other, other ∈ before ∨ other ∈ after →
        ((xs ++ [x]).filter fun y =>
          same other.1 (key y)).foldlM give fresh =
            .ok other.2 := by
      intro other hOther
      have hFalse : same other.1 (key x) = false := by
        rcases hOther with hOther | hOther
        · exact hBefore other hOther
        · exact hAfter other hOther
      rw [filter_snoc, hFalse]
      simp only [Bool.false_eq_true, if_false, List.append_nil]
      refine hPart.states other ?_
      rcases hOther with hOther | hOther
      · exact List.mem_append_left _ hOther
      · exact List.mem_append_right _
          (.tail _ hOther)
    constructor
    · rw [firsts_snoc, List.nil_append, hSeen]
      simp only [if_true, List.append_nil]
      rw [← hPart.keys]
      simp
    · intro other hOther
      rcases List.mem_append.mp hOther with hIn | hIn
      · exact hKept other (.inl hIn)
      · rcases List.mem_cons.mp hIn with rfl | hIn
        · rw [filter_snoc, hSame]
          simp only [if_true]
          rw [List.foldlM_append, hPart.states group
            (List.mem_append_right _ (.head _))]
          show [x].foldlM give group.2 = _
          rw [List.foldlM_cons, hState]
          rfl
        · exact hKept other (.inr hIn)
  · -- A new class, with none of the elements before it.
    have hSeen : ((firsts same key [] xs).map key).any
        (same · (key x)) = false := by
      rw [← hPart.keys, List.any_map, List.any_eq_false]
      intro other hOther
      simp [hNone other hOther]
    have hAlone : xs.filter
        (fun y => same (key x) (key y)) = [] := by
      rw [List.filter_eq_nil_iff]
      intro y hMem hBoth
      rcases firsts_cover (fun z hz => hRefl z
        (List.mem_append_left _ hz)) y hMem with
        ⟨first, hFirst, hFirstSame⟩
      have hFound : same (key first) (key x) = true :=
        hLawful.trans _ _ _ hFirstSame
          (hLawful.symm _ _ hBoth)
      rw [List.any_eq_false] at hSeen
      exact hSeen _ (List.mem_map_of_mem hFirst) hFound
    constructor
    · rw [firsts_snoc, List.nil_append, hSeen]
      simp only [Bool.false_eq_true, if_false, List.map_append,
        List.map_cons, List.map_nil, hPart.keys]
    · intro other hOther
      rcases List.mem_append.mp hOther with hIn | hIn
      · rw [filter_snoc, hNone other hIn]
        simp only [Bool.false_eq_true, if_false,
          List.append_nil]
        exact hPart.states other hIn
      · rw [List.mem_singleton.mp hIn, filter_snoc, hAlone,
          hRefl x (List.mem_append_right _
            (.head _))]
        simp only [if_true, List.nil_append]
        rw [List.foldlM_cons, hState]
        rfl

/- A run over a list leaves its classes. -/
theorem partitioned_of_foldlM
    (hLawful : Lawful same)
    {xs : List α}
    {groups : List (κ × σ)}
    (hRefl : ∀ x ∈ xs, same (key x) (key x) = true)
    (hOk : xs.foldlM (fun groups x =>
      addTo same give fresh (key x) x groups) [] = .ok groups) :
    Partitioned same key give fresh xs groups := by
  have hAll := @Traversal.foldlM_induction ε _ _ _
    (fun done groups =>
      (∀ x ∈ done, same (key x) (key x) = true) →
        Partitioned same key give fresh done groups)
    ?_ xs [] _ _ (fun _ => ⟨rfl, fun _ hMem =>
      absurd hMem List.not_mem_nil⟩) hOk
  · exact hAll hRefl
  · intro done state x next hDone hStep hBoth
    exact Partitioned.snoc hLawful hBoth (hDone fun y hy =>
      hBoth y (List.mem_append_left _ hy)) hStep

variable {xs : List α} {groups : List (κ × σ)}

/- Each element is in the one class of its key. -/
theorem Partitioned.existsUnique
    (hLawful : Lawful same)
    (hRefl : ∀ x ∈ xs, same (key x) (key x) = true)
    (hPart : Partitioned same key give fresh xs groups)
    (hMem : x ∈ xs) :
    ∃! group, group ∈ groups ∧
      same group.1 (key x) = true := by
  rcases firsts_cover hRefl x hMem with ⟨first, hFirst, hSame⟩
  have hKey : key first ∈ groups.map Prod.fst :=
    hPart.keys ▸ List.mem_map_of_mem hFirst
  rcases List.mem_map.mp hKey with ⟨group, hGroup, hIs⟩
  refine ⟨group, ⟨hGroup, hIs ▸ hSame⟩, ?_⟩
  rintro other ⟨hOther, hOtherSame⟩
  by_contra hDiffer
  have hApart : groups.Pairwise
      (fun first second => same first.1 second.1 = false) :=
    List.pairwise_map.mp (hPart.keys ▸ firsts_pairwise xs)
  have : Std.Symm fun first second : κ × σ =>
      same first.1 second.1 = false := by
    constructor
    intro first second hFalse
    refine eq_false_of_ne_true fun hTrue => ?_
    rw [hLawful.symm _ _ hTrue] at hFalse
    cases hFalse
  have hNot := hApart.forall hOther hGroup hDiffer
  rw [hLawful.trans _ _ _ hOtherSame
    (hLawful.symm _ _ (hIs ▸ hSame))] at hNot
  cases hNot

/- Two elements share a class when their keys are the same. -/
theorem Partitioned.share_iff
    (hLawful : Lawful same)
    (hRefl : ∀ x ∈ xs, same (key x) (key x) = true)
    (hPart : Partitioned same key give fresh xs groups)
    {y : α}
    (hMem : x ∈ xs) :
    (∃ group ∈ groups, same group.1 (key x) = true ∧
        same group.1 (key y) = true) ↔
      same (key x) (key y) = true := by
  constructor
  · rintro ⟨group, _, hFirst, hSecond⟩
    exact hLawful.trans _ _ _ (hLawful.symm _ _ hFirst)
      hSecond
  · intro hSame
    rcases hPart.existsUnique hLawful hRefl hMem with
      ⟨group, ⟨hGroup, hFirst⟩, _⟩
    exact ⟨group, hGroup, hFirst,
      hLawful.trans _ _ _ hFirst hSame⟩

end Classes

end Library
