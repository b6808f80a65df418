import Mathlib.Data.List.Chain
import Mathlib.Data.List.Nodup
import Mathlib.Data.List.Perm.Subperm
import Mathlib.Logic.Relation

/-
  A depth-first search for a cycle, which remembers the path
  it stands on and no more.
-/

--
-- Cycles
--

namespace Library

namespace CycleSearch

open Relation

variable {α : Type}

/- Each has an edge to the one after it, and the last to the
   first. -/
def IsCycle
    (edge : α → α → Prop)
    (cycle : List α) : Prop :=
  ∃ first rest, cycle = first :: rest ∧
    (cycle ++ [first]).IsChain edge

/- From the node an edge can be taken again and again. -/
def Loops
    (edge : α → α → Prop)
    (node : α) : Prop :=
  ∃ other, ReflTransGen edge node other ∧
    TransGen edge other other

variable {edge : α → α → Prop} {node : α}

theorem Loops.next
    (hLoops : Loops edge node) :
    ∃ child, edge node child ∧ Loops edge child := by
  rcases hLoops with ⟨other, hPath, hAround⟩
  rcases ReflTransGen.cases_head hPath with
    rfl | ⟨child, hEdge, hRest⟩
  · rcases TransGen.head'_iff.mp hAround with
      ⟨child, hEdge, hBack⟩
    exact ⟨child, hEdge, node, hBack, hAround⟩
  · exact ⟨child, hEdge, other, hRest, hAround⟩

variable {first : α} {rest : List α}

/- Along a chain, what comes later is reached. -/
theorem reaches_of_isChain
    (hChain : (first :: rest).IsChain edge) :
    ∀ node ∈ first :: rest,
      ReflTransGen edge first node := by
  induction rest generalizing first with
  | nil =>
    intro node hMem
    rw [List.mem_singleton.mp hMem]
  | cons second rest ih =>
    intro node hMem
    rw [List.isChain_cons_cons] at hChain
    rcases List.mem_cons.mp hMem with rfl | hRest
    · exact .refl
    · exact .head hChain.1 (ih hChain.2 node hRest)

/- From a node of a cycle an edge leads on, and back to the
   first. -/
theorem IsCycle.next
    (hChain : (first :: rest ++ [first]).IsChain edge)
    (hMem : node ∈ first :: rest) :
    ∃ child, edge node child ∧ child ∈ first :: rest ∧
      ReflTransGen edge child first := by
  rcases List.append_of_mem hMem with ⟨before, after, hSplit⟩
  have hTail : (node :: (after ++ [first])).IsChain edge := by
    apply hChain.suffix
    rw [hSplit, List.append_assoc]
    exact List.suffix_append _ _
  cases hRest : after ++ [first] with
  | nil => simp at hRest
  | cons child others =>
    rw [hRest, List.isChain_cons_cons] at hTail
    have hLast : first ∈ child :: others := by
      rw [← hRest]
      simp
    have hChild : child ∈ after ++ [first] := by
      rw [hRest]
      exact .head _
    refine ⟨child, hTail.1, ?_,
      reaches_of_isChain hTail.2 first hLast⟩
    rcases List.mem_append.mp hChild with hIn | hFirst
    · rw [hSplit]
      simp [hIn]
    · rw [List.mem_singleton.mp hFirst]
      exact .head _

variable {cycle : List α} {other : α}

/- The nodes of a cycle reach one another, by an edge or
   more. -/
theorem IsCycle.around
    (hCycle : IsCycle edge cycle)
    (hNode : node ∈ cycle)
    (hOther : other ∈ cycle) :
    TransGen edge node other := by
  rcases hCycle with ⟨first, rest, rfl, hChain⟩
  rcases IsCycle.next hChain hNode with ⟨child, hEdge, _, hBack⟩
  exact TransGen.trans_left (.head' hEdge hBack)
    (reaches_of_isChain hChain other
      (List.mem_append_left _ hOther))

theorem IsCycle.loops
    (hCycle : IsCycle edge cycle)
    (hMem : other ∈ cycle)
    (hReach : ReflTransGen edge node other) :
    Loops edge node :=
  ⟨other, hReach, hCycle.around hMem hMem⟩

--
-- Graphs with One Edge a Node
--

/- No node that is reached has two edges. -/
def Narrow
    (edge : α → α → Prop)
    (start : α) : Prop :=
  ∀ node, ReflTransGen edge start node →
    ∀ first second, edge node first → edge node second →
      first = second

variable {start : α}

theorem Narrow.trans
    (hNarrow : Narrow edge start)
    (hReach : ReflTransGen edge start node) :
    Narrow edge node :=
  fun other hOther => hNarrow other (hReach.trans hOther)

/- Of two nodes that are reached, one is on the way to the
   other. -/
theorem Narrow.total
    (hNarrow : Narrow edge start)
    (hNode : ReflTransGen edge start node)
    (hOther : ReflTransGen edge start other) :
    ReflTransGen edge node other ∨
      ReflTransGen edge other node := by
  induction hNode with
  | refl => exact .inl hOther
  | tail hBefore hEdge ih =>
    rename_i held node
    rcases ih with hAhead | hBehind
    · rcases ReflTransGen.cases_head hAhead with
        rfl | ⟨child, hChild, hRest⟩
      · exact .inr (.single hEdge)
      · rw [hNarrow held hBefore node child hEdge hChild]
        exact .inl hRest
    · exact .inr (hBehind.tail hEdge)

/- A cycle is not left. -/
theorem IsCycle.closed
    (hCycle : IsCycle edge cycle)
    (hNarrow : Narrow edge node)
    (hMem : node ∈ cycle)
    (hReach : ReflTransGen edge node other) :
    other ∈ cycle := by
  induction hReach with
  | refl => exact hMem
  | tail hBefore hEdge ih =>
    rename_i held other
    rcases hCycle with ⟨first, rest, rfl, hChain⟩
    rcases IsCycle.next hChain ih with ⟨child, hChild, hIn, _⟩
    rw [hNarrow held hBefore other child hEdge hChild]
    exact hIn

/- All cycles that are reached have the same nodes. -/
theorem IsCycle.shared
    {one another : List α}
    (hOne : IsCycle edge one)
    (hAnother : IsCycle edge another)
    (hNarrow : Narrow edge start)
    (hNode : node ∈ one)
    (hOther : other ∈ another)
    (hFrom : ReflTransGen edge start node)
    (hTo : ReflTransGen edge start other) :
    other ∈ one := by
  have hForward : ReflTransGen edge node other := by
    rcases hNarrow.total hFrom hTo with hAhead | hBehind
    · exact hAhead
    · have hIn : node ∈ another :=
        hAnother.closed (hNarrow.trans hTo) hOther hBehind
      exact (hAnother.around hIn hOther).to_reflTransGen
  exact hOne.closed (hNarrow.trans hFrom) hNode hForward

--
-- The Search
--

section Search

variable [DecidableEq α] (next : α → List α)

/- The first cycle on the way from a node, with the path to it
   in order; no list where there is none. -/
def walk : Nat → List α → α → List α
  | 0, path, node =>
    if node ∈ path then path.drop (path.idxOf node) else []
  | fuel + 1, path, node =>
    if node ∈ path then path.drop (path.idxOf node)
    else
      (((next node).map (walk fuel (path ++ [node]))).find?
        (· ≠ [])).getD []

variable {next}

variable {path : List α} {node : α}

theorem drop_idxOf
    (hMem : node ∈ path) :
    ∃ rest, path.drop (path.idxOf node) = node :: rest := by
  have hLess := List.idxOf_lt_length_of_mem hMem
  refine ⟨path.drop (path.idxOf node + 1), ?_⟩
  rw [List.drop_eq_getElem_cons hLess, List.getElem_idxOf]

theorem drop_ne_nil
    (hMem : node ∈ path) :
    path.drop (path.idxOf node) ≠ [] := by
  rcases drop_idxOf hMem with ⟨rest, hRest⟩
  rw [hRest]
  exact List.cons_ne_nil _ _

variable (next) in
def Edge (first second : α) : Prop := second ∈ next first

variable {start : α}

theorem drop_isCycle
    (hChain : (path ++ [node]).IsChain (Edge next))
    (hReach : ∀ held ∈ path ++ [node],
      ReflTransGen (Edge next) start held)
    (hMem : node ∈ path) :
    IsCycle (Edge next) (path.drop (path.idxOf node)) ∧
      ∀ held ∈ path.drop (path.idxOf node),
        ReflTransGen (Edge next) start held := by
  rcases drop_idxOf hMem with ⟨rest, hRest⟩
  constructor
  · refine ⟨node, rest, hRest, ?_⟩
    have hLess := List.idxOf_lt_length_of_mem hMem
    have hTail := hChain.drop (path.idxOf node)
    rwa [List.drop_append_of_le_length hLess.le] at hTail
  · intro held hHeld
    exact hReach held (List.mem_append_left _
      (List.mem_of_mem_drop hHeld))

variable {fuel : Nat}

/- What is found is a cycle, and its nodes are reached. -/
theorem walk_isCycle
    (hChain : (path ++ [node]).IsChain (Edge next))
    (hReach : ∀ held ∈ path ++ [node],
      ReflTransGen (Edge next) start held)
    (hFound : walk next fuel path node ≠ []) :
    IsCycle (Edge next) (walk next fuel path node) ∧
      ∀ held ∈ walk next fuel path node,
        ReflTransGen (Edge next) start held := by
  induction fuel generalizing path node with
  | zero =>
    unfold walk at hFound ⊢
    split at hFound
    · rename_i hMem
      rw [if_pos hMem]
      exact drop_isCycle hChain hReach hMem
    · exact absurd rfl hFound
  | succ fuel ih =>
    unfold walk at hFound ⊢
    split at hFound
    · rename_i hMem
      rw [if_pos hMem]
      exact drop_isCycle hChain hReach hMem
    · rename_i hNew
      rw [if_neg hNew]
      cases hSome : ((next node).map
          (walk next fuel (path ++ [node]))).find?
            (· ≠ []) with
      | none =>
        rw [hSome] at hFound
        exact absurd rfl hFound
      | some cycle =>
        rw [Option.getD_some]
        have hCycle := List.find?_some hSome
        rcases List.mem_map.mp (List.mem_of_find?_eq_some
          hSome) with ⟨child, hChild, rfl⟩
        have hLonger : (path ++ [node] ++ [child]).IsChain
            (Edge next) := by
          rw [List.append_assoc]
          exact List.isChain_append_cons_cons.mpr
            ⟨hChain, hChild, .singleton _⟩
        have hAll : ∀ held ∈ path ++ [node] ++ [child],
            ReflTransGen (Edge next) start held := by
          intro held hHeld
          rcases List.mem_append.mp hHeld with hOld | hNew
          · exact hReach held hOld
          · rw [List.mem_singleton.mp hNew]
            exact (hReach node (by simp)).tail hChild
        exact ih hLonger hAll (by simpa using hCycle)

/- Where a cycle is reached, one is found. -/
theorem walk_ne_nil
    {keys : List α}
    (hKeys : ∀ held, next held ≠ [] → held ∈ keys)
    (hNodup : path.Nodup)
    (hPath : path ⊆ keys)
    (hFuel : keys.length ≤ fuel + path.length)
    (hLoops : Loops (Edge next) node) :
    walk next fuel path node ≠ [] := by
  induction fuel generalizing path node with
  | zero =>
    unfold walk
    split
    · rename_i hMem
      exact drop_ne_nil hMem
    · rename_i hNew
      rcases hLoops.next with ⟨child, hChild, _⟩
      have hKey : node ∈ keys := by
        apply hKeys
        exact List.ne_nil_of_mem hChild
      have hMore : (node :: path).Nodup :=
        List.nodup_cons.mpr ⟨hNew, hNodup⟩
      have hLength := (hMore.subperm
        (List.cons_subset.mpr ⟨hKey, hPath⟩)).length_le
      rw [List.length_cons] at hLength
      omega
  | succ fuel ih =>
    unfold walk
    split
    · rename_i hMem
      exact drop_ne_nil hMem
    · rename_i hNew
      rcases hLoops.next with ⟨child, hChild, hAgain⟩
      have hKey : node ∈ keys := by
        apply hKeys
        exact List.ne_nil_of_mem hChild
      have hFound : walk next fuel (path ++ [node]) child ≠
          [] := by
        apply ih
        · exact (List.nodup_append_comm.mpr
            (List.nodup_cons.mpr ⟨hNew, hNodup⟩))
        · exact List.append_subset.mpr
            ⟨hPath, List.cons_subset.mpr
              ⟨hKey, List.nil_subset _⟩⟩
        · rw [List.length_append, List.length_singleton]
          omega
        · exact hAgain
      cases hSome : ((next node).map
          (walk next fuel (path ++ [node]))).find?
            (· ≠ []) with
      | none =>
        rw [List.find?_eq_none] at hSome
        have hNone := hSome _
          (List.mem_map_of_mem hChild)
        simp [hFound] at hNone
      | some cycle =>
        have hCycle := List.find?_some hSome
        simpa using hCycle

end Search

end CycleSearch

end Library
