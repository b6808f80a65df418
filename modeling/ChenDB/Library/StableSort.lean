import Mathlib.Data.List.Lex

/-
  Sorting by several orders, one stable pass for each, the
  most significant order last. What the passes come to is the
  lexicographic order of them all, with ties left as they
  were.
-/

--
-- One Pass
--

namespace Library

namespace StableSort

variable {α : Type}

/- An order in which different elements may tie. -/
structure TotalPreorder (le : α → α → Bool) : Prop where
  trans : ∀ a b c, le a b = true → le b c = true → le a c = true
  total : ∀ a b, (le a b || le b a) = true

section Pass

variable {le : α → α → Bool}

/- The elements of one class stay in their order. -/
theorem filter_mergeSort
    (hOrder : TotalPreorder le)
    {p : α → Bool}
    (hClass : ∀ a b, p a = true → p b = true → le a b = true)
    (xs : List α) :
    (xs.mergeSort le).filter p = xs.filter p := by
  have hPairwise : (xs.filter p).Pairwise
      fun a b => le a b = true := by
    refine List.pairwise_of_forall_mem_list ?_
    intro a hA b hB
    exact hClass a b (List.mem_filter.mp hA).2
      (List.mem_filter.mp hB).2
  have hSublist : (xs.filter p).Sublist (xs.mergeSort le) :=
    List.sublist_mergeSort hOrder.trans hOrder.total
      hPairwise List.filter_sublist
  have hFiltered := hSublist.filter p
  rw [List.filter_filter] at hFiltered
  simp only [Bool.and_self] at hFiltered
  exact (hFiltered.eq_of_length
    (((List.mergeSort_perm xs le).filter p).length_eq).symm).symm

/- The elements that tie with one of them. -/
def classOf (le : α → α → Bool) (a b : α) : Bool :=
  le a b && le b a

theorem le_of_classOf
    (hOrder : TotalPreorder le)
    {a b c : α}
    (hB : classOf le a b = true)
    (hC : classOf le a c = true) :
    le b c = true :=
  hOrder.trans b a c (Bool.and_eq_true_iff.mp hB).2
    (Bool.and_eq_true_iff.mp hC).1

/- A pass puts its own order first and leaves the one there was
   for the ties. -/
theorem pairwise_mergeSort_of_pairwise
    (hOrder : TotalPreorder le)
    {R : α → α → Prop}
    {xs : List α}
    (hPairwise : xs.Pairwise R) :
    (xs.mergeSort le).Pairwise fun a b =>
      le a b = true ∧ (le b a = true → R a b) := by
  rw [List.pairwise_iff_forall_sublist]
  intro a b hPair
  have hSorted : le a b = true :=
    List.pairwise_iff_forall_sublist.mp
      (List.pairwise_mergeSort hOrder.trans hOrder.total xs)
      hPair
  refine ⟨hSorted, fun hBack => ?_⟩
  -- Both are of one class, which the pass leaves in order.
  have hRefl : le a a = true := by
    simpa using hOrder.total a a
  have hA : classOf le a a = true := by simp [classOf, hRefl]
  have hB : classOf le a b = true := by
    simp [classOf, hSorted, hBack]
  have hClass := hPair.filter (classOf le a)
  rw [filter_mergeSort hOrder fun b c =>
    le_of_classOf hOrder] at hClass
  simp only [List.filter_cons, hA, hB, if_true,
    List.filter_nil] at hClass
  exact List.pairwise_iff_forall_sublist.mp hPairwise
    (hClass.trans List.filter_sublist)

end Pass

--
-- A Pass for Each Order
--

/- One pass for each order, the last of them first. -/
def passes
    (orders : List (α → α → Bool))
    (xs : List α) : List α :=
  orders.foldr (fun le xs => xs.mergeSort le) xs

/- The orders agree that neither comes first. -/
def Tied (orders : List (α → α → Bool)) (a b : α) : Prop :=
  ∀ le ∈ orders, le a b = true ∧ le b a = true

/- The first order on which they differ puts `a` first. -/
def Before : List (α → α → Bool) → α → α → Prop
  | [], _, _ => False
  | le :: rest, a, b =>
    le b a = false ∨
      le a b = true ∧ le b a = true ∧ Before rest a b

variable {orders : List (α → α → Bool)}

theorem passes_perm
    (orders : List (α → α → Bool))
    (xs : List α) :
    (passes orders xs).Perm xs := by
  induction orders with
  | nil => exact List.Perm.refl xs
  | cons le rest ih =>
    exact (List.mergeSort_perm _ le).trans ih

theorem passes_sorted
    (hOrders : ∀ le ∈ orders, TotalPreorder le)
    (xs : List α) :
    (passes orders xs).Pairwise
      fun a b => ¬ Before orders b a := by
  induction orders with
  | nil =>
    refine List.pairwise_of_forall_mem_list ?_
    intro a _ b _ hBefore
    exact hBefore
  | cons le rest ih =>
    have hRest := ih fun other hOther =>
      hOrders other (.tail le hOther)
    refine (pairwise_mergeSort_of_pairwise
      (hOrders le (.head _)) hRest).imp ?_
    rintro a b ⟨hSorted, hTie⟩ (hLess | ⟨hBack, _, hLater⟩)
    · rw [hSorted] at hLess
      cases hLess
    · exact hTie hBack hLater

/- Elements that tie on every order stay as they were. -/
theorem filter_passes
    (hOrders : ∀ le ∈ orders, TotalPreorder le)
    {p : α → Bool}
    (hTied : ∀ a b, p a = true → p b = true → Tied orders a b)
    (xs : List α) :
    (passes orders xs).filter p = xs.filter p := by
  induction orders with
  | nil => rfl
  | cons le rest ih =>
    have hPass := filter_mergeSort
      (hOrders le (.head _))
      (fun a b hA hB =>
        (hTied a b hA hB le (.head _)).1)
      (passes rest xs)
    refine hPass.trans (ih ?_ ?_)
    · exact fun other hOther =>
        hOrders other (.tail le hOther)
    · exact fun a b hA hB other hOther =>
        hTied a b hA hB other
          (.tail le hOther)

end StableSort

end Library
