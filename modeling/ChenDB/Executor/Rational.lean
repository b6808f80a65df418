import Mathlib.Algebra.Order.Ring.Rat
import ChenDB.Executor.Expression

/-
  Rational numbers in the place of doubles, for expressions
  worked out on concrete rows.
-/

namespace ChenDB

namespace Executor

/- Doubles without rounding. -/
instance : Double Rat where
  ofInt value := value
  neg value := -value
  add := (· + ·)
  sub := (· - ·)
  mul := (· * ·)
  div := (· / ·)
  mod left right := left - right * (left / right).floor
  exactMod left right :=
    let exact : Rat ⊕ Int → Rat := Sum.elim id (fun n => n)
    exact left - exact right * (exact left / exact right).floor
  isFinite _ := true
  compare left right :=
    if left < right then .lt
    else if left = right then .eq
    else .gt
  compareInt left right :=
    if left < right then .lt
    else if left = right then .eq
    else .gt
  render value := toString value

end Executor

end ChenDB
