import Mathlib.Data.List.Basic
import Mathlib.Tactic.Ring

/-!
# Slices of lists

Assignment to a slice that keeps the length of the list.
-/

namespace TriCoreDap

variable {α : Type} {xs ys : List α} {lo hi : Nat}

/-- `xs[lo:hi]`. -/
def slice (xs : List α) (lo hi : Nat) : List α := (xs.drop lo).take (hi - lo)

/-- `xs[lo:hi] = ys`. -/
def splice (xs : List α) (lo hi : Nat) (ys : List α) : List α := xs.take lo ++ ys ++ xs.drop hi

theorem length_slice (inside : hi ≤ xs.length) : (slice xs lo hi).length = hi - lo := by
  rw [slice, List.length_take, List.length_drop]
  omega

theorem getElem?_slice (index : Nat) :
    (slice xs lo hi)[index]? = if index < hi - lo then xs[lo + index]? else none := by
  rw [slice, List.getElem?_take]
  split_ifs
  · rw [List.getElem?_drop]
  · rfl

theorem length_splice
    (le : lo ≤ hi)
    (inside : hi ≤ xs.length)
    (fits : ys.length = hi - lo) : (splice xs lo hi ys).length = xs.length := by
  rw [splice, List.length_append, List.length_append, List.length_take, List.length_drop]
  omega

theorem getElem?_splice
    (le : lo ≤ hi)
    (inside : hi ≤ xs.length)
    (fits : ys.length = hi - lo)
    (index : Nat) :
    (splice xs lo hi ys)[index]? =
      if lo ≤ index ∧ index < hi then ys[index - lo]? else xs[index]? := by
  have take : (xs.take lo).length = lo := by
    rw [List.length_take]
    omega
  rw [splice, List.append_assoc]
  by_cases before : index < lo
  · rw [List.getElem?_append_left (by omega), List.getElem?_take_of_lt before, if_neg (by omega)]
  rw [List.getElem?_append_right (by omega), take]
  by_cases within : index < hi
  · rw [List.getElem?_append_left (by omega), if_pos (by omega)]
  · rw [List.getElem?_append_right (by omega), List.getElem?_drop, if_neg (by omega)]
    congr 1
    omega

end TriCoreDap
