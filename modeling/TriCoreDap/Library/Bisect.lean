import Mathlib.Data.List.Basic

/-!
# Bisection

The place from which on a property of the indices holds, or one of the elements of a
sorted list, found by halving.
-/

namespace TriCoreDap

/-- The loop of a binary search between `lo` and `hi`. -/
def bisect (holds : Nat → Bool) (lo hi : Nat) : Nat :=
  if lo < hi then
    if holds ((lo + hi) / 2) then bisect holds lo ((lo + hi) / 2)
    else bisect holds ((lo + hi) / 2 + 1) hi
  else lo
termination_by hi - lo

variable {holds : Nat → Bool} {lo hi i : Nat}

theorem bisect_of_holds (less : lo < hi) (here : holds ((lo + hi) / 2) = true) :
    bisect holds lo hi = bisect holds lo ((lo + hi) / 2) := by
  rw [bisect, if_pos less, if_pos here]

theorem bisect_of_fails (less : lo < hi) (here : ¬holds ((lo + hi) / 2) = true) :
    bisect holds lo hi = bisect holds ((lo + hi) / 2 + 1) hi := by
  rw [bisect, if_pos less, if_neg here]

theorem bisect_of_empty (empty : ¬lo < hi) : bisect holds lo hi = lo := by
  rw [bisect, if_neg empty]

theorem bisect_bounds (holds : Nat → Bool) (le : lo ≤ hi) :
    lo ≤ bisect holds lo hi ∧ bisect holds lo hi ≤ hi := by
  induction lo, hi using bisect.induct holds with
  | case1 lo hi less here inductionHypothesis =>
      rw [bisect_of_holds less here]
      obtain ⟨low, high⟩ := inductionHypothesis (by omega)
      exact ⟨low, by omega⟩
  | case2 lo hi less here inductionHypothesis =>
      rw [bisect_of_fails less here]
      obtain ⟨low, high⟩ := inductionHypothesis (by omega)
      exact ⟨by omega, high⟩
  | case3 lo hi empty =>
      rw [bisect_of_empty empty]
      exact ⟨Nat.le_refl lo, le⟩

/-- The index before the place was looked at, so the property fails there whether or not
the indices are in order. -/
theorem not_holds_bisect_pred (le : lo ≤ hi) (less : lo < bisect holds lo hi) :
    holds (bisect holds lo hi - 1) = false := by
  induction lo, hi using bisect.induct holds with
  | case1 lo hi inside here inductionHypothesis =>
      rw [bisect_of_holds inside here] at less ⊢
      exact inductionHypothesis (by omega) less
  | case2 lo hi inside here inductionHypothesis =>
      rw [bisect_of_fails inside here] at less ⊢
      have bounds := bisect_bounds holds (show (lo + hi) / 2 + 1 ≤ hi by omega)
      rcases Nat.lt_or_eq_of_le bounds.1 with later | same
      · exact inductionHypothesis (by omega) later
      · rw [← same, Nat.add_sub_cancel]
        exact eq_false_of_ne_true here
  | case3 lo hi empty =>
      rw [bisect_of_empty empty] at less
      exact absurd less (Nat.lt_irrefl lo)

/-- Where the property, once it holds, holds of all later indices, it holds from the place
found on and not before. -/
theorem lt_bisect_iff
    (upward : ∀ i j, lo ≤ i → i ≤ j → j < hi → holds i = true → holds j = true)
    (low : lo ≤ i)
    (high : i < hi) : i < bisect holds lo hi ↔ holds i = false := by
  induction lo, hi using bisect.induct holds with
  | case1 lo hi inside here inductionHypothesis =>
      rw [bisect_of_holds inside here]
      rcases Nat.lt_or_ge i ((lo + hi) / 2) with before | after
      · exact inductionHypothesis
          (fun i j low le below => upward i j low le (by omega)) low before
      · have bounds := bisect_bounds holds (show lo ≤ (lo + hi) / 2 by omega)
        have there := upward _ i (by omega) after high here
        rw [there]
        constructor
        · intro less
          omega
        · intro fails
          cases fails
  | case2 lo hi inside here inductionHypothesis =>
      rw [bisect_of_fails inside here]
      rcases Nat.lt_or_ge ((lo + hi) / 2) i with after | before
      · exact inductionHypothesis
          (fun i j low le below => upward i j (by omega) le below) after high
      · have bounds := bisect_bounds holds (show (lo + hi) / 2 + 1 ≤ hi by omega)
        refine ⟨fun _ => ?_, fun _ => by omega⟩
        cases there : holds i with
        | false => rfl
        | true => exact absurd (upward i _ low before (by omega) there) here
  | case3 lo hi empty => omega

/-! ## Sorted lists -/

variable {α : Type} {p : α → Bool} {xs : List α} {a : α}

/-- The place of a list from which on a property of its elements holds. -/
def bisectList (p : α → Bool) (xs : List α) : Nat :=
  bisect (fun i => (xs[i]?).all p) 0 xs.length

theorem bisectList_le (p : α → Bool) (xs : List α) : bisectList p xs ≤ xs.length :=
  (bisect_bounds _ (Nat.zero_le _)).2

/-- The element before the place fails, in any list. -/
theorem fails_bisectList_pred (some_fail : 0 < bisectList p xs) :
    ∃ a, xs[bisectList p xs - 1]? = some a ∧ p a = false := by
  have inside : bisectList p xs - 1 < xs.length := by
    have := bisectList_le p xs
    omega
  refine ⟨xs[bisectList p xs - 1], List.getElem?_eq_getElem inside, ?_⟩
  have fails := not_holds_bisect_pred (Nat.zero_le _) some_fail
  rw [← bisectList, List.getElem?_eq_getElem inside, Option.all_some] at fails
  exact fails

/-- A property that passes on to what comes later in the order holds from the place on. -/
theorem lt_bisectList_iff
    {r : α → α → Prop}
    (sorted : xs.Pairwise r)
    (upward : ∀ a b, r a b → p a = true → p b = true)
    (found : xs[i]? = some a) : i < bisectList p xs ↔ p a = false := by
  obtain ⟨inside, rfl⟩ := List.getElem?_eq_some_iff.mp found
  rw [bisectList, lt_bisect_iff _ (Nat.zero_le i) inside, found, Option.all_some]
  intro i j _ le below holds
  have inside_i : i < xs.length := by omega
  rw [List.getElem?_eq_getElem inside_i, Option.all_some] at holds
  rw [List.getElem?_eq_getElem below, Option.all_some]
  rcases Nat.lt_or_eq_of_le le with less | rfl
  · exact upward _ _ (List.pairwise_iff_getElem.mp sorted i j inside_i below less) holds
  · exact holds

end TriCoreDap
