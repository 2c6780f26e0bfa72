import Mathlib.Data.List.Basic

/-!
# Lists

Merges of two lists, and lists of lists.
-/

namespace TriCoreDap

variable {α β : Type*}

/-- The third list holds the other two, each in its own order. -/
inductive Merge : List α → List α → List α → Prop
  | nil : Merge [] [] []
  | left {first second merged : List α} (x : α) :
      Merge first second merged → Merge (x :: first) second (x :: merged)
  | right {first second merged : List α} (x : α) :
      Merge first second merged → Merge first (x :: second) (x :: merged)

namespace Merge

variable {first second merged : List α}

theorem swap (merge : Merge first second merged) : Merge second first merged := by
  induction merge with
  | nil => exact .nil
  | left x _ inductionHypothesis => exact .right x inductionHypothesis
  | right x _ inductionHypothesis => exact .left x inductionHypothesis

/-- What tells the lists apart gives the first one back. -/
theorem filter
    (merge : Merge first second merged)
    (p : α → Prop)
    [DecidablePred p]
    (yes : ∀ x ∈ first, p x)
    (no : ∀ x ∈ second, ¬p x) : merged.filter (fun x => p x) = first := by
  induction merge with
  | nil => rfl
  | left x _ inductionHypothesis =>
      rw [List.forall_mem_cons] at yes
      rw [List.filter_cons_of_pos (by simpa using yes.1), inductionHypothesis yes.2 no]
  | right x _ inductionHypothesis =>
      rw [List.forall_mem_cons] at no
      rw [List.filter_cons_of_neg (by simpa using no.1), inductionHypothesis yes no.2]

theorem mem (merge : Merge first second merged) (member : x ∈ merged) :
    x ∈ first ∨ x ∈ second := by
  induction merge with
  | nil => cases member
  | left y _ inductionHypothesis =>
      rcases List.mem_cons.mp member with rfl | member
      · exact Or.inl List.mem_cons_self
      · exact (inductionHypothesis member).imp_left (List.mem_cons_of_mem y)
  | right y _ inductionHypothesis =>
      rcases List.mem_cons.mp member with rfl | member
      · exact Or.inr List.mem_cons_self
      · exact (inductionHypothesis member).imp_right (List.mem_cons_of_mem y)

end Merge

/-! ## Lists of lists -/

variable {f : α → List β} {size : Nat}

theorem length_flatMap_of_forall
    (each : ∀ x, (f x).length = size)
    (xs : List α) : (xs.flatMap f).length = xs.length * size := by
  induction xs with
  | nil => simp
  | cons x rest inductionHypothesis =>
      rw [List.flatMap_cons, List.length_append, each, inductionHypothesis, List.length_cons,
        Nat.succ_mul, Nat.add_comm]

theorem length_flatMap_le
    (each : ∀ x, (f x).length ≤ size)
    (xs : List α) : (xs.flatMap f).length ≤ xs.length * size := by
  induction xs with
  | nil => exact Nat.zero_le _
  | cons x rest inductionHypothesis =>
      rw [List.flatMap_cons, List.length_append, List.length_cons, Nat.succ_mul, Nat.add_comm]
      exact Nat.add_le_add inductionHypothesis (each x)

/-- Whole lists left out. -/
theorem drop_flatMap_of_forall
    (each : ∀ x, (f x).length = size)
    (count : Nat)
    (xs : List α) : (xs.flatMap f).drop (count * size) = (xs.drop count).flatMap f := by
  induction count generalizing xs with
  | zero => simp
  | succ count inductionHypothesis =>
      cases xs with
      | nil => simp
      | cons x rest =>
          rw [List.flatMap_cons, List.drop_succ_cons, ← inductionHypothesis, Nat.succ_mul,
            Nat.add_comm, ← List.drop_drop, ← each x, List.drop_left]

/-- Of two members one is before the other. -/
theorem same_or_of_pairwise
    {R : α → α → Prop}
    {xs : List α}
    (pairwise : xs.Pairwise R)
    (first : x ∈ xs)
    (second : y ∈ xs) : x = y ∨ R x y ∨ R y x := by
  let Either (x y : α) : Prop := x = y ∨ R x y ∨ R y x
  have before : xs.Pairwise Either := pairwise.imp fun less => Or.inr (Or.inl less)
  have after : xs.Pairwise (flip Either) := pairwise.imp fun less => Or.inr (Or.inr less)
  exact List.Pairwise.forall_of_forall_of_flip (R := Either) (fun _ _ => Or.inl rfl) before after
    first second

theorem find?_congr
    {xs : List α}
    {first second : α → Bool}
    (same : ∀ x ∈ xs, first x = second x) : xs.find? first = xs.find? second := by
  induction xs with
  | nil => rfl
  | cons x rest inductionHypothesis =>
      rw [List.forall_mem_cons] at same
      rw [List.find?_cons, List.find?_cons, same.1, inductionHypothesis same.2]

/-- Where each list is at least as long and all are together as long, each is as
long. -/
theorem length_flatMap_eq
    {γ : Type*}
    {g : α → List γ}
    {xs : List α}
    (le : ∀ x ∈ xs, (f x).length ≤ (g x).length)
    (eq : (xs.flatMap f).length = (xs.flatMap g).length) :
    ∀ x ∈ xs, (f x).length = (g x).length := by
  have total (ys : List α) (le : ∀ x ∈ ys, (f x).length ≤ (g x).length) :
      (ys.flatMap f).length ≤ (ys.flatMap g).length := by
    induction ys with
    | nil => simp
    | cons y rest inductionHypothesis =>
        rw [List.forall_mem_cons] at le
        have later := inductionHypothesis le.2
        rw [List.flatMap_cons, List.flatMap_cons, List.length_append, List.length_append]
        omega
  induction xs with
  | nil => exact fun _ member => absurd member List.not_mem_nil
  | cons y rest inductionHypothesis =>
      rw [List.forall_mem_cons] at le ⊢
      rw [List.flatMap_cons, List.flatMap_cons, List.length_append, List.length_append] at eq
      have later := total rest le.2
      exact ⟨by omega, inductionHypothesis le.2 (by omega)⟩

end TriCoreDap
