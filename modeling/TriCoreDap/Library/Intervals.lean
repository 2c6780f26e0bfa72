import Mathlib.Algebra.BigOperators.Group.Finset.Basic
import Mathlib.Algebra.GroupWithZero.Nat
import Mathlib.Algebra.Order.BigOperators.Group.Finset
import Mathlib.Order.Interval.Finset.Nat

/-!
# Covers by intervals

Intervals as pairs of a start and a size, the addresses in them, and what the
intervals of a cover of separate spans have to hold: with few intervals only few
of the gaps between the spans can be left out.
-/

namespace TriCoreDap

/-- The addresses in intervals. -/
def bytesOf : List (Nat × Nat) → Finset Nat
  | [] => ∅
  | (start, size) :: rest => Finset.Ico start (start + size) ∪ bytesOf rest

/-- The sizes of intervals together. -/
def totalSize (intervals : List (Nat × Nat)) : Nat := (intervals.map Prod.snd).sum

/-- No address is in both intervals. -/
def AddressDisjoint (first second : Nat × Nat) : Prop :=
  Disjoint (Finset.Ico first.1 (first.1 + first.2)) (Finset.Ico second.1 (second.1 + second.2))

variable {intervals : List (Nat × Nat)} {addr count : Nat} {lo hi : Nat → Nat}

theorem mem_bytesOf :
    addr ∈ bytesOf intervals ↔
      ∃ interval ∈ intervals, interval.1 ≤ addr ∧ addr < interval.1 + interval.2 := by
  induction intervals with
  | nil => simp [bytesOf]
  | cons interval rest inductionHypothesis => simp [bytesOf, inductionHypothesis]

theorem card_bytesOf_le (intervals : List (Nat × Nat)) :
    (bytesOf intervals).card ≤ totalSize intervals := by
  induction intervals with
  | nil => exact le_rfl
  | cons interval rest inductionHypothesis =>
      calc (bytesOf (interval :: rest)).card
          ≤ (Finset.Ico interval.1 (interval.1 + interval.2)).card + (bytesOf rest).card :=
            Finset.card_union_le _ _
        _ ≤ interval.2 + totalSize rest := by
            rw [Nat.card_Ico, Nat.add_sub_cancel_left]
            exact Nat.add_le_add_left inductionHypothesis _
        _ = totalSize (interval :: rest) := by rw [totalSize, totalSize, List.map_cons, List.sum_cons]

/-- The sizes count every address once if and only if no address is in two of
the intervals. -/
theorem card_bytesOf_eq_iff (intervals : List (Nat × Nat)) :
    (bytesOf intervals).card = totalSize intervals ↔ intervals.Pairwise AddressDisjoint := by
  induction intervals with
  | nil => simp [bytesOf, totalSize]
  | cons interval rest inductionHypothesis =>
      have bound := card_bytesOf_le rest
      have together := Finset.card_union_add_card_inter
        (Finset.Ico interval.1 (interval.1 + interval.2)) (bytesOf rest)
      have first : (Finset.Ico interval.1 (interval.1 + interval.2)).card = interval.2 := by
        rw [Nat.card_Ico, Nat.add_sub_cancel_left]
      have apart : (∀ other ∈ rest, AddressDisjoint interval other) ↔
          (Finset.Ico interval.1 (interval.1 + interval.2) ∩ bytesOf rest).card = 0 := by
        rw [Finset.card_eq_zero, ← Finset.disjoint_iff_inter_eq_empty, Finset.disjoint_left]
        simp only [AddressDisjoint, Finset.disjoint_left, mem_bytesOf, Finset.mem_Ico]
        constructor
        · rintro each addr here ⟨other, member, there⟩
          exact each other member here there
        · intro none other member addr here there
          exact none here ⟨other, member, there⟩
      rw [List.pairwise_cons, apart, ← inductionHypothesis, totalSize, List.map_cons, List.sum_cons,
        ← totalSize, bytesOf]
      omega

/-! ## Separate spans -/

/-- Spans from `lo i` to `hi i`, one behind the other and none touching the next. -/
structure Intervals (count : Nat) (lo hi : Nat → Nat) : Prop where
  positive : ∀ i, i < count → lo i < hi i
  apart : ∀ i, i + 1 < count → hi i < lo (i + 1)

/-- The size of the gap behind a span. -/
def gap (lo hi : Nat → Nat) (i : Nat) : Nat := lo (i + 1) - hi i

namespace Intervals

theorem before (row : Intervals count lo hi) {i j : Nat} (less : i < j) (inside : j < count) :
    hi i < lo j := by
  induction j with
  | zero => exact absurd less (Nat.not_lt_zero _)
  | succ j inductionHypothesis =>
      have next := row.apart j inside
      rcases Nat.lt_succ_iff_lt_or_eq.mp less with earlier | rfl
      · have here := row.positive j (Nat.lt_of_succ_lt inside)
        exact (inductionHypothesis earlier (Nat.lt_of_succ_lt inside)).trans (here.trans next)
      · exact next

theorem lt_of_le (row : Intervals count lo hi) {i j : Nat} (le : i ≤ j) (inside : j < count) :
    lo i < hi j := by
  rcases Nat.lt_or_eq_of_le le with less | rfl
  · have first := row.positive i (less.trans inside)
    exact first.trans ((row.before less inside).trans (row.positive j inside))
  · exact row.positive i inside

theorem mono (row : Intervals (count + 1) lo hi) : Intervals count lo hi where
  positive i inside := row.positive i (Nat.lt_succ_of_lt inside)
  apart i inside := row.apart i (Nat.lt_succ_of_lt inside)

/-- Between the ends every address is in a span or in a gap. -/
theorem mem_or_between
    (row : Intervals (count + 1) lo hi)
    (low : lo 0 ≤ addr)
    (high : addr < hi count) :
    (∃ i, i ≤ count ∧ lo i ≤ addr ∧ addr < hi i) ∨
      ∃ i, i < count ∧ hi i ≤ addr ∧ addr < lo (i + 1) := by
  induction count with
  | zero => exact Or.inl ⟨0, le_rfl, low, high⟩
  | succ count inductionHypothesis =>
      rcases Nat.lt_or_ge addr (hi count) with earlier | behind
      · rcases inductionHypothesis row.mono earlier with ⟨i, inside, bounds⟩ | ⟨i, inside, bounds⟩
        · exact Or.inl ⟨i, Nat.le_succ_of_le inside, bounds⟩
        · exact Or.inr ⟨i, Nat.lt_succ_of_lt inside, bounds⟩
      · rcases Nat.lt_or_ge addr (lo (count + 1)) with between | within
        · exact Or.inr ⟨count, Nat.lt_succ_self _, behind, between⟩
        · exact Or.inl ⟨count + 1, le_rfl, within, high⟩

/-- A cover by few intervals leaves out few gaps: it holds the whole extent but
for gaps that are fewer than the intervals. -/
theorem exists_left_out
    (row : Intervals (count + 1) lo hi)
    (covers : ∀ i, i ≤ count → ∀ addr, lo i ≤ addr → addr < hi i → addr ∈ bytesOf intervals) :
    ∃ leftOut : Finset Nat, leftOut ⊆ Finset.range count ∧ leftOut.card < intervals.length ∧
      hi count ≤ lo 0 + totalSize intervals + ∑ i ∈ leftOut, gap lo hi i := by
  classical
  let leftOut := (Finset.range count).filter fun i =>
    ∃ addr, hi i ≤ addr ∧ addr < lo (i + 1) ∧ addr ∉ bytesOf intervals
  refine ⟨leftOut, Finset.filter_subset _ _, ?_, ?_⟩
  · -- the last bytes of the spans before left out gaps and of the last span are
    -- in different intervals
    have ends (i : Nat) (inside : i ≤ count) :
        ∃ interval ∈ intervals, interval.1 ≤ hi i - 1 ∧ hi i - 1 < interval.1 + interval.2 := by
      have positive := row.positive i (Nat.lt_succ_of_le inside)
      exact mem_bytesOf.mp (covers i inside (hi i - 1) (by omega) (by omega))
    choose! interval member bounds using ends
    have fresh : count ∉ leftOut := fun inside =>
      Nat.lt_irrefl _ (Finset.mem_range.mp (Finset.mem_filter.mp inside).1)
    have mem_insert_le (i : Nat) (inside : i ∈ insert count leftOut) : i ≤ count := by
      rcases Finset.mem_insert.mp inside with rfl | inside
      · exact le_rfl
      · exact (Finset.mem_range.mp (Finset.mem_filter.mp inside).1).le
    have different (i j : Nat) (less : i < j) (inside : j ≤ count) (out : i ∈ leftOut) :
        interval i ≠ interval j := by
      intro same
      obtain ⟨-, addr, low, high, uncovered⟩ := Finset.mem_filter.mp out
      have here := bounds i (less.le.trans inside)
      have there := bounds j inside
      rw [← same] at there
      have behind : lo (i + 1) ≤ lo j := by
        rcases Nat.lt_or_ge (i + 1) j with further | next
        · have positive := row.positive (i + 1) (by omega)
          exact (positive.trans (row.before further (Nat.lt_succ_of_le inside))).le
        · rw [show i + 1 = j by omega]
      have positive := row.positive j (Nat.lt_succ_of_le inside)
      exact uncovered (mem_bytesOf.mpr ⟨interval i, member i (by omega), by omega, by omega⟩)
    have injective : Set.InjOn interval (insert count leftOut : Finset Nat) := by
      intro i first j second same
      have i_le := mem_insert_le i first
      have j_le := mem_insert_le j second
      rcases Nat.lt_trichotomy i j with less | equal | more
      · have out := Finset.mem_of_mem_insert_of_ne first (by omega)
        exact absurd same (different i j less j_le out)
      · exact equal
      · have out := Finset.mem_of_mem_insert_of_ne second (by omega)
        exact absurd same.symm (different j i more i_le out)
    have inside : ∀ i ∈ insert count leftOut, interval i ∈ intervals.toFinset := fun i here =>
      List.mem_toFinset.mpr (member i (mem_insert_le i here))
    have few := Finset.card_le_card_of_injOn interval inside injective
    rw [Finset.card_insert_of_notMem fresh] at few
    exact few.trans (List.toFinset_card_le intervals)
  · have extent : Finset.Ico (lo 0) (hi count) ⊆
        bytesOf intervals ∪ leftOut.biUnion fun i => Finset.Ico (hi i) (lo (i + 1)) := by
      intro addr member
      obtain ⟨low, high⟩ := Finset.mem_Ico.mp member
      rw [Finset.mem_union]
      by_cases covered : addr ∈ bytesOf intervals
      · exact Or.inl covered
      · rcases row.mem_or_between low high with ⟨i, inside, here⟩ | ⟨i, inside, here⟩
        · exact Or.inl (covers i inside addr here.1 here.2)
        · refine Or.inr (Finset.mem_biUnion.mpr ⟨i, ?_, Finset.mem_Ico.mpr here⟩)
          exact Finset.mem_filter.mpr ⟨Finset.mem_range.mpr inside, addr, here.1, here.2, covered⟩
    have gaps : (leftOut.biUnion fun i => Finset.Ico (hi i) (lo (i + 1))).card ≤
        ∑ i ∈ leftOut, gap lo hi i := by
      refine Finset.card_biUnion_le.trans (le_of_eq ?_)
      exact Finset.sum_congr rfl fun i _ => Nat.card_Ico _ _
    have sizes := card_bytesOf_le intervals
    have whole := (Finset.card_le_card extent).trans (Finset.card_union_le _ _)
    rw [Nat.card_Ico] at whole
    omega

end Intervals

/-! ## The largest values -/

/-- No choice of `n` has a larger sum than the first `n` in falling order. -/
theorem sum_le_sum_take
    {value : Nat → Nat}
    {falling : List Nat}
    (sorted : falling.Pairwise fun i j => value j ≤ value i)
    (n : Nat)
    (chosen : Finset Nat)
    (among : ∀ i ∈ chosen, i ∈ falling)
    (few : chosen.card ≤ n) :
    ∑ i ∈ chosen, value i ≤ ((falling.take n).map value).sum := by
  induction falling generalizing n chosen with
  | nil =>
      have none : chosen = ∅ :=
        Finset.eq_empty_of_forall_notMem fun i member => List.not_mem_nil (among i member)
      rw [none]
      exact Nat.zero_le _
  | cons largest rest inductionHypothesis =>
      obtain ⟨first, others⟩ := List.pairwise_cons.mp sorted
      cases n with
      | zero =>
          rw [Finset.card_eq_zero.mp (Nat.le_zero.mp few)]
          exact Nat.zero_le _
      | succ n =>
          rw [List.take_succ_cons, List.map_cons, List.sum_cons]
          rcases chosen.eq_empty_or_nonempty with rfl | ⟨i, member⟩
          · exact Nat.zero_le _
          -- the largest value where it is chosen, else any
          obtain ⟨i, member, rest_of⟩ : ∃ i ∈ chosen, ∀ j ∈ chosen.erase i, j ∈ rest := by
            by_cases taken : largest ∈ chosen
            · refine ⟨largest, taken, fun j inside => ?_⟩
              obtain ⟨other, inside⟩ := Finset.mem_erase.mp inside
              exact List.mem_of_ne_of_mem other (among j inside)
            · refine ⟨i, member, fun j inside => ?_⟩
              have inside := Finset.mem_of_mem_erase inside
              refine List.mem_of_ne_of_mem ?_ (among j inside)
              rintro rfl
              exact taken inside
          have less : value i ≤ value largest := by
            rcases List.mem_cons.mp (among i member) with rfl | later
            · exact le_rfl
            · exact first i later
          have smaller := inductionHypothesis others n (chosen.erase i) rest_of
            (by rw [Finset.card_erase_of_mem member]; omega)
          rw [← Finset.add_sum_erase chosen value member]
          exact Nat.add_le_add less smaller

end TriCoreDap
