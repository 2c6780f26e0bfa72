import Mathlib.Order.MinMax
import Mathlib.Order.Bounds.Defs
import Mathlib.Data.List.Basic

/-!
# Reductions over windows

An array as a function of the index, reduced over the windows that tile it, and the
first index of a window where it is least.
-/

namespace TriCoreDap

variable {β : Type}

/-- `op.reduce(a[lo:hi])`, and `a[lo]` where that is empty. -/
def foldWindow (op : β → β → β) (a : Nat → β) (lo hi : Nat) : β :=
  (List.range' (lo + 1) (hi - (lo + 1))).foldl (fun acc i => op acc (a i)) (a lo)

/-- `op.reduceat(a, starts)` of an array of `size` elements. -/
def reduceat (op : β → β → β) (a : Nat → β) (size : Nat) : List Nat → List β
  | [] => []
  | lo :: later => foldWindow op a lo (later.headD size) :: reduceat op a size later

/-- The windows follow one another from `lo` to `hi`, none of them empty. -/
def Tiles (lo : Nat) (hi : Nat) : List (Nat × Nat) → Prop
  | [] => lo = hi
  | window :: later => window.1 = lo ∧ lo < window.2 ∧ Tiles window.2 hi later

/-- `np.repeat(np.arange(len(counts)), counts)` -/
def repeatIndex (counts : List Nat) : List Nat :=
  counts.zipIdx.flatMap fun count => List.replicate count.1 count.2

/-- The first index of the window where the value is least. -/
structure FirstLeast [LinearOrder β] (value : Nat → β) (lo hi index : Nat) : Prop where
  low : lo ≤ index
  high : index < hi
  least : ∀ i, lo ≤ i → i < hi → value index ≤ value i
  first : ∀ i, lo ≤ i → i < index → value index < value i

variable {op : β → β → β} {a : Nat → β} {lo hi index size : Nat} {windows : List (Nat × Nat)}

/-! ## One window -/

theorem foldWindow_one (op : β → β → β) (a : Nat → β) (lo : Nat) :
    foldWindow op a lo (lo + 1) = a lo := by
  rw [foldWindow, Nat.sub_self]
  rfl

theorem foldWindow_succ (less : lo < hi) :
    foldWindow op a lo (hi + 1) = op (foldWindow op a lo hi) (a hi) := by
  have count : hi + 1 - (lo + 1) = hi - (lo + 1) + 1 := by omega
  have last : lo + 1 + (hi - (lo + 1)) = hi := by omega
  rw [foldWindow, count, List.range'_1_concat, List.foldl_append, last]
  rfl

/-- A reduction sees the window alone. -/
theorem foldWindow_congr {b : Nat → β} (less : lo < hi)
    (same : ∀ i, lo ≤ i → i < hi → a i = b i) : foldWindow op a lo hi = foldWindow op b lo hi := by
  induction hi, less using Nat.le_induction with
  | base =>
      rw [foldWindow_one, foldWindow_one]
      exact same lo le_rfl (Nat.lt_succ_self lo)
  | succ hi less inductionHypothesis =>
      rw [foldWindow_succ less, foldWindow_succ less, same hi (Nat.le_of_lt less) (Nat.lt_succ_self hi),
        inductionHypothesis fun i low high => same i low (Nat.lt_succ_of_lt high)]

section
variable [LinearOrder β]

/-- The minimum of a window is one of its values and below all of them. -/
theorem isLeast_foldWindow (less : lo < hi) :
    IsLeast {value | ∃ i, lo ≤ i ∧ i < hi ∧ a i = value} (foldWindow min a lo hi) := by
  induction hi, less using Nat.le_induction with
  | base =>
      rw [foldWindow_one]
      refine ⟨⟨lo, le_rfl, Nat.lt_succ_self lo, rfl⟩, ?_⟩
      rintro _ ⟨i, low, high, rfl⟩
      rw [show i = lo by omega]
  | succ hi less inductionHypothesis =>
      obtain ⟨⟨index, low, high, value⟩, below⟩ := inductionHypothesis
      rw [foldWindow_succ less]
      constructor
      · rcases min_cases (foldWindow min a lo hi) (a hi) with ⟨eq, -⟩ | ⟨eq, -⟩
        · exact ⟨index, low, Nat.lt_succ_of_lt high, value.trans eq.symm⟩
        · exact ⟨hi, Nat.le_of_lt less, Nat.lt_succ_self hi, eq.symm⟩
      · rintro _ ⟨i, low, high, rfl⟩
        rcases Nat.lt_succ_iff_lt_or_eq.mp high with before | rfl
        · exact (min_le_left _ _).trans (below ⟨i, low, before, rfl⟩)
        · exact min_le_right _ _

/-- The least of the indices at which the window has its minimum. -/
theorem firstLeast_foldWindow (less : lo < hi) (inside : hi ≤ size) :
    FirstLeast a lo hi
      (foldWindow min (fun i => if a i = foldWindow min a lo hi then i else size) lo hi) := by
  obtain ⟨⟨least, low, high, value⟩, below⟩ := isLeast_foldWindow (a := a) less
  obtain ⟨⟨index, low', high', chosen⟩, before⟩ :=
    isLeast_foldWindow (a := fun i => if a i = foldWindow min a lo hi then i else size) less
  have upper := before ⟨least, low, high, if_pos value⟩
  have attains : a index = foldWindow min a lo hi := by
    by_contra other
    rw [if_neg other] at chosen
    omega
  rw [if_pos attains] at chosen
  rw [← chosen]
  refine ⟨low', high', fun i from_lo to_hi => ?_, fun i from_lo earlier => ?_⟩
  · rw [attains]
    exact below ⟨i, from_lo, to_hi, rfl⟩
  · refine lt_of_le_of_ne ?_ fun same => ?_
    · rw [attains]
      exact below ⟨i, from_lo, earlier.trans high', rfl⟩
    · have again := before ⟨i, from_lo, earlier.trans high', if_pos (same.symm.trans attains)⟩
      omega

/-- The least of the indices at which the window has its maximum. -/
theorem firstGreatest_foldWindow (less : lo < hi) (inside : hi ≤ size) :
    FirstLeast (fun i => OrderDual.toDual (a i)) lo hi
      (foldWindow min (fun i => if a i = foldWindow max a lo hi then i else size) lo hi) :=
  firstLeast_foldWindow (β := βᵒᵈ) less inside

end

/-! ## All windows -/

theorem Tiles.le (tiles : Tiles lo hi windows) : lo ≤ hi := by
  induction windows generalizing lo with
  | nil => exact le_of_eq tiles
  | cons window later inductionHypothesis =>
      obtain ⟨-, less, rest⟩ := tiles
      exact less.le.trans (inductionHypothesis rest)

/-- Each window lies within the whole. -/
theorem Tiles.mem (tiles : Tiles lo hi windows) {window : Nat × Nat} (member : window ∈ windows) :
    lo ≤ window.1 ∧ window.1 < window.2 ∧ window.2 ≤ hi := by
  induction windows generalizing lo with
  | nil => exact absurd member List.not_mem_nil
  | cons head later inductionHypothesis =>
      obtain ⟨start, less, rest⟩ := tiles
      rcases List.mem_cons.mp member with rfl | after
      · exact ⟨start.ge, start.symm ▸ less, rest.le⟩
      · obtain ⟨low, inside, high⟩ := inductionHypothesis rest after
        exact ⟨less.le.trans low, inside, high⟩

/-- Where windows tile the array, it is reduced window by window. -/
theorem Tiles.reduceat_eq (tiles : Tiles lo hi windows) (op : β → β → β) (a : Nat → β) :
    reduceat op a hi (windows.map Prod.fst) =
      windows.map fun window => foldWindow op a window.1 window.2 := by
  induction windows generalizing lo with
  | nil => rfl
  | cons window later inductionHypothesis =>
      obtain ⟨-, -, rest⟩ := tiles
      rw [List.map_cons, List.map_cons, reduceat, inductionHypothesis rest]
      congr 2
      cases later with
      | nil => exact rest.symm
      | cons next _ => exact rest.1

/-- The number of the window at each of its indices. -/
theorem Tiles.getElem?_repeatIndex
    (tiles : Tiles lo hi windows) {k : Nat} {window : Nat × Nat}
    (found : windows[k]? = some window) (low : window.1 ≤ index) (high : index < window.2)
    (first : Nat) :
    (((windows.map fun window => window.2 - window.1).zipIdx first).flatMap
      fun count => List.replicate count.1 count.2)[index - lo]? = some (first + k) := by
  induction windows generalizing lo k first with
  | nil => cases found
  | cons head later inductionHypothesis =>
      obtain ⟨start, less, rest⟩ := tiles
      rw [List.map_cons, List.zipIdx_cons, List.flatMap_cons]
      cases k with
      | zero =>
          cases found
          have inside : index - lo < window.2 - window.1 := by omega
          rw [List.getElem?_append_left (by rw [List.length_replicate]; exact inside),
            List.getElem?_replicate_of_lt inside]
          rfl
      | succ k =>
          rw [List.getElem?_cons_succ] at found
          have after := (rest.mem (List.mem_of_getElem? found)).1
          have behind : index - lo - (head.2 - head.1) = index - head.2 := by omega
          have count : head.2 - head.1 ≤ index - lo := by omega
          rw [List.getElem?_append_right (by rw [List.length_replicate]; exact count),
            List.length_replicate, behind, inductionHypothesis rest found (first + 1)]
          congr 1
          omega

/-- Indices chosen in one window after the other rise. -/
theorem Tiles.pairwise_flatMap
    (tiles : Tiles lo hi windows) {chosen : Nat × Nat → List Nat}
    (rising : ∀ window ∈ windows, (chosen window).Pairwise (· < ·))
    (inside : ∀ window ∈ windows, ∀ i ∈ chosen window, window.1 ≤ i ∧ i < window.2) :
    (windows.flatMap chosen).Pairwise (· < ·) := by
  induction windows generalizing lo with
  | nil => exact List.Pairwise.nil
  | cons head later inductionHypothesis =>
      obtain ⟨start, less, rest⟩ := tiles
      rw [List.flatMap_cons, List.pairwise_append]
      refine ⟨rising head List.mem_cons_self, ?_, fun i here j there => ?_⟩
      · exact inductionHypothesis rest
          (fun window member => rising window (List.mem_cons_of_mem _ member))
          fun window member => inside window (List.mem_cons_of_mem _ member)
      · obtain ⟨window, member, there⟩ := List.mem_flatMap.mp there
        have before := (inside head List.mem_cons_self i here).2
        have after := (inside window (List.mem_cons_of_mem _ member) j there).1
        exact before.trans_le ((rest.mem member).1.trans after)

/-- The indices chosen in a window are all that lie in it. -/
theorem Tiles.filter_flatMap
    (tiles : Tiles lo hi windows) {chosen : Nat × Nat → List Nat}
    (inside : ∀ window ∈ windows, ∀ i ∈ chosen window, window.1 ≤ i ∧ i < window.2)
    {window : Nat × Nat} (member : window ∈ windows) :
    (windows.flatMap chosen).filter (fun i => window.1 ≤ i ∧ i < window.2) = chosen window := by
  induction windows generalizing lo with
  | nil => exact absurd member List.not_mem_nil
  | cons head later inductionHypothesis =>
      obtain ⟨start, less, rest⟩ := tiles
      have here := inside head List.mem_cons_self
      have there := fun window member => inside window (List.mem_cons_of_mem head member)
      rw [List.flatMap_cons, List.filter_append]
      rcases List.mem_cons.mp member with rfl | after
      · have all : (chosen window).filter (fun i => window.1 ≤ i ∧ i < window.2) = chosen window :=
          List.filter_eq_self.mpr fun i chosen_i => decide_eq_true (here i chosen_i)
        have none : (later.flatMap chosen).filter (fun i => window.1 ≤ i ∧ i < window.2) = [] := by
          rw [List.filter_eq_nil_iff]
          intro i chosen_i
          obtain ⟨other, member, chosen_i⟩ := List.mem_flatMap.mp chosen_i
          have behind := (rest.mem member).1
          have low := (there other member i chosen_i).1
          rw [decide_eq_true_eq]
          omega
        rw [all, none, List.append_nil]
      · have none : (chosen head).filter (fun i => window.1 ≤ i ∧ i < window.2) = [] := by
          rw [List.filter_eq_nil_iff]
          intro i chosen_i
          have behind := (rest.mem after).1
          have high := (here i chosen_i).2
          rw [decide_eq_true_eq]
          omega
        rw [none, List.nil_append]
        exact inductionHypothesis rest there after

end TriCoreDap
