import TriCoreDap.Library.Splice
import TriCoreDap.Library.Windows
import Mathlib.Order.WithBot

/-!
# Decimation of a plotted series

`plotrender.py`: the samples of a view, reduced to the minimum and the maximum of
each bin.  Arrays of `numpy` are lists where they come in and go out, and functions
of the index in between.
-/

namespace TriCoreDap
namespace Plot

variable {T α : Type} [LinearOrder T] [LinearOrder α]

/-- A float that is a number: finite or one of the infinities. -/
abbrev Number (α : Type) := WithBot (WithTop α)

/-- A float, `none` for NaN. -/
abbrev Value (α : Type) := Option (Number α)

/-- `np.isfinite` -/
def IsFinite (value : Number α) : Prop := value ≠ ⊥ ∧ value ≠ ⊤

instance (value : Number α) : Decidable (IsFinite value) := inferInstanceAs (Decidable (_ ∧ _))

/-- What `np.linspace` does with times: so many, from the first to the last. -/
structure Axis (T : Type) [LinearOrder T] where
  linspace : T → T → Nat → List T
  length_linspace : ∀ x0 x1 num, (linspace x0 x1 num).length = num
  sorted_linspace : ∀ x0 x1 num, x0 ≤ x1 → (linspace x0 x1 num).Pairwise (· ≤ ·)

/-- `np.searchsorted(t, x, side='left')` -/
def searchLeft (t : List T) (x : T) : Nat := t.findIdx fun y => x ≤ y

/-- `np.searchsorted(t, x, side='right')` -/
def searchRight (t : List T) (x : T) : Nat := t.findIdx fun y => x < y

/-- `edges[1:-1]`, found in the times. -/
def borders (axis : Axis T) (t : List T) (x0 x1 : T) (bins : Nat) : List Nat :=
  let edges := axis.linspace x0 x1 (bins + 1)
  (slice edges 1 (edges.length - 1)).map fun edge => min (searchLeft t edge) t.length

/-- All bins, as windows of the samples: `starts` and `ends` before `keep`. -/
def allBins (axis : Axis T) (t : List T) (x0 x1 : T) (bins : Nat) : List (Nat × Nat) :=
  let idx := borders axis t x0 x1 bins
  (0 :: idx).zip (idx ++ [t.length])

/-- `starts[keep]` and `ends[keep]`. -/
def keptBins (axis : Axis T) (t : List T) (x0 x1 : T) (bins : Nat) : List (Nat × Nat) :=
  (allBins axis t x0 x1 bins).filter fun bin => bin.1 < bin.2

/-- `vmin` -/
def vmin (v : List (Value α)) (i : Nat) : Number α := (v.getD i none).getD ⊤

/-- `vmax` -/
def vmax (v : List (Value α)) (i : Nat) : Number α := (v.getD i none).getD ⊥

/-- `np.where(values == extreme[bin_of], ar, n)` -/
def extremeAt (values : Nat → Number α) (extreme : List (Number α)) (binOf : List Nat) (n i : Nat) :
    Nat :=
  if extreme[binOf.getD i 0]? = some (values i) then i else n

/-- The two columns of `pick` for a bin, with `blank`. -/
def pickRow (start : Nat) (lo : Number α) (ia ib : Nat) : List (Int × Bool) :=
  let empty : Bool := ¬IsFinite lo
  let ia := if empty then start else ia
  let ib := if empty then start else ib
  let first := min ia ib
  let second := max ia ib
  [(first, empty), (if first ≠ second then (second : Int) else -1, empty)]

/-- `pick` and `blank`. -/
def picked (t : List T) (v : List (Value α)) (bins : List (Nat × Nat)) : List (Int × Bool) :=
  let n := t.length
  let starts := bins.map Prod.fst
  let lo := reduceat min (vmin v) n starts
  let hi := reduceat max (vmax v) n starts
  let binOf := repeatIndex (bins.map fun bin => bin.2 - bin.1)
  let ia := reduceat min (extremeAt (vmin v) lo binOf n) n starts
  let ib := reduceat min (extremeAt (vmax v) hi binOf n) n starts
  let rows := starts.zip (lo.zip (ia.zip ib))
  (rows.flatMap fun row => pickRow row.1 row.2.1 row.2.2.1 row.2.2.2).filter fun pick => 0 ≤ pick.1

/-- `_decimate`. -/
def decimate (axis : Axis T) (t : List T) (v : List (Value α)) (x0 x1 : T) (bins : Nat) :
    List T × List (Value α) :=
  let pick := picked t v (keptBins axis t x0 x1 bins)
  (pick.map fun pick => t.getD pick.1.toNat x0,
    pick.map fun pick => if pick.2 then none else v.getD pick.1.toNat none)

/-- `minmax_decimate`. -/
def minmaxDecimate (axis : Axis T) (t : List T) (v : List (Value α)) (x0 x1 : T) (bins : Int) :
    List T × List (Value α) :=
  if t.length = 0 then (t, v)
  else
    let j0 := searchLeft t x0
    let j1 := searchRight t x1
    let i0 := j0 - 1
    let i1 := min (j1 + 1) t.length
    if (j1 : Int) - j0 ≤ 2 * bins ∨ bins ≤ 0 then (slice t i0 i1, slice v i0 i1)
    else
      let d := decimate axis (slice t j0 j1) (slice v j0 j1) x0 x1 bins.toNat
      if i0 < j0 ∨ j1 < i1 then
        (slice t i0 j0 ++ d.1 ++ slice t j1 i1, slice v i0 j0 ++ d.2 ++ slice v j1 i1)
      else d

/-! ## Search -/

variable {t : List T} {x y : T} {i : Nat}

/-- In a sorted list a search stops where the predicate begins to hold. -/
theorem lt_findIdx_iff (sorted : t.Pairwise (· ≤ ·)) {p : T → Bool}
    (upward : ∀ x y, x ≤ y → p x = true → p y = true) (found : t[i]? = some y) :
    i < t.findIdx p ↔ p y = false := by
  obtain ⟨inside, rfl⟩ := List.getElem?_eq_some_iff.mp found
  constructor
  · intro before
    exact List.not_of_lt_findIdx before
  · intro fails
    by_contra after
    have place : t.findIdx p < t.length := (not_lt.mp after).trans_lt inside
    have holds := List.findIdx_getElem (w := place)
    rcases Nat.lt_or_eq_of_le (not_lt.mp after) with earlier | same
    · have above := upward _ _ (List.pairwise_iff_getElem.mp sorted _ _ place inside earlier) holds
      rw [above] at fails
      cases fails
    · simp only [same] at holds
      rw [holds] at fails
      cases fails

theorem lt_searchLeft (sorted : t.Pairwise (· ≤ ·)) (found : t[i]? = some y) :
    i < searchLeft t x ↔ y < x := by
  rw [searchLeft, lt_findIdx_iff sorted _ found, decide_eq_false_iff_not, not_le]
  intro low high ordered holds
  rw [decide_eq_true_eq] at holds ⊢
  exact holds.trans ordered

theorem lt_searchRight (sorted : t.Pairwise (· ≤ ·)) (found : t[i]? = some y) :
    i < searchRight t x ↔ y ≤ x := by
  rw [searchRight, lt_findIdx_iff sorted _ found, decide_eq_false_iff_not, not_lt]
  intro low high ordered holds
  rw [decide_eq_true_eq] at holds ⊢
  exact holds.trans_le ordered

theorem searchRight_le (t : List T) (x : T) : searchRight t x ≤ t.length := List.findIdx_le_length

/-- A later edge is found later. -/
theorem searchLeft_mono (ordered : x ≤ y) : searchLeft t x ≤ searchLeft t y := by
  apply List.findIdx_le_findIdx
  intro z _ above
  rw [decide_eq_true_eq] at above ⊢
  exact ordered.trans above

/-! ## Windows of the bins -/

/-- Windows between borders that do not fall tile the whole, the empty ones left out. -/
theorem tiles_filter_zip {lo n : Nat} {idx : List Nat}
    (rising : (lo :: (idx ++ [n])).Pairwise (· ≤ ·)) :
    Tiles lo n (((lo :: idx).zip (idx ++ [n])).filter fun bin => bin.1 < bin.2) := by
  induction idx generalizing lo with
  | nil =>
      have ordered : lo ≤ n := (List.pairwise_cons.mp rising).1 n List.mem_cons_self
      rw [List.nil_append, List.zip_cons_cons, List.zip_nil_right, List.filter_cons]
      split_ifs with less
      · exact ⟨rfl, of_decide_eq_true less, rfl⟩
      · rw [decide_eq_true_eq, not_lt] at less
        exact Nat.le_antisymm ordered less
  | cons border idx inductionHypothesis =>
      obtain ⟨first, later⟩ := List.pairwise_cons.mp rising
      have ordered : lo ≤ border := first border List.mem_cons_self
      rw [List.cons_append, List.zip_cons_cons, List.filter_cons]
      split_ifs with less
      · exact ⟨rfl, of_decide_eq_true less, inductionHypothesis later⟩
      · rw [decide_eq_true_eq, not_lt] at less
        rw [Nat.le_antisymm ordered less]
        exact inductionHypothesis later

variable {axis : Axis T} {x0 x1 : T} {bins k : Nat} {v : List (Value α)}

/-- The edges between bins, in order. -/
theorem pairwise_borders (t : List T) (ordered : x0 ≤ x1) :
    (borders axis t x0 x1 bins).Pairwise (· ≤ ·) := by
  rw [borders, List.pairwise_map]
  apply ((axis.sorted_linspace x0 x1 (bins + 1) ordered).sublist _).imp
  · intro edge edge' less
    exact min_le_min_right _ (searchLeft_mono less)
  · exact (List.take_sublist _ _).trans (List.drop_sublist _ _)

theorem tiles_keptBins (axis : Axis T) (t : List T) (bins : Nat) (ordered : x0 ≤ x1) :
    Tiles 0 t.length (keptBins axis t x0 x1 bins) := by
  apply tiles_filter_zip
  rw [List.pairwise_cons, List.pairwise_append]
  refine ⟨fun _ _ => Nat.zero_le _, pairwise_borders t ordered, List.pairwise_singleton _ _,
    fun border member last final => ?_⟩
  rw [List.mem_singleton.mp final]
  obtain ⟨edge, -, rfl⟩ := List.mem_map.mp member
  exact min_le_right _ _

theorem length_borders (t : List T) : (borders axis t x0 x1 bins).length = bins - 1 := by
  rw [borders, List.length_map, length_slice (Nat.sub_le _ _), axis.length_linspace]
  omega

theorem getElem?_borders (axis : Axis T) (t : List T) (x0 x1 : T) (inside : k + 1 < bins) :
    ∃ edge, (axis.linspace x0 x1 (bins + 1))[k + 1]? = some edge ∧
      (borders axis t x0 x1 bins)[k]? = some (min (searchLeft t edge) t.length) := by
  have within : k + 1 < (axis.linspace x0 x1 (bins + 1)).length := by
    rw [axis.length_linspace]
    omega
  refine ⟨_, List.getElem?_eq_getElem within, ?_⟩
  rw [borders, List.getElem?_map, getElem?_slice, axis.length_linspace, if_pos (by omega),
    Nat.add_comm 1 k, List.getElem?_eq_getElem within]
  rfl

/-- The time is in the view and in its bin `k`. -/
def InBin (axis : Axis T) (x0 x1 : T) (bins k : Nat) (x : T) : Prop :=
  x0 ≤ x ∧ x ≤ x1 ∧
    (∀ edge, k ≠ 0 → (axis.linspace x0 x1 (bins + 1))[k]? = some edge → edge ≤ x) ∧
    ∀ edge, k + 1 ≠ bins → (axis.linspace x0 x1 (bins + 1))[k + 1]? = some edge → x < edge

theorem exists_start (axis : Axis T) (x0 x1 : T) (sorted : t.Pairwise (· ≤ ·)) (inside : k < bins) :
    ∃ a, (0 :: borders axis t x0 x1 bins)[k]? = some a ∧ ∀ i x, t[i]? = some x →
      (a ≤ i ↔ ∀ edge, k ≠ 0 →
        (axis.linspace x0 x1 (bins + 1))[k]? = some edge → edge ≤ x) := by
  cases k with
  | zero => exact ⟨0, rfl, fun i x _ => ⟨fun _ _ other => absurd rfl other, fun _ => Nat.zero_le i⟩⟩
  | succ k =>
      obtain ⟨edge, at_edge, border⟩ := getElem?_borders axis t x0 x1 inside
      refine ⟨_, border, fun i x found => ?_⟩
      have before : i < t.length := (List.getElem?_eq_some_iff.mp found).1
      have search : min (searchLeft t edge) t.length ≤ i ↔ edge ≤ x := by
        have first := lt_searchLeft (x := edge) sorted found
        rw [← not_lt (a := x), ← first]
        omega
      rw [search, at_edge]
      constructor
      · rintro above _ - same
        rw [← Option.some.inj same]
        exact above
      · intro above
        exact above edge (Nat.succ_ne_zero k) rfl

theorem exists_end (axis : Axis T) (x0 x1 : T) (sorted : t.Pairwise (· ≤ ·)) (inside : k < bins) :
    ∃ b, (borders axis t x0 x1 bins ++ [t.length])[k]? = some b ∧ ∀ i x, t[i]? = some x →
      (i < b ↔ ∀ edge, k + 1 ≠ bins →
        (axis.linspace x0 x1 (bins + 1))[k + 1]? = some edge → x < edge) := by
  by_cases last : k + 1 = bins
  · have place : (borders axis t x0 x1 bins).length = k := by
      rw [length_borders]
      omega
    refine ⟨t.length, ?_, fun i x found => ?_⟩
    · rw [List.getElem?_append_right place.le, place, Nat.sub_self]
      rfl
    · have before : i < t.length := (List.getElem?_eq_some_iff.mp found).1
      exact ⟨fun _ _ other => absurd last other, fun _ => before⟩
  · obtain ⟨edge, at_edge, border⟩ :=
      getElem?_borders axis t x0 x1 (show k + 1 < bins by omega)
    refine ⟨min (searchLeft t edge) t.length, ?_, fun i x found => ?_⟩
    · rw [List.getElem?_append_left (List.getElem?_eq_some_iff.mp border).1]
      exact border
    · have before : i < t.length := (List.getElem?_eq_some_iff.mp found).1
      have search : i < min (searchLeft t edge) t.length ↔ x < edge := by
        rw [← lt_searchLeft sorted found]
        omega
      rw [search, at_edge]
      constructor
      · rintro above _ - same
        rw [← Option.some.inj same]
        exact above
      · intro above
        exact above edge last rfl

/-- A bin is a window of the samples of the view. -/
theorem exists_window (axis : Axis T) (sorted : t.Pairwise (· ≤ ·)) (view : ∀ x ∈ t, x0 ≤ x ∧ x ≤ x1)
    (inside : k < bins) :
    ∃ window, (allBins axis t x0 x1 bins)[k]? = some window ∧ ∀ i x, t[i]? = some x →
      (window.1 ≤ i ∧ i < window.2 ↔ InBin axis x0 x1 bins k x) := by
  obtain ⟨a, start, low⟩ := exists_start axis x0 x1 sorted inside
  obtain ⟨b, stop, high⟩ := exists_end axis x0 x1 sorted inside
  refine ⟨(a, b), List.getElem?_zip_eq_some.mpr ⟨start, stop⟩, fun i x found => ?_⟩
  obtain ⟨from_x0, to_x1⟩ := view x (List.mem_of_getElem? found)
  rw [low i x found, high i x found, InBin]
  exact ⟨fun bounds => ⟨from_x0, to_x1, bounds⟩, fun inside => inside.2.2⟩

/-! ## The points of a bin -/

variable {window : Nat × Nat}

/-- `lo` of a bin. -/
def lowest (v : List (Value α)) (window : Nat × Nat) : Number α :=
  foldWindow min (vmin v) window.1 window.2

/-- `hi` of a bin. -/
def highest (v : List (Value α)) (window : Nat × Nat) : Number α :=
  foldWindow max (vmax v) window.1 window.2

/-- `ia` of a bin: the first index of its minimum. -/
def firstLowest (v : List (Value α)) (window : Nat × Nat) : Nat :=
  foldWindow min (fun i => if vmin v i = lowest v window then i else v.length) window.1 window.2

/-- `ib` of a bin: the first index of its maximum. -/
def firstHighest (v : List (Value α)) (window : Nat × Nat) : Nat :=
  foldWindow min (fun i => if vmax v i = highest v window then i else v.length) window.1 window.2

/-- `pick` of a bin, without the second one where it is the first. -/
def chosen (v : List (Value α)) (window : Nat × Nat) : List Nat :=
  if IsFinite (lowest v window) then
    if firstLowest v window = firstHighest v window then [firstLowest v window]
    else [min (firstLowest v window) (firstHighest v window),
      max (firstLowest v window) (firstHighest v window)]
  else [window.1]

/-- The finite samples and NaN alone. -/
def FiniteOrNan (v : List (Value α)) : Prop :=
  ∀ value ∈ v, ∀ number, value = some number → IsFinite number

theorem pickRow_filter (start ia ib : Nat) (lo : Number α) :
    (pickRow start lo ia ib).filter (fun pick => 0 ≤ pick.1) =
      (if IsFinite lo then if ia = ib then [ia] else [min ia ib, max ia ib] else [start]).map
        fun i : Nat => ((i : Int), decide (¬IsFinite lo)) := by
  by_cases finite : IsFinite lo
  · by_cases same : ia = ib
    · simp [pickRow, finite, same]
    · have differ : min ia ib ≠ max ia ib := by omega
      simp [pickRow, finite, same, differ]
  · simp [pickRow, finite]

/-- The index of a bin's extreme, found by the bin's number. -/
theorem foldWindow_extremeAt {bins : List (Nat × Nat)} {n : Nat} {values : Nat → Number α}
    {extreme : Nat × Nat → Number α} (tiles : Tiles 0 n bins) (member : window ∈ bins) :
    foldWindow min
        (extremeAt values (bins.map extreme) (repeatIndex (bins.map fun bin => bin.2 - bin.1)) n)
        window.1 window.2 =
      foldWindow min (fun i => if values i = extreme window then i else n) window.1 window.2 := by
  obtain ⟨k, found⟩ := List.mem_iff_getElem?.mp member
  apply foldWindow_congr (tiles.mem member).2.1
  intro i low high
  have number : (repeatIndex (bins.map fun bin => bin.2 - bin.1))[i]? = some k := by
    have label := tiles.getElem?_repeatIndex found low high 0
    rwa [Nat.sub_zero, Nat.zero_add] at label
  have at_number : (bins.map extreme)[k]? = some (extreme window) := by
    rw [List.getElem?_map, found]
    rfl
  rw [extremeAt, List.getD_eq_getElem?_getD, number, Option.getD_some, at_number]
  exact if_congr (Option.some_inj.trans eq_comm) rfl rfl

omit [LinearOrder T] in
/-- What `_decimate` picks, bin by bin. -/
theorem picked_eq {bins : List (Nat × Nat)} (same : v.length = t.length)
    (tiles : Tiles 0 t.length bins) :
    picked t v bins = bins.flatMap fun window =>
      (chosen v window).map fun i : Nat => ((i : Int), decide (¬IsFinite (lowest v window))) := by
  have lo := tiles.reduceat_eq min (vmin v)
  have hi := tiles.reduceat_eq max (vmax v)
  rw [picked]
  simp only [lo, hi, tiles.reduceat_eq, List.zip_map', List.flatMap_map, List.filter_flatMap,
    pickRow_filter]
  apply List.flatMap_congr
  intro window member
  rw [foldWindow_extremeAt tiles member, foldWindow_extremeAt tiles member, chosen, firstLowest,
    firstHighest, lowest, highest, same]

section
variable {number : Number α}
omit [LinearOrder α]

theorem vmin_of_number (found : v[i]? = some (some number)) : vmin v i = number := by
  rw [vmin, List.getD_eq_getElem?_getD, found]
  rfl

theorem vmax_of_number (found : v[i]? = some (some number)) : vmax v i = number := by
  rw [vmax, List.getD_eq_getElem?_getD, found]
  rfl

theorem vmin_of_nan (found : v[i]? = some none) : vmin v i = ⊤ := by
  rw [vmin, List.getD_eq_getElem?_getD, found]
  rfl

theorem vmax_of_nan (found : v[i]? = some none) : vmax v i = ⊥ := by
  rw [vmax, List.getD_eq_getElem?_getD, found]
  rfl

theorem FiniteOrNan.isFinite (finite : FiniteOrNan v) (found : v[i]? = some (some number)) :
    IsFinite number := finite _ (List.mem_of_getElem? found) _ rfl

end

/-- There is a number in the window. -/
def HoldsNumber (v : List (Value α)) (window : Nat × Nat) : Prop :=
  ∃ i number, window.1 ≤ i ∧ i < window.2 ∧ v[i]? = some (some number)

section Window

variable (finite : FiniteOrNan v) (less : window.1 < window.2) (le : window.2 ≤ v.length)
include finite less le

/-- The minimum of a window is infinite where there is only NaN. -/
theorem isFinite_lowest_iff : IsFinite (lowest v window) ↔ HoldsNumber v window := by
  obtain ⟨⟨i, low, high, value⟩, below⟩ := isLeast_foldWindow (a := vmin v) less
  have found : v[i]? = some v[i] := List.getElem?_eq_getElem (high.trans_le le)
  constructor
  · intro isFinite
    cases sample : v[i] with
    | none =>
        rw [sample] at found
        rw [lowest, ← value, vmin_of_nan found] at isFinite
        exact absurd rfl isFinite.2
    | some number => exact ⟨i, number, low, high, found.trans (congrArg some sample)⟩
  · rintro ⟨j, number, from_low, to_high, at_j⟩
    have upper : lowest v window ≤ number :=
      below ⟨j, from_low, to_high, vmin_of_number at_j⟩
    have not_top : lowest v window ≠ ⊤ :=
      ne_top_of_le_ne_top (finite.isFinite at_j).2 upper
    cases sample : v[i] with
    | none =>
        rw [sample] at found
        exact absurd (value.symm.trans (vmin_of_nan found)) not_top
    | some least =>
        rw [sample] at found
        rw [vmin_of_number found] at value
        rw [lowest, ← value]
        exact finite.isFinite found

end Window

/-- Sample `i` is a number that is `below` all others inside, and the first such one. -/
def Earliest (below : Number α → Number α → Prop) (v : List (Value α)) (inside : Nat → Prop) (i : Nat) :
    Prop :=
  ∃ value, v[i]? = some (some value) ∧ inside i ∧
    ∀ j number, inside j → v[j]? = some (some number) →
      below value number ∧ (j < i → number ≠ value)

/-- The indices of a window. -/
def Within (window : Nat × Nat) (i : Nat) : Prop := window.1 ≤ i ∧ i < window.2

omit [LinearOrder α] in
/-- The first least key is of the earliest number, as NaN has none that is less. -/
theorem earliest_of_firstLeast {β : Type} [LinearOrder β] {key : Nat → β} {code : Number α → β}
    (number_key : ∀ i number, v[i]? = some (some number) → key i = code number)
    (nan_key : ∀ i number, v[i]? = some none → IsFinite number → ¬key i ≤ code number)
    (finite : FiniteOrNan v) (le : window.2 ≤ v.length) (holds : HoldsNumber v window)
    (first : FirstLeast key window.1 window.2 i) :
    Earliest (fun a b => code a ≤ code b) v (Within window) i := by
  have place : i < v.length := first.high.trans_le le
  have found : v[i]? = some v[i] := List.getElem?_eq_getElem place
  cases sample : v[i] with
  | none =>
      obtain ⟨j, number, low, high, at_j⟩ := holds
      rw [sample] at found
      have least := first.least j low high
      rw [number_key j number at_j] at least
      exact absurd least (nan_key i number found (finite.isFinite at_j))
  | some value =>
      rw [sample] at found
      refine ⟨value, found, ⟨first.low, first.high⟩, fun j number inside at_j => ⟨?_, ?_⟩⟩
      · have least := first.least j inside.1 inside.2
        rwa [number_key i value found, number_key j number at_j] at least
      · rintro earlier rfl
        have more := first.first j inside.1 earlier
        rw [number_key i number found, number_key j number at_j] at more
        exact lt_irrefl _ more

section Window

variable (finite : FiniteOrNan v) (less : window.1 < window.2) (le : window.2 ≤ v.length)
include finite less le

theorem earliest_firstLowest (holds : HoldsNumber v window) :
    Earliest (· ≤ ·) v (Within window) (firstLowest v window) := by
  have no_nan (i : Nat) (number : Number α) (found : v[i]? = some none)
      (isFinite : IsFinite number) : ¬vmin v i ≤ number := by
    rw [vmin_of_nan found, top_le_iff]
    exact isFinite.2
  have number_key (i : Nat) (number : Number α) (found : v[i]? = some (some number)) :
      vmin v i = id number := vmin_of_number found
  exact earliest_of_firstLeast number_key no_nan finite le holds (firstLeast_foldWindow less le)

theorem earliest_firstHighest (holds : HoldsNumber v window) :
    Earliest (· ≥ ·) v (Within window) (firstHighest v window) := by
  have no_nan (i : Nat) (number : Number α) (found : v[i]? = some none)
      (isFinite : IsFinite number) :
      ¬OrderDual.toDual (vmax v i) ≤ OrderDual.toDual number := by
    rw [vmax_of_nan found, OrderDual.toDual_le_toDual, le_bot_iff]
    exact isFinite.1
  have number_key (i : Nat) (number : Number α) (found : v[i]? = some (some number)) :
      OrderDual.toDual (vmax v i) = OrderDual.toDual number :=
    congrArg OrderDual.toDual (vmax_of_number found)
  exact earliest_of_firstLeast number_key no_nan finite le holds
    (firstGreatest_foldWindow less le)

/-- Nothing but NaN: the first sample stands for the window. -/
theorem nan_of_not_finite (infinite : ¬IsFinite (lowest v window)) : v[window.1]? = some none := by
  have place : window.1 < v.length := less.trans_le le
  have found : v[window.1]? = some v[window.1] := List.getElem?_eq_getElem place
  cases sample : v[window.1] with
  | none => exact found.trans (congrArg some sample)
  | some number =>
      refine absurd ((isFinite_lowest_iff finite less le).mpr ?_) infinite
      exact ⟨window.1, number, le_rfl, less, found.trans (congrArg some sample)⟩

/-- The points of a window lie in it. -/
theorem within_chosen (member : i ∈ chosen v window) : Within window i := by
  rw [chosen] at member
  split_ifs at member with isFinite
  · have holds := (isFinite_lowest_iff finite less le).mp isFinite
    obtain ⟨-, -, low, -⟩ := earliest_firstLowest finite less le holds
    rw [List.mem_singleton.mp member]
    exact low
  · have holds := (isFinite_lowest_iff finite less le).mp isFinite
    obtain ⟨-, -, low, -⟩ := earliest_firstLowest finite less le holds
    obtain ⟨-, -, high, -⟩ := earliest_firstHighest finite less le holds
    rw [List.mem_pair] at member
    rcases member with rfl | rfl
    · rcases min_choice (firstLowest v window) (firstHighest v window) with eq | eq
      · rwa [eq]
      · rwa [eq]
    · rcases max_choice (firstLowest v window) (firstHighest v window) with eq | eq
      · rwa [eq]
      · rwa [eq]
  · rw [List.mem_singleton.mp member]
    exact ⟨le_rfl, less⟩

/-- What is drawn for a window is a sample, also where it is blank. -/
theorem value_chosen (member : i ∈ chosen v window) :
    (if decide (¬IsFinite (lowest v window)) = true then none else v.getD i none) =
      v.getD i none := by
  split_ifs with blank
  · rw [decide_eq_true_eq] at blank
    rw [chosen, if_neg blank] at member
    rw [List.mem_singleton.mp member, List.getD_eq_getElem?_getD,
      nan_of_not_finite finite less le blank]
    rfl
  · rfl

end Window

theorem rising_chosen (v : List (Value α)) (window : Nat × Nat) :
    (chosen v window).Pairwise (· < ·) := by
  rw [chosen]
  split_ifs with isFinite same
  · exact List.pairwise_singleton _ _
  · rw [List.pairwise_pair]
    exact min_lt_max.mpr same
  · exact List.pairwise_singleton _ _

theorem length_chosen_le (v : List (Value α)) (window : Nat × Nat) :
    (chosen v window).length ≤ 2 := by
  rw [chosen]
  split_ifs
  · exact Nat.le_succ 1
  · exact le_rfl
  · exact Nat.le_succ 1

/-- Both extremes of a window with a number are among its points. -/
theorem extremes_mem_chosen (isFinite : IsFinite (lowest v window)) :
    firstLowest v window ∈ chosen v window ∧ firstHighest v window ∈ chosen v window := by
  rw [chosen, if_pos isFinite]
  split_ifs with same
  · rw [← same]
    exact ⟨List.mem_singleton_self _, List.mem_singleton_self _⟩
  · rw [List.mem_pair, List.mem_pair]
    rcases le_total (firstLowest v window) (firstHighest v window) with le | le
    · exact ⟨Or.inl (min_eq_left le).symm, Or.inr (max_eq_right le).symm⟩
    · exact ⟨Or.inr (max_eq_left le).symm, Or.inl (min_eq_right le).symm⟩

/-- The indices that `_decimate` picks. -/
def picks (axis : Axis T) (t : List T) (v : List (Value α)) (x0 x1 : T) (bins : Nat) : List Nat :=
  (keptBins axis t x0 x1 bins).flatMap (chosen v)

/-- `_decimate` keeps samples as they are. -/
theorem decimate_eq (axis : Axis T) (bins : Nat) (same : v.length = t.length)
    (finite : FiniteOrNan v) (ordered : x0 ≤ x1) :
    decimate axis t v x0 x1 bins =
      ((picks axis t v x0 x1 bins).map fun i => t.getD i x0,
        (picks axis t v x0 x1 bins).map fun i => v.getD i none) := by
  have tiles := tiles_keptBins axis t bins ordered
  rw [decimate]
  simp only [picked_eq same tiles, picks, List.map_flatMap, List.map_map, Prod.mk.injEq]
  refine ⟨rfl, List.flatMap_congr fun window member => List.map_congr_left fun i inside => ?_⟩
  obtain ⟨-, less, le⟩ := tiles.mem member
  exact value_chosen finite less (le.trans_eq same.symm) inside

end Plot
end TriCoreDap
