import TriCoreDap.Library.Lists
import TriCoreDap.Plot.Decimation
import Mathlib.Data.List.GetD
import Mathlib.Data.List.Perm.Subperm

/-!
# The envelope of a plotted series

What `minmax_decimate` shows of a view: samples in order, few of them, and among them
the extremes of every bin.
-/

namespace TriCoreDap
namespace Plot

variable {T α : Type} [LinearOrder T] [LinearOrder α]

/-- The indices from `lo` up to `hi`. -/
def span (lo hi : Nat) : List Nat := List.range' lo (hi - lo)

/-- No more than `n` entries of the list have the property. -/
def AtMost (n : Nat) (p : Nat → Prop) (list : List Nat) : Prop :=
  ∀ part : List Nat, part.Sublist list → (∀ i ∈ part, p i) → part.length ≤ n

/-- The sample is in bin `k` of the view. -/
def InBinAt (axis : Axis T) (t : List T) (x0 x1 : T) (bins k i : Nat) : Prop :=
  ∃ x, t[i]? = some x ∧ InBin axis x0 x1 bins k x

/-- What is shown of the samples: which indices, and what they are good for. -/
structure Envelope (axis : Axis T) (t : List T) (v : List (Value α)) (x0 x1 : T) (bins : Int)
    (shown : List Nat) : Prop where
  rising : shown.Pairwise (· < ·)
  inside : ∀ i ∈ shown, i < t.length
  before : AtMost 1 (fun i => ∃ x, t[i]? = some x ∧ x < x0) shown
  after : AtMost 1 (fun i => ∃ x, t[i]? = some x ∧ x1 < x) shown
  few : 0 < bins → AtMost (2 * bins.toNat) (fun i => ∃ x, t[i]? = some x ∧ x0 ≤ x ∧ x ≤ x1) shown
  two : 0 < bins → 2 * bins.toNat < (t.filter fun x => x0 ≤ x ∧ x ≤ x1).length →
    ∀ k < bins.toNat, AtMost 2 (InBinAt axis t x0 x1 bins.toNat k) shown
  extremes : ∀ k < bins.toNat,
    (∃ i number, InBinAt axis t x0 x1 bins.toNat k i ∧ v[i]? = some (some number)) →
      (∃ i ∈ shown, Earliest (· ≤ ·) v (InBinAt axis t x0 x1 bins.toNat k) i) ∧
        ∃ i ∈ shown, Earliest (· ≥ ·) v (InBinAt axis t x0 x1 bins.toNat k) i
  blank : ∀ k < bins.toNat, (∃ i, InBinAt axis t x0 x1 bins.toNat k i) →
    (∀ i, InBinAt axis t x0 x1 bins.toNat k i → v[i]? = some none) →
      ∃ i ∈ shown, InBinAt axis t x0 x1 bins.toNat k i

/-! ## Indices -/

variable {lo hi i n : Nat} {shown : List Nat} {p : Nat → Prop}

theorem mem_span : i ∈ span lo hi ↔ lo ≤ i ∧ i < hi := by
  rw [span, List.mem_range'_1]
  omega

theorem rising_span (lo hi : Nat) : (span lo hi).Pairwise (· < ·) := List.pairwise_lt_range'

theorem length_span (lo hi : Nat) : (span lo hi).length = hi - lo := List.length_range'

theorem span_append (le : lo ≤ n) (le' : n ≤ hi) : span lo n ++ span n hi = span lo hi := by
  have later : span n hi = List.range' (lo + (n - lo)) (hi - n) := by
    rw [Nat.add_sub_cancel' le]
    rfl
  rw [later, span, List.range'_append_1, span]
  congr 1
  omega

/-- A slice is the values at its indices. -/
theorem slice_eq_map {β : Type} (list : List β) (default : β) (le : hi ≤ list.length) :
    slice list lo hi = (span lo hi).map fun i => list.getD i default := by
  apply List.ext_getElem?
  intro i
  rw [getElem?_slice, List.getElem?_map, span]
  split_ifs with inside
  · have place : lo + i < list.length := by omega
    rw [List.getElem?_range' inside, Option.map_some, Nat.one_mul, List.getD_eq_getElem _ _ place,
      List.getElem?_eq_getElem place]
  · rw [List.getElem?_eq_none (by rw [List.length_range']; omega)]
    rfl

/-- As many as a list holds, where only its entries have the property. -/
theorem AtMost.of_mem {l : List Nat} (rising : shown.Pairwise (· < ·))
    (only : ∀ i ∈ shown, p i → i ∈ l) (few : l.length ≤ n) : AtMost n p shown := by
  intro part sub all
  have nodup : part.Nodup := (rising.sublist sub).imp fun less => Nat.ne_of_lt less
  have subset : part ⊆ l := fun i member => only i (sub.subset member) (all i member)
  exact (List.subperm_of_subset nodup subset).length_le.trans few

/-! ## The view -/

/-- `t[j0:j1]` and `v[j0:j1]`. -/
def viewOf {β : Type} (t : List T) (x0 x1 : T) (list : List β) : List β :=
  slice list (searchLeft t x0) (searchRight t x1)

variable {axis : Axis T} {t : List T} {v : List (Value α)} {x x0 x1 : T} {bins k : Nat}

theorem searchLeft_le_searchRight (t : List T) (ordered : x0 ≤ x1) :
    searchLeft t x0 ≤ searchRight t x1 := by
  apply List.findIdx_le_findIdx
  intro y _ above
  rw [decide_eq_true_eq] at above ⊢
  exact ordered.trans above.le

theorem length_viewOf {β : Type} {list : List β} (same : list.length = t.length) :
    (viewOf t x0 x1 list).length = searchRight t x1 - searchLeft t x0 :=
  length_slice ((searchRight_le t x1).trans_eq same.symm)

theorem getElem?_viewOf {β : Type} {list : List β} {value : β} :
    (viewOf t x0 x1 list)[i]? = some value ↔
      i < searchRight t x1 - searchLeft t x0 ∧ list[searchLeft t x0 + i]? = some value := by
  rw [viewOf, getElem?_slice]
  split_ifs with inside
  · simp [inside]
  · simp [inside]

section
variable (sorted : t.Pairwise (· ≤ ·))
include sorted

theorem inView_iff (found : t[i]? = some x) :
    x0 ≤ x ∧ x ≤ x1 ↔ searchLeft t x0 ≤ i ∧ i < searchRight t x1 := by
  have low := lt_searchLeft (x := x0) sorted found
  rw [lt_searchRight sorted found, ← not_lt (a := x), ← low, not_lt]

theorem sorted_viewOf : (viewOf t x0 x1 t).Pairwise (· ≤ ·) :=
  sorted.sublist ((List.take_sublist _ _).trans (List.drop_sublist _ _))

theorem mem_viewOf (member : x ∈ viewOf t x0 x1 t) : x0 ≤ x ∧ x ≤ x1 := by
  obtain ⟨i, found⟩ := List.mem_iff_getElem?.mp member
  obtain ⟨inside, found⟩ := getElem?_viewOf.mp found
  exact (inView_iff sorted found).mpr ⟨Nat.le_add_right _ _, by omega⟩

/-- A bin with a sample is one of the windows kept. -/
theorem exists_kept (ordered : x0 ≤ x1) (inside : k < bins)
    (some_sample : InBinAt axis t x0 x1 bins k i) :
    ∃ window ∈ keptBins axis (viewOf t x0 x1 t) x0 x1 bins, ∀ i,
      InBinAt axis t x0 x1 bins k i ↔ ∃ j, i = searchLeft t x0 + j ∧ Within window j := by
  obtain ⟨window, place, bin⟩ := exists_window axis (sorted_viewOf sorted)
    (fun x member => mem_viewOf sorted member) inside
  have into (i : Nat) (here : InBinAt axis t x0 x1 bins k i) :
      ∃ j, i = searchLeft t x0 + j ∧ Within window j := by
    obtain ⟨x, found, inBin⟩ := here
    obtain ⟨low, high⟩ := (inView_iff sorted found).mp ⟨inBin.1, inBin.2.1⟩
    obtain ⟨j, rfl⟩ := Nat.exists_eq_add_of_le low
    have at_j : (viewOf t x0 x1 t)[j]? = some x := getElem?_viewOf.mpr ⟨by omega, found⟩
    exact ⟨j, rfl, (bin j x at_j).mpr inBin⟩
  obtain ⟨j, -, low, high⟩ := into i some_sample
  have kept : window ∈ keptBins axis (viewOf t x0 x1 t) x0 x1 bins :=
    List.mem_filter.mpr ⟨List.mem_of_getElem? place, decide_eq_true (low.trans_lt high)⟩
  refine ⟨window, kept, fun i => ⟨into i, ?_⟩⟩
  rintro ⟨j, rfl, within⟩
  have tiles := tiles_keptBins axis (viewOf t x0 x1 t) bins ordered
  have place : j < (viewOf t x0 x1 t).length := within.2.trans_le (tiles.mem kept).2.2
  have at_j := List.getElem?_eq_getElem place
  exact ⟨_, (getElem?_viewOf.mp at_j).2, (bin j _ at_j).mp within⟩

end

/-! ## What is shown -/

variable {inner : List Nat}

/-- Indices of the view, with the points of every bin among them. -/
structure Inner (axis : Axis T) (t : List T) (v : List (Value α)) (x0 x1 : T) (bins : Nat)
    (inner : List Nat) : Prop where
  rising : inner.Pairwise (· < ·)
  within : ∀ i ∈ inner, searchLeft t x0 ≤ i ∧ i < searchRight t x1
  few : 0 < bins → inner.length ≤ 2 * bins
  points : ∀ window ∈ keptBins axis (viewOf t x0 x1 t) x0 x1 bins,
    ∀ j ∈ chosen (viewOf t x0 x1 v) window, searchLeft t x0 + j ∈ inner
  only : 0 < bins → 2 * bins < searchRight t x1 - searchLeft t x0 →
    ∀ window ∈ keptBins axis (viewOf t x0 x1 t) x0 x1 bins, ∀ j, Within window j →
      searchLeft t x0 + j ∈ inner → j ∈ chosen (viewOf t x0 x1 v) window

omit [LinearOrder α] in
theorem FiniteOrNan.viewOf (finite : FiniteOrNan v) : FiniteOrNan (viewOf t x0 x1 v) :=
  fun value member => finite value (List.mem_of_mem_drop (List.mem_of_mem_take member))

omit [LinearOrder α] in
/-- An extreme of a window of the view is one of the bin. -/
theorem Earliest.of_viewOf {below : Number α → Number α → Prop} {window : Nat × Nat}
    {bin : Nat → Prop}
    (members : ∀ i, bin i ↔ ∃ j, i = searchLeft t x0 + j ∧ Within window j)
    (le : window.2 ≤ searchRight t x1 - searchLeft t x0)
    (earliest : Earliest below (viewOf t x0 x1 v) (Within window) i) :
    Earliest below v bin (searchLeft t x0 + i) := by
  obtain ⟨value, found, within, extreme⟩ := earliest
  refine ⟨value, (getElem?_viewOf.mp found).2, (members _).mpr ⟨i, rfl, within⟩,
    fun j number inside at_j => ?_⟩
  obtain ⟨j, rfl, within'⟩ := (members j).mp inside
  have at_j' : (Plot.viewOf t x0 x1 v)[j]? = some (some number) :=
    getElem?_viewOf.mpr ⟨within'.2.trans_le le, at_j⟩
  obtain ⟨beyond, first⟩ := extreme j number within' at_j'
  exact ⟨beyond, fun earlier => first (by omega)⟩

/-- The indices shown: those of the view with a neighbour on each side. -/
def shownWith (t : List T) (x0 x1 : T) (inner : List Nat) : List Nat :=
  span (searchLeft t x0 - 1) (searchLeft t x0) ++ inner ++
    span (searchRight t x1) (min (searchRight t x1 + 1) t.length)

omit [LinearOrder α] in
/-- The windows of the bins lie in the values, too. -/
theorem window_le (ordered : x0 ≤ x1) (same : v.length = t.length) {window : Nat × Nat}
    (kept : window ∈ keptBins axis (viewOf t x0 x1 t) x0 x1 bins) :
    window.1 < window.2 ∧ window.2 ≤ (viewOf t x0 x1 v).length := by
  obtain ⟨-, less, le⟩ :=
    (tiles_keptBins axis (viewOf t x0 x1 t) bins ordered).mem kept
  rw [length_viewOf rfl] at le
  rw [length_viewOf same]
  exact ⟨less, le⟩

section
variable (sorted : t.Pairwise (· ≤ ·)) (ordered : x0 ≤ x1)
include sorted ordered

/-- The samples of the view, by their times. -/
theorem filter_inView : t.filter (fun x => x0 ≤ x ∧ x ≤ x1) = viewOf t x0 x1 t := by
  have le := searchLeft_le_searchRight t ordered
  have parts : t = t.take (searchLeft t x0) ++ (viewOf t x0 x1 t ++ t.drop (searchRight t x1)) := by
    rw [viewOf, slice, show t.drop (searchRight t x1) =
      (t.drop (searchLeft t x0)).drop (searchRight t x1 - searchLeft t x0) by
        rw [List.drop_drop, Nat.add_sub_cancel' le], List.take_append_drop, List.take_append_drop]
  have before : (t.take (searchLeft t x0)).filter (fun x => x0 ≤ x ∧ x ≤ x1) = [] := by
    rw [List.filter_eq_nil_iff]
    intro x member
    obtain ⟨i, found⟩ := List.mem_iff_getElem?.mp member
    rw [List.getElem?_take] at found
    split_ifs at found with early
    rw [decide_eq_true_eq, inView_iff sorted found]
    omega
  have after : (t.drop (searchRight t x1)).filter (fun x => x0 ≤ x ∧ x ≤ x1) = [] := by
    rw [List.filter_eq_nil_iff]
    intro x member
    obtain ⟨i, found⟩ := List.mem_iff_getElem?.mp member
    rw [List.getElem?_drop] at found
    rw [decide_eq_true_eq, inView_iff sorted found]
    omega
  have inside : (viewOf t x0 x1 t).filter (fun x => x0 ≤ x ∧ x ≤ x1) = viewOf t x0 x1 t :=
    List.filter_eq_self.mpr fun x member => decide_eq_true (mem_viewOf sorted member)
  conv_lhs => rw [parts]
  rw [List.filter_append, List.filter_append, before, after, inside, List.nil_append,
    List.append_nil]

variable (finite : FiniteOrNan v) (same : v.length = t.length)
include finite same

theorem Inner.extremes (shows : Inner axis t v x0 x1 bins inner) (inside : k < bins)
    {number : Number α} (bin : InBinAt axis t x0 x1 bins k i) (found : v[i]? = some (some number)) :
    (∃ i ∈ inner, Earliest (· ≤ ·) v (InBinAt axis t x0 x1 bins k) i) ∧
      ∃ i ∈ inner, Earliest (· ≥ ·) v (InBinAt axis t x0 x1 bins k) i := by
  obtain ⟨window, kept, members⟩ := exists_kept sorted ordered inside bin
  obtain ⟨less, le⟩ := window_le ordered same kept
  have le' : window.2 ≤ searchRight t x1 - searchLeft t x0 := by rwa [length_viewOf same] at le
  obtain ⟨j, rfl, within⟩ := (members i).mp bin
  have holds : HoldsNumber (viewOf t x0 x1 v) window :=
    ⟨j, number, within.1, within.2, getElem?_viewOf.mpr ⟨within.2.trans_le le', found⟩⟩
  obtain ⟨low, high⟩ :=
    extremes_mem_chosen ((isFinite_lowest_iff finite.viewOf less le).mpr holds)
  exact ⟨⟨_, shows.points window kept _ low,
      (earliest_firstLowest finite.viewOf less le holds).of_viewOf members le'⟩,
    ⟨_, shows.points window kept _ high,
      (earliest_firstHighest finite.viewOf less le holds).of_viewOf members le'⟩⟩

/-- A bin with nothing but NaN is shown by its first sample. -/
theorem Inner.blank (shows : Inner axis t v x0 x1 bins inner) (inside : k < bins)
    (bin : InBinAt axis t x0 x1 bins k i)
    (nan : ∀ i, InBinAt axis t x0 x1 bins k i → v[i]? = some none) :
    ∃ i ∈ inner, InBinAt axis t x0 x1 bins k i := by
  obtain ⟨window, kept, members⟩ := exists_kept sorted ordered inside bin
  obtain ⟨less, le⟩ := window_le ordered same kept
  have infinite : ¬IsFinite (lowest (viewOf t x0 x1 v) window) := by
    rw [isFinite_lowest_iff finite.viewOf less le]
    rintro ⟨j, number, low, high, found⟩
    have blank := nan _ ((members _).mpr ⟨j, rfl, low, high⟩)
    rw [(getElem?_viewOf.mp found).2] at blank
    cases blank
  have point : window.1 ∈ chosen (viewOf t x0 x1 v) window := by
    rw [chosen, if_neg infinite]
    exact List.mem_singleton_self _
  exact ⟨_, shows.points window kept _ point, (members _).mpr ⟨_, rfl, le_rfl, less⟩⟩

/-- The points of the view with its neighbours are an envelope. -/
theorem Inner.envelope {bins : Int} (shows : Inner axis t v x0 x1 bins.toNat inner) :
    Envelope axis t v x0 x1 bins (shownWith t x0 x1 inner) := by
  have le := searchLeft_le_searchRight t ordered
  have le' := searchRight_le t x1
  have place (i : Nat) (member : i ∈ shownWith t x0 x1 inner) :
      (searchLeft t x0 - 1 ≤ i ∧ i < searchLeft t x0) ∨ i ∈ inner ∨
        searchRight t x1 ≤ i ∧ i < min (searchRight t x1 + 1) t.length := by
    rw [shownWith, List.mem_append, List.mem_append, mem_span, mem_span, or_assoc] at member
    exact member
  have into (i : Nat) (member : i ∈ inner) : i ∈ shownWith t x0 x1 inner :=
    List.mem_append_left _ (List.mem_append_right _ member)
  have rising : (shownWith t x0 x1 inner).Pairwise (· < ·) := by
    rw [shownWith, List.append_assoc, List.pairwise_append, List.pairwise_append]
    refine ⟨rising_span _ _, ⟨shows.rising, rising_span _ _, fun i here j there => ?_⟩,
      fun i here j there => ?_⟩
    · exact (shows.within i here).2.trans_le (mem_span.mp there).1
    · refine (mem_span.mp here).2.trans_le ?_
      rcases List.mem_append.mp there with there | there
      · exact (shows.within j there).1
      · exact le.trans (mem_span.mp there).1
  -- the entries in the view are the points
  have of_view (i : Nat) (member : i ∈ shownWith t x0 x1 inner)
      (inView : searchLeft t x0 ≤ i ∧ i < searchRight t x1) : i ∈ inner := by
    rcases place i member with early | here | late
    · omega
    · exact here
    · omega
  refine
    { rising
      inside := fun i member => ?_
      before := AtMost.of_mem (l := span (searchLeft t x0 - 1) (searchLeft t x0)) rising ?_ ?_
      after := AtMost.of_mem
        (l := span (searchRight t x1) (min (searchRight t x1 + 1) t.length)) rising ?_ ?_
      few := fun positive => AtMost.of_mem rising ?_ (shows.few (by omega))
      two := fun positive many k inside => ?_
      extremes := ?_
      blank := ?_ }
  · rcases place i member with early | here | late
    · omega
    · exact (shows.within i here).2.trans_le le'
    · omega
  · rintro i member ⟨x, found, early⟩
    have low := (lt_searchLeft sorted found).mpr early
    rw [mem_span]
    rcases place i member with here | here | late
    · exact here
    · have := (shows.within i here).1
      omega
    · omega
  · rw [length_span]
    omega
  · rintro i member ⟨x, found, late⟩
    have high := (lt_searchRight sorted found).not.mpr late.not_ge
    rw [mem_span]
    rcases place i member with early | here | here
    · omega
    · exact absurd (shows.within i here).2 high
    · exact here
  · rw [length_span]
    omega
  · rintro i member ⟨x, found, inView⟩
    exact of_view i member ((inView_iff sorted found).mp inView)
  · rw [filter_inView sorted ordered, length_viewOf rfl] at many
    intro part sub all
    cases part with
    | nil => exact Nat.zero_le _
    | cons first others =>
        obtain ⟨window, kept, members⟩ :=
          exists_kept sorted ordered inside (all first List.mem_cons_self)
        have points : AtMost 2 (InBinAt axis t x0 x1 bins.toNat k) (shownWith t x0 x1 inner) := by
          apply AtMost.of_mem
            (l := (chosen (viewOf t x0 x1 v) window).map (searchLeft t x0 + ·)) rising
          · intro i member bin
            have inView : searchLeft t x0 ≤ i ∧ i < searchRight t x1 := by
              obtain ⟨x, found, inBin⟩ := bin
              exact (inView_iff sorted found).mp ⟨inBin.1, inBin.2.1⟩
            obtain ⟨j, rfl, within⟩ := (members i).mp bin
            exact List.mem_map_of_mem (shows.only (by omega) many window kept j within
              (of_view _ member inView))
          · rw [List.length_map]
            exact length_chosen_le _ _
        exact points _ sub all
  · rintro k inside ⟨i, number, bin, found⟩
    obtain ⟨⟨low, shown, least⟩, high, shown', greatest⟩ :=
      shows.extremes sorted ordered finite same inside bin found
    exact ⟨⟨low, into low shown, least⟩, high, into high shown', greatest⟩
  · rintro k inside ⟨i, bin⟩ nan
    obtain ⟨j, shown, bin'⟩ := shows.blank sorted ordered finite same inside bin nan
    exact ⟨j, into j shown, bin'⟩

end

/-- Few samples are all shown. -/
theorem inner_span (ordered : x0 ≤ x1) (same : v.length = t.length) (finite : FiniteOrNan v)
    (short : 0 < bins → searchRight t x1 - searchLeft t x0 ≤ 2 * bins) :
    Inner axis t v x0 x1 bins (span (searchLeft t x0) (searchRight t x1)) where
  rising := rising_span _ _
  within i member := mem_span.mp member
  few positive := by
    rw [length_span]
    exact short positive
  points window kept j member := by
    obtain ⟨less, le⟩ := window_le ordered same kept
    have within := within_chosen finite.viewOf less le member
    rw [length_viewOf same] at le
    have high := within.2
    rw [mem_span]
    omega
  only positive many := absurd (short positive) (Nat.not_le.mpr many)

/-- Of many samples the points of the bins are shown. -/
theorem inner_picks (axis : Axis T) (bins : Nat) (ordered : x0 ≤ x1)
    (same : v.length = t.length) (finite : FiniteOrNan v) :
    Inner axis t v x0 x1 bins
      ((picks axis (viewOf t x0 x1 t) (viewOf t x0 x1 v) x0 x1 bins).map
        (searchLeft t x0 + ·)) := by
  have tiles := tiles_keptBins axis (viewOf t x0 x1 t) bins ordered
  have inside (window : Nat × Nat) (kept : window ∈ keptBins axis (viewOf t x0 x1 t) x0 x1 bins)
      (j : Nat) (member : j ∈ chosen (viewOf t x0 x1 v) window) :
      window.1 ≤ j ∧ j < window.2 := by
    obtain ⟨less, le⟩ := window_le ordered same kept
    exact within_chosen finite.viewOf less le member
  refine ⟨?_, ?_, ?_, ?_, ?_⟩
  · rw [List.pairwise_map]
    have rising := tiles.pairwise_flatMap (fun window _ => rising_chosen (viewOf t x0 x1 v) window)
      inside
    exact rising.imp fun less => Nat.add_lt_add_left less _
  · intro i member
    obtain ⟨j, picked, rfl⟩ := List.mem_map.mp member
    obtain ⟨window, kept, picked⟩ := List.mem_flatMap.mp picked
    have high := (inside window kept j picked).2
    have le := (tiles.mem kept).2.2
    rw [length_viewOf rfl] at le
    omega
  · intro positive
    have few : (keptBins axis (viewOf t x0 x1 t) x0 x1 bins).length ≤ bins := by
      apply (List.length_filter_le _ _).trans
      rw [allBins, List.length_zip, List.length_cons, List.length_append, length_borders,
        List.length_singleton]
      omega
    rw [List.length_map, picks]
    have two := length_flatMap_le (length_chosen_le (viewOf t x0 x1 v))
      (keptBins axis (viewOf t x0 x1 t) x0 x1 bins)
    omega
  · intro window kept j member
    exact List.mem_map_of_mem (List.mem_flatMap.mpr ⟨window, kept, member⟩)
  · intro _ _ window kept j within member
    obtain ⟨j', member, same_index⟩ := List.mem_map.mp member
    have picked : j ∈ picks axis (viewOf t x0 x1 t) (viewOf t x0 x1 v) x0 x1 bins := by
      rwa [show j = j' by omega]
    have here : j ∈ (picks axis (viewOf t x0 x1 t) (viewOf t x0 x1 v) x0 x1 bins).filter
        (fun i => window.1 ≤ i ∧ i < window.2) :=
      List.mem_filter.mpr ⟨picked, decide_eq_true within⟩
    rwa [picks, tiles.filter_flatMap inside kept] at here

theorem slice_self {β : Type} (list : List β) (le : hi ≤ lo) : slice list lo hi = [] := by
  rw [slice, Nat.sub_eq_zero_of_le le, List.take_zero]

/-- A point of the view is one of the whole. -/
theorem map_getD_viewOf {β : Type} {list : List β} (default : β) {points : List Nat}
    (within : ∀ i ∈ points, i < searchRight t x1 - searchLeft t x0) :
    points.map (fun i => (viewOf t x0 x1 list).getD i default) =
      (points.map (searchLeft t x0 + ·)).map fun i => list.getD i default := by
  rw [List.map_map]
  apply List.map_congr_left
  intro i member
  rw [Function.comp_apply, List.getD_eq_getElem?_getD, List.getD_eq_getElem?_getD, viewOf,
    getElem?_slice, if_pos (within i member)]

/-- What is shown are samples, at some indices of the view and at its neighbours. -/
theorem exists_inner (axis : Axis T) (ordered : x0 ≤ x1) (same : v.length = t.length)
    (finite : FiniteOrNan v) (bins : Int) :
    ∃ inner, Inner axis t v x0 x1 bins.toNat inner ∧
      minmaxDecimate axis t v x0 x1 bins =
        ((shownWith t x0 x1 inner).map fun i => t.getD i x0,
          (shownWith t x0 x1 inner).map fun i => v.getD i none) := by
  have le := searchLeft_le_searchRight t ordered
  have le' := searchRight_le t x1
  have sides {β : Type} (list : List β) (default : β) (same : list.length = t.length)
      (inner : List Nat) :
      (shownWith t x0 x1 inner).map (fun i => list.getD i default) =
        slice list (searchLeft t x0 - 1) (searchLeft t x0) ++
          inner.map (fun i => list.getD i default) ++
          slice list (searchRight t x1) (min (searchRight t x1 + 1) t.length) := by
    rw [shownWith, List.map_append, List.map_append, ← slice_eq_map list default (by omega),
      ← slice_eq_map list default (by omega)]
  unfold minmaxDecimate
  dsimp only
  split_ifs with empty few around
  · have none_left : searchRight t x1 - searchLeft t x0 = 0 := by omega
    refine ⟨_, inner_span ordered same finite fun _ => none_left.trans_le (Nat.zero_le _), ?_⟩
    rw [List.length_eq_zero_iff] at empty
    rw [empty, List.length_nil, List.length_eq_zero_iff] at same
    rw [empty, same]
    rfl
  · refine ⟨_, inner_span ordered same finite fun positive => by omega, ?_⟩
    have whole : shownWith t x0 x1 (span (searchLeft t x0) (searchRight t x1)) =
        span (searchLeft t x0 - 1) (min (searchRight t x1 + 1) t.length) := by
      rw [shownWith, span_append (Nat.sub_le _ _) le,
        span_append ((Nat.sub_le _ _).trans le) (by omega)]
    rw [whole, slice_eq_map t x0 (min_le_right _ _),
      slice_eq_map v none ((min_le_right _ _).trans_eq same.symm)]
  all_goals
    have shows := inner_picks axis bins.toNat ordered same finite
    have points (j : Nat) (member : j ∈ picks axis (viewOf t x0 x1 t) (viewOf t x0 x1 v) x0 x1
        bins.toNat) : j < searchRight t x1 - searchLeft t x0 := by
      have within := shows.within _ (List.mem_map_of_mem member)
      omega
    refine ⟨_, shows, ?_⟩
    have same' : (viewOf t x0 x1 v).length = (viewOf t x0 x1 t).length := by
      rw [length_viewOf same, length_viewOf rfl]
    have reduced := decimate_eq axis bins.toNat same' finite.viewOf ordered
    rw [map_getD_viewOf x0 points, map_getD_viewOf none points] at reduced
    rw [sides t x0 rfl, sides v none same,
      show slice t (searchLeft t x0) (searchRight t x1) = viewOf t x0 x1 t from rfl,
      show slice v (searchLeft t x0) (searchRight t x1) = viewOf t x0 x1 v from rfl, reduced]
  · rw [slice_self _ (by omega), slice_self _ (by omega), slice_self _ (by omega),
      slice_self _ (by omega), List.nil_append, List.nil_append, List.append_nil, List.append_nil]

/-- Decimation keeps the envelope. -/
theorem minmaxDecimate_envelope
    (axis : Axis T)
    (samples : List (T × Value α))
    (sorted : (samples.map Prod.fst).Pairwise (· ≤ ·))
    (finite : FiniteOrNan (samples.map Prod.snd))
    (view : x0 < x1)
    (bins : Int) :
    ∃ shown,
      minmaxDecimate axis (samples.map Prod.fst) (samples.map Prod.snd) x0 x1 bins =
          (shown.map fun i => (samples.map Prod.fst).getD i x0,
            shown.map fun i => (samples.map Prod.snd).getD i none) ∧
        (shown.map fun i => (samples.map Prod.fst).getD i x0).Pairwise (· ≤ ·) ∧
        Envelope axis (samples.map Prod.fst) (samples.map Prod.snd) x0 x1 bins shown := by
  have same : (samples.map Prod.snd).length = (samples.map Prod.fst).length := by
    rw [List.length_map, List.length_map]
  obtain ⟨inner, shows, output⟩ := exists_inner axis view.le same finite bins
  have envelope := shows.envelope sorted view.le finite same
  refine ⟨_, output, ?_, envelope⟩
  rw [List.pairwise_map]
  refine envelope.rising.imp_of_mem fun {i j} here there less => ?_
  have inside := envelope.inside i here
  have inside' := envelope.inside j there
  rw [List.getD_eq_getElem _ _ inside, List.getD_eq_getElem _ _ inside']
  exact List.pairwise_iff_getElem.mp sorted i j inside inside' less

/-- Times in whole numbers. -/
def wholeAxis : Axis Int where
  linspace x0 x1 num :=
    (List.range num).map fun k : Nat => x0 + k * (x1 - x0) / ((num - 1 : Nat) : Int)
  length_linspace x0 x1 num := by
    rw [List.length_map, List.length_range]
  sorted_linspace x0 x1 num ordered := by
    rw [List.pairwise_map]
    refine List.pairwise_lt_range.imp fun {k k'} less => ?_
    have wider : (k : Int) * (x1 - x0) ≤ k' * (x1 - x0) :=
      Int.mul_le_mul_of_nonneg_right (by omega) (by omega)
    have step : (k : Int) * (x1 - x0) / ((num - 1 : Nat) : Int) ≤
        k' * (x1 - x0) / ((num - 1 : Nat) : Int) := by
      rcases Nat.eq_zero_or_pos (num - 1) with none | some
      · rw [none, Int.natCast_zero, Int.ediv_zero, Int.ediv_zero]
      · exact Int.ediv_le_ediv (by omega) wider
    omega

/-- A series with a spike and a bin of nothing but NaN. -/
def spikes : List (Int × Value Int) :=
  [(0, some 3), (1, none), (2, some 9), (3, none), (4, none), (6, none)]

theorem minmaxDecimate_envelope_spikes :
    (spikes.map Prod.fst).Pairwise (· ≤ ·) ∧ FiniteOrNan (spikes.map Prod.snd) ∧ (0 : Int) < 6 ∧
      ∃ shown,
        minmaxDecimate wholeAxis (spikes.map Prod.fst) (spikes.map Prod.snd) 0 6 2 =
            (shown.map fun i => (spikes.map Prod.fst).getD i 0,
              shown.map fun i => (spikes.map Prod.snd).getD i none) ∧
          (shown.map fun i => (spikes.map Prod.fst).getD i 0).Pairwise (· ≤ ·) ∧
          Envelope wholeAxis (spikes.map Prod.fst) (spikes.map Prod.snd) 0 6 2 shown := by
  have sorted : (spikes.map Prod.fst).Pairwise (· ≤ ·) := by decide
  have finite : FiniteOrNan (spikes.map Prod.snd) := by
    have each : ∀ value ∈ spikes.map Prod.snd, value.all fun number => IsFinite number := by
      decide +kernel
    intro value member number eq
    have all := each value member
    rw [eq] at all
    exact of_decide_eq_true all
  exact ⟨sorted, finite, by decide,
    minmaxDecimate_envelope wholeAxis spikes sorted finite (by decide) 2⟩

example :
    minmaxDecimate wholeAxis (spikes.map Prod.fst) (spikes.map Prod.snd) 0 6 2 =
      ([0, 2, 3], [some 3, some 9, none]) := by
  decide +kernel

/-- Without a bin, all samples of the view are shown. -/
theorem minmaxDecimate_no_bins :
    ¬(minmaxDecimate wholeAxis [1, 2, 3] [some (5 : Number Int), some 6, some 7] 0 4 0).1.length ≤
      2 * 0 + 2 := by
  decide +kernel

end Plot
end TriCoreDap
