import TriCoreDap.Library.Splice
import TriCoreDap.Library.Word
import Mathlib.Data.List.Sort

/-!
# The shadow memory

`signals.py`: `Shadow`, the bytes of the watched memory with a mask of those that
are known, in ranges that cover the selected signals.
-/

namespace TriCoreDap
namespace Signals

/-- A range from `base` on: its bytes and which of them are known. -/
structure Range where
  base : Nat
  data : List Byte
  known : List Bool
  length_known : known.length = data.length
  deriving DecidableEq, Repr

namespace Range

variable {range : Range} {addr addr' size : Nat} {raw raw' : List Byte}

@[ext] theorem ext'
    {range other : Range}
    (base : range.base = other.base)
    (data : range.data = other.data)
    (known : range.known = other.known) : range = other := by
  cases range
  cases other
  cases base
  cases data
  cases known
  rfl

def stop (range : Range) : Nat := range.base + range.data.length

/-- No byte is known. -/
def blank (lo hi : Nat) : Range where
  base := lo
  data := List.replicate (hi - lo) 0
  known := List.replicate (hi - lo) false
  length_known := by rw [List.length_replicate, List.length_replicate]

/-- Whether it represents `[addr, addr + size)`. -/
def Contains (range : Range) (addr size : Nat) : Prop :=
  range.base ≤ addr ∧ addr + size ≤ range.stop

instance (range : Range) (addr size : Nat) : Decidable (range.Contains addr size) :=
  inferInstanceAs (Decidable (_ ∧ _))

/-- The part of `raw` that lies in the range. -/
def write (range : Range) (addr : Nat) (raw : List Byte) : Range :=
  let lo := max addr range.base
  let hi := min (addr + raw.length) range.stop
  if inside : lo < hi then
    { base := range.base
      data := splice range.data (lo - range.base) (hi - range.base)
        (slice raw (lo - addr) (hi - addr))
      known := splice range.known (lo - range.base) (hi - range.base)
        (List.replicate (hi - lo) true)
      length_known := by
        have lengths := range.length_known
        have top : hi ≤ range.base + range.data.length := min_le_right _ _
        have fits : hi ≤ addr + raw.length := min_le_left _ _
        have low : range.base ≤ lo := le_max_right _ _
        have first : addr ≤ lo := le_max_left _ _
        rw [length_splice (by omega) (by omega) (by rw [List.length_replicate]; omega),
          length_splice (by omega) (by omega) (by rw [length_slice (by omega)]; omega), lengths] }
  else range

/-- The bytes, or none if any is still unknown. -/
def read (range : Range) (addr size : Nat) : Option (List Byte) :=
  if false ∈ slice range.known (addr - range.base) (addr - range.base + size) then none
  else some (slice range.data (addr - range.base) (addr - range.base + size))

/-- The bytes of `old`, where it lies in the range. -/
def copy (range old : Range) : Range :=
  if inside : range.Contains old.base old.data.length then
    { base := range.base
      data := splice range.data (old.base - range.base)
        (old.base - range.base + old.data.length) old.data
      known := splice range.known (old.base - range.base)
        (old.base - range.base + old.known.length) old.known
      length_known := by
        obtain ⟨low, top⟩ := inside
        have lengths := range.length_known
        have others := old.length_known
        rw [stop] at top
        rw [length_splice (by omega) (by omega) (by omega),
          length_splice (by omega) (by omega) (by omega), lengths] }
  else range

end Range

/-- `Shadow`. -/
abbrev Shadow := List Range

namespace Shadow

/-- `sorted` on pairs. -/
def spanLe (first second : Nat × Nat) : Prop :=
  first.1 < second.1 ∨ first.1 = second.1 ∧ first.2 ≤ second.2

instance : DecidableRel spanLe := fun _ _ => inferInstanceAs (Decidable (_ ∨ _))

/-- Spans that touch or overlap the one before are joined to it. -/
def mergeSpans : (current : Nat × Nat) → List (Nat × Nat) → List (Nat × Nat)
  | current, [] => [current]
  | current, next :: rest =>
      if next.1 ≤ current.2 then mergeSpans (current.1, max current.2 next.2) rest
      else current :: mergeSpans next rest

/-- The spans to represent, joined. -/
def mergedSpans (spans : List (Nat × Nat)) : List (Nat × Nat) :=
  match spans.insertionSort spanLe with
  | [] => []
  | first :: rest => mergeSpans first rest

/-- `Shadow.cover`: `[lo, hi)` is represented as well. -/
def cover (shadow : Shadow) (lo hi : Nat) : Shadow :=
  (mergedSpans (shadow.map (fun range => (range.base, range.stop)) ++ [(lo, hi)])).map
    fun span => shadow.foldl Range.copy (.blank span.1 span.2)

/-- `Shadow.write`. -/
def write (shadow : Shadow) (addr : Nat) (raw : List Byte) : Shadow :=
  shadow.map fun range => range.write addr raw

/-- `Shadow.read`. -/
def read (shadow : Shadow) (addr size : Nat) : Option (List Byte) :=
  (shadow.find? fun range => decide (range.Contains addr size)).bind (·.read addr size)

/-- Whether it represents `[addr, addr + size)` in one range. -/
def Covers (shadow : Shadow) (addr size : Nat) : Prop :=
  ∃ range ∈ shadow, range.Contains addr size

end Shadow

/-! ## Writes -/

namespace Range

variable (range : Range) (addr addr' size : Nat) (raw raw' : List Byte)

@[simp] theorem write_base : (range.write addr raw).base = range.base := by
  rw [write]
  split_ifs <;> rfl

/-- Byte `index` of the range is written. -/
abbrev Hit (index addr size : Nat) : Prop :=
  addr ≤ range.base + index ∧ range.base + index < addr + size

theorem getElem?_write_data (index : Nat) (inside : index < range.data.length) :
    (range.write addr raw).data[index]? =
      if range.Hit index addr raw.length then raw[range.base + index - addr]?
      else range.data[index]? := by
  have stop_eq : range.stop = range.base + range.data.length := rfl
  rw [write]
  by_cases any : max addr range.base < min (addr + raw.length) range.stop
  · have length : (slice raw (max addr range.base - addr)
        (min (addr + raw.length) range.stop - addr)).length =
          min (addr + raw.length) range.stop - range.base - (max addr range.base - range.base) := by
      rw [length_slice (by omega)]
      omega
    simp only [dif_pos any]
    rw [getElem?_splice (by omega) (by omega) length]
    by_cases hit : addr ≤ range.base + index ∧ range.base + index < addr + raw.length
    · rw [if_pos hit, if_pos (by omega), getElem?_slice, if_pos (by omega)]
      congr 1
      omega
    · rw [if_neg hit, if_neg (by omega)]
  · rw [dif_neg any, if_neg (by omega)]

theorem getElem?_write_known (index : Nat) (inside : index < range.data.length) :
    (range.write addr raw).known[index]? =
      if range.Hit index addr raw.length then some true else range.known[index]? := by
  have lengths := range.length_known
  have stop_eq : range.stop = range.base + range.data.length := rfl
  rw [write]
  by_cases any : max addr range.base < min (addr + raw.length) range.stop
  · simp only [dif_pos any]
    rw [getElem?_splice (by omega) (by omega) (by rw [List.length_replicate]; omega)]
    by_cases hit : addr ≤ range.base + index ∧ range.base + index < addr + raw.length
    · rw [if_pos hit, if_pos (by omega), List.getElem?_replicate, if_pos (by omega)]
    · rw [if_neg hit, if_neg (by omega)]
  · rw [dif_neg any, if_neg (by omega)]

@[simp] theorem write_length : (range.write addr raw).data.length = range.data.length := by
  have stop_eq : range.stop = range.base + range.data.length := rfl
  rw [write]
  by_cases any : max addr range.base < min (addr + raw.length) range.stop
  · simp only [dif_pos any]
    exact length_splice (by omega) (by omega) (by rw [length_slice (by omega)]; omega)
  · rw [dif_neg any]

@[simp] theorem write_contains : (range.write addr raw).Contains addr' size ↔
    range.Contains addr' size := by
  rw [Contains, Contains, stop, stop, write_base, write_length]

variable {range}

/-- Ranges agree that agree byte by byte. -/
theorem ext_getElem?
    {other : Range}
    (base : range.base = other.base)
    (length : range.data.length = other.data.length)
    (data : ∀ index, index < range.data.length → range.data[index]? = other.data[index]?)
    (known : ∀ index, index < range.data.length → range.known[index]? = other.known[index]?) :
    range = other := by
  have lengths := range.length_known
  have others := other.length_known
  apply ext' base
  · apply List.ext_getElem? fun index => ?_
    by_cases inside : index < range.data.length
    · exact data index inside
    · rw [List.getElem?_eq_none (by omega), List.getElem?_eq_none (by omega)]
  · apply List.ext_getElem? fun index => ?_
    by_cases inside : index < range.data.length
    · exact known index inside
    · rw [List.getElem?_eq_none (by omega), List.getElem?_eq_none (by omega)]

variable {addr addr' size raw raw'}

/-- Writes to separate addresses can be exchanged. -/
theorem write_comm (apart : addr + raw.length ≤ addr' ∨ addr' + raw'.length ≤ addr) :
    (range.write addr raw).write addr' raw' = (range.write addr' raw').write addr raw := by
  apply ext_getElem?
  · simp
  · simp
  · intro index inside
    simp only [write_length] at inside
    rw [getElem?_write_data _ _ _ _ (by simpa using inside), getElem?_write_data _ _ _ _ inside,
      getElem?_write_data _ _ _ _ (by simpa using inside), getElem?_write_data _ _ _ _ inside]
    simp only [Hit, write_base]
    split_ifs
    · omega
    · rfl
    · rfl
    · rfl
  · intro index inside
    simp only [write_length] at inside
    rw [getElem?_write_known _ _ _ _ (by simpa using inside), getElem?_write_known _ _ _ _ inside,
      getElem?_write_known _ _ _ _ (by simpa using inside), getElem?_write_known _ _ _ _ inside]
    simp only [Hit, write_base]
    split_ifs <;> rfl

/-- The last of two writes to one place counts. -/
theorem write_write (same : raw.length = raw'.length) :
    (range.write addr raw).write addr raw' = range.write addr raw' := by
  apply ext_getElem?
  · simp
  · simp
  · intro index inside
    simp only [write_length] at inside
    rw [getElem?_write_data _ _ _ _ (by simpa using inside), getElem?_write_data _ _ _ _ inside,
      getElem?_write_data _ _ _ _ inside]
    simp only [Hit, write_base, same]
    split_ifs <;> rfl
  · intro index inside
    simp only [write_length] at inside
    rw [getElem?_write_known _ _ _ _ (by simpa using inside), getElem?_write_known _ _ _ _ inside,
      getElem?_write_known _ _ _ _ inside]
    simp only [Hit, write_base, same]
    split_ifs <;> rfl

/-- What was written is read. -/
theorem read_write_same (contains : range.Contains addr raw.length) :
    (range.write addr raw).read addr raw.length = some raw := by
  obtain ⟨low, top⟩ := contains
  rw [stop] at top
  have lengths := (range.write addr raw).length_known
  rw [write_length] at lengths
  rw [read, write_base, if_neg]
  · congr 1
    apply List.ext_getElem? fun index => ?_
    rw [getElem?_slice]
    by_cases inside : index < raw.length
    · rw [if_pos (by omega), getElem?_write_data _ _ _ _ (by omega), if_pos ⟨by omega, by omega⟩]
      congr 1
      omega
    · rw [if_neg (by omega), List.getElem?_eq_none (by omega)]
  · intro member
    obtain ⟨index, found⟩ := List.mem_iff_getElem?.mp member
    rw [getElem?_slice] at found
    by_cases inside : index < raw.length
    · rw [if_pos (by omega), getElem?_write_known _ _ _ _ (by omega),
        if_pos ⟨by omega, by omega⟩] at found
      cases found
    · rw [if_neg (by omega)] at found
      cases found

/-- A write elsewhere does not matter. -/
theorem read_write_apart
    (contains : range.Contains addr' size)
    (apart : addr + raw.length ≤ addr' ∨ addr' + size ≤ addr) :
    (range.write addr raw).read addr' size = range.read addr' size := by
  obtain ⟨low, top⟩ := contains
  rw [stop] at top
  have same_known : slice (range.write addr raw).known (addr' - range.base)
      (addr' - range.base + size) =
        slice range.known (addr' - range.base) (addr' - range.base + size) := by
    apply List.ext_getElem? fun index => ?_
    rw [getElem?_slice, getElem?_slice]
    split_ifs with inside
    · rw [getElem?_write_known _ _ _ _ (by omega), if_neg]
      rw [Hit]
      omega
    · rfl
  have same_data : slice (range.write addr raw).data (addr' - range.base)
      (addr' - range.base + size) =
        slice range.data (addr' - range.base) (addr' - range.base + size) := by
    apply List.ext_getElem? fun index => ?_
    rw [getElem?_slice, getElem?_slice]
    split_ifs with inside
    · rw [getElem?_write_data _ _ _ _ (by omega), if_neg]
      rw [Hit]
      omega
    · rfl
  rw [read, read, write_base, same_known, same_data]

end Range

namespace Shadow

variable {shadow : Shadow} {addr addr' size : Nat} {raw raw' : List Byte}

theorem write_comm (apart : addr + raw.length ≤ addr' ∨ addr' + raw'.length ≤ addr) :
    (shadow.write addr raw).write addr' raw' = (shadow.write addr' raw').write addr raw := by
  rw [write, write, write, write, List.map_map, List.map_map]
  congr 1
  funext range
  exact Range.write_comm apart

theorem write_write (same : raw.length = raw'.length) :
    (shadow.write addr raw).write addr raw' = shadow.write addr raw' := by
  rw [write, write, write, List.map_map]
  congr 1
  funext range
  exact Range.write_write same

theorem covers_write : (shadow.write addr raw).Covers addr' size ↔ shadow.Covers addr' size := by
  simp [Covers, write]

theorem read_write (addr addr' size : Nat) (raw : List Byte) :
    (shadow.write addr raw).read addr' size =
      (shadow.find? fun range => decide (range.Contains addr' size)).bind
        fun range => (range.write addr raw).read addr' size := by
  rw [read, write, List.find?_map]
  simp only [Function.comp_def, Range.write_contains, Option.bind_map]

theorem read_write_same (covers : shadow.Covers addr raw.length) :
    (shadow.write addr raw).read addr raw.length = some raw := by
  rw [read_write]
  cases found : shadow.find? fun range => decide (range.Contains addr raw.length) with
  | none =>
      obtain ⟨range, member, contains⟩ := covers
      exact absurd contains (by simpa using List.find?_eq_none.mp found range member)
  | some range =>
      have contains : range.Contains addr raw.length := by
        simpa using List.find?_some found
      exact Range.read_write_same contains

theorem read_write_apart (apart : addr + raw.length ≤ addr' ∨ addr' + size ≤ addr) :
    (shadow.write addr raw).read addr' size = shadow.read addr' size := by
  rw [read_write, read]
  cases found : shadow.find? fun range => decide (range.Contains addr' size) with
  | none => rfl
  | some range =>
      have contains : range.Contains addr' size := by
        simpa using List.find?_some found
      exact Range.read_write_apart contains apart

/-! ## Covering -/

/-- Spans by their starts. -/
def Ascending (spans : List (Nat × Nat)) : Prop :=
  spans.Pairwise fun first second => first.1 ≤ second.1

theorem ascending_joined
    {current next : Nat × Nat}
    {spans : List (Nat × Nat)}
    (top : Nat)
    (sorted : Ascending (current :: next :: spans)) : Ascending ((current.1, top) :: spans) := by
  obtain ⟨first, others⟩ := List.pairwise_cons.mp sorted
  exact List.pairwise_cons.mpr ⟨fun span member => first span (List.mem_cons_of_mem _ member),
    others.of_cons⟩

theorem mergeSpans_covers
    (current : Nat × Nat)
    (spans : List (Nat × Nat))
    (sorted : Ascending (current :: spans)) :
    ∀ span ∈ current :: spans, ∃ merged ∈ mergeSpans current spans,
      merged.1 ≤ span.1 ∧ span.2 ≤ merged.2 := by
  induction spans generalizing current with
  | nil =>
      intro span member
      exact ⟨current, List.mem_singleton.mpr rfl, by rw [List.mem_singleton.mp member],
        by rw [List.mem_singleton.mp member]⟩
  | cons next rest inductionHypothesis =>
      obtain ⟨first, others⟩ := List.pairwise_cons.mp sorted
      have next_le : current.1 ≤ next.1 := first next List.mem_cons_self
      intro span member
      rw [mergeSpans]
      split_ifs with joined
      · have covered := inductionHypothesis (current.1, max current.2 next.2)
          (ascending_joined _ sorted)
        rcases List.mem_cons.mp member with rfl | member
        · obtain ⟨merged, inside, low, high⟩ := covered _ List.mem_cons_self
          exact ⟨merged, inside, low, (le_max_left _ _).trans high⟩
        rcases List.mem_cons.mp member with rfl | member
        · obtain ⟨merged, inside, low, high⟩ := covered _ List.mem_cons_self
          exact ⟨merged, inside, low.trans next_le, (le_max_right _ _).trans high⟩
        · exact covered span (List.mem_cons_of_mem _ member)
      · rcases List.mem_cons.mp member with rfl | member
        · exact ⟨span, List.mem_cons_self, le_refl _, le_refl _⟩
        · obtain ⟨merged, inside, bounds⟩ := inductionHypothesis next others span member
          exact ⟨merged, List.mem_cons_of_mem _ inside, bounds⟩

theorem spanLe_trans {first second third : Nat × Nat} :
    spanLe first second → spanLe second third → spanLe first third := by
  simp only [spanLe]
  omega

instance : IsTrans (Nat × Nat) spanLe := ⟨fun _ _ _ => spanLe_trans⟩

instance : Std.Total spanLe := ⟨fun first second => by
  simp only [spanLe]
  omega⟩

theorem ascending_insertionSort (spans : List (Nat × Nat)) :
    Ascending (spans.insertionSort spanLe) := by
  refine (List.pairwise_insertionSort spanLe spans).imp fun less => ?_
  rcases less with less | equal
  · exact less.le
  · exact equal.1.le

/-- What sorting the spans keeps of them. -/
theorem mergedSpans_cases (spans : List (Nat × Nat)) :
    mergedSpans spans = [] ∧ spans = [] ∨ ∃ first rest, Ascending (first :: rest) ∧
      mergedSpans spans = mergeSpans first rest ∧
        ∀ span, span ∈ first :: rest ↔ span ∈ spans := by
  have sorted := ascending_insertionSort spans
  have same : ∀ span, span ∈ spans.insertionSort spanLe ↔ span ∈ spans :=
    fun _ => List.mem_insertionSort _
  rw [mergedSpans]
  cases sort : spans.insertionSort spanLe with
  | nil =>
      rw [sort] at same
      exact Or.inl ⟨rfl, List.eq_nil_iff_forall_not_mem.mpr fun span member =>
        List.not_mem_nil ((same span).mpr member)⟩
  | cons first rest =>
      rw [sort] at sorted same
      exact Or.inr ⟨first, rest, sorted, rfl, same⟩

/-- Every span is in a joined one. -/
theorem mergedSpans_covers (spans : List (Nat × Nat)) :
    ∀ span ∈ spans, ∃ merged ∈ mergedSpans spans, merged.1 ≤ span.1 ∧ span.2 ≤ merged.2 := by
  intro span member
  rcases mergedSpans_cases spans with ⟨-, none⟩ | ⟨first, rest, sorted, merges, same⟩
  · rw [none] at member
    exact absurd member List.not_mem_nil
  · rw [merges]
    exact mergeSpans_covers first rest sorted span ((same span).mpr member)

theorem foldl_copy_contains (range : Range) (olds : List Range) :
    (olds.foldl Range.copy range).Contains addr size ↔ range.Contains addr size := by
  induction olds generalizing range with
  | nil => exact Iff.rfl
  | cons old rest inductionHypothesis =>
      rw [List.foldl_cons, inductionHypothesis]
      unfold Range.copy
      split_ifs with inside
      · obtain ⟨low, top⟩ := inside
        rw [Range.stop] at top
        simp only [Range.Contains, Range.stop]
        rw [length_splice (by omega) (by omega) (by omega)]
      · exact Iff.rfl

/-- What lies in a span that is asked for is covered. -/
theorem covers_cover_of_span
    {span : Nat × Nat}
    (member : span ∈ shadow.map (fun range => (range.base, range.stop)) ++ [(lo, hi)])
    (low : span.1 ≤ addr)
    (high : addr + size ≤ span.2) : (shadow.cover lo hi).Covers addr size := by
  obtain ⟨merged, inside, below, above⟩ := mergedSpans_covers _ span member
  refine ⟨_, List.mem_map.mpr ⟨merged, inside, rfl⟩, ?_⟩
  rw [foldl_copy_contains, Range.Contains, Range.stop, Range.blank, List.length_replicate]
  constructor
  · exact below.trans low
  · dsimp only
    omega

theorem covers_cover (le : lo ≤ hi) : (shadow.cover lo hi).Covers lo (hi - lo) := by
  apply covers_cover_of_span (List.mem_append_right _ (List.mem_singleton.mpr rfl))
  · exact le_refl _
  · dsimp only
    omega

theorem Covers.cover (covers : shadow.Covers addr size) (lo hi : Nat) :
    (shadow.cover lo hi).Covers addr size := by
  obtain ⟨range, member, low, high⟩ := covers
  exact covers_cover_of_span (List.mem_append_left _ (List.mem_map.mpr ⟨range, member, rfl⟩))
    low high

end Shadow
end Signals
end TriCoreDap
