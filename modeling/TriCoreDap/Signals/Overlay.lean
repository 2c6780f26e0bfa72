import TriCoreDap.Signals.EventLog

/-!
# The shadow memory byte by byte

Stores one after the other put the last value of each byte into the ranges.  Every
byte of a range is one of a signal, so a store that touches no signal puts nothing.
-/

namespace TriCoreDap
namespace Signals

open Decode (Row Kind)

namespace Range

/-- The bytes that are given, at their addresses. -/
def put (range : Range) (bytes : Nat → Option Byte) : Range where
  base := range.base
  data := range.data.mapIdx fun index byte => (bytes (range.base + index)).getD byte
  known := range.known.mapIdx fun index known => (bytes (range.base + index)).isSome || known
  length_known := by rw [List.length_mapIdx, List.length_mapIdx, range.length_known]

variable {range : Range} {bytes more : Nat → Option Byte}

theorem put_put (range : Range) (bytes more : Nat → Option Byte) :
    (range.put bytes).put more = range.put fun addr => (more addr).or (bytes addr) := by
  apply ext' (by rfl)
  · simp only [put, List.mapIdx_mapIdx]
    congr 1
    funext index byte
    simp only [Function.comp_apply]
    cases more (range.base + index) <;> rfl
  · simp only [put, List.mapIdx_mapIdx]
    congr 1
    funext index known
    simp only [Function.comp_apply]
    cases more (range.base + index) <;> rfl

/-- Nothing is put where none of the bytes lies in the range. -/
theorem put_outside
    (outside : ∀ addr, range.base ≤ addr → addr < range.stop → bytes addr = none) :
    range.put bytes = range := by
  have lengths := range.length_known
  apply ext_getElem? (by rfl)
  · rw [put, List.length_mapIdx]
  · intro index inside
    rw [put, List.length_mapIdx] at inside
    rw [put, List.getElem?_mapIdx, outside _ (Nat.le_add_right _ _) (by rw [stop]; omega)]
    exact Option.map_id'
  · intro index inside
    rw [put, List.length_mapIdx] at inside
    rw [put, List.getElem?_mapIdx, outside _ (Nat.le_add_right _ _) (by rw [stop]; omega)]
    exact Option.map_id'

/-- The last write of a run of bytes. -/
theorem lastWrite_run (addr : Nat) (raw : List Byte) (place : Nat) :
    lastWrite (writesFrom (addr + ·) 0 raw) place =
      if addr ≤ place then raw[place - addr]? else none := by
  have run (raw : List Byte) (index : Nat) : lastWrite (writesFrom (addr + ·) index raw) place =
      if addr + index ≤ place then raw[place - (addr + index)]? else none := by
    induction raw generalizing index with
    | nil =>
        rw [List.getElem?_nil, ite_self]
        rfl
    | cons byte rest inductionHypothesis =>
        rw [writesFrom, lastWrite_cons, inductionHypothesis]
        by_cases here : addr + index = place
        · rw [if_neg (by omega), if_pos here, if_pos here.le, ← here, Nat.sub_self]
          rfl
        · rw [if_neg here, Option.or_none]
          by_cases before : addr + index ≤ place
          · rw [if_pos before, if_pos (by omega),
              show place - (addr + index) = place - (addr + (index + 1)) + 1 by omega]
            rfl
          · rw [if_neg before, if_neg (by omega)]
  exact run raw 0

/-- A write puts its bytes. -/
theorem write_eq_put (range : Range) (addr : Nat) (raw : List Byte) :
    range.write addr raw = range.put (lastWrite (writesFrom (addr + ·) 0 raw)) := by
  have lengths := range.length_known
  apply ext_getElem?
  · rw [write_base]
    rfl
  · rw [write_length, put, List.length_mapIdx]
  · intro index inside
    rw [write_length] at inside
    rw [getElem?_write_data _ _ _ _ inside, put, List.getElem?_mapIdx, lastWrite_run]
    by_cases hit : range.Hit index addr raw.length
    · have within : range.base + index - addr < raw.length := by
        obtain ⟨low, high⟩ := hit
        omega
      rw [if_pos hit, if_pos hit.1, List.getElem?_eq_getElem inside,
        List.getElem?_eq_getElem within]
      rfl
    · rw [if_neg hit]
      have missed : (if addr ≤ range.base + index then raw[range.base + index - addr]? else none) =
          none := by
        split_ifs with low
        · rw [List.getElem?_eq_none]
          by_contra within
          exact hit ⟨low, by omega⟩
        · rfl
      rw [missed]
      exact Option.map_id'.symm
  · intro index inside
    rw [write_length] at inside
    rw [getElem?_write_known _ _ _ _ inside, put, List.getElem?_mapIdx, lastWrite_run]
    have known_inside : index < range.known.length := by omega
    by_cases hit : range.Hit index addr raw.length
    · have within : range.base + index - addr < raw.length := by
        obtain ⟨low, high⟩ := hit
        omega
      rw [if_pos hit, if_pos hit.1, List.getElem?_eq_getElem known_inside,
        List.getElem?_eq_getElem within]
      rfl
    · rw [if_neg hit]
      have missed : (if addr ≤ range.base + index then raw[range.base + index - addr]? else none) =
          none := by
        split_ifs with low
        · rw [List.getElem?_eq_none]
          by_contra within
          exact hit ⟨low, by omega⟩
        · rfl
      rw [missed]
      exact Option.map_id'.symm

end Range

namespace Shadow

variable {shadow : Shadow} {bytes more : Nat → Option Byte}

/-- The bytes that are given, in every range. -/
def put (shadow : Shadow) (bytes : Nat → Option Byte) : Shadow :=
  shadow.map fun range => range.put bytes

theorem put_put (shadow : Shadow) (bytes more : Nat → Option Byte) :
    (shadow.put bytes).put more = shadow.put fun addr => (more addr).or (bytes addr) := by
  rw [put, put, put, List.map_map]
  congr 1
  funext range
  exact range.put_put bytes more

theorem write_eq_put (shadow : Shadow) (addr : Nat) (raw : List Byte) :
    shadow.write addr raw = shadow.put (lastWrite (writesFrom (addr + ·) 0 raw)) := by
  rw [write, put]
  congr 1
  funext range
  exact range.write_eq_put addr raw

/-- Runs of bytes put the last value of each byte. -/
theorem foldl_write_eq_put (runs : List (Nat × List Byte)) (shadow : Shadow) :
    runs.foldl (fun shadow run => shadow.write run.1 run.2) shadow =
      shadow.put (lastWrite (EventLog.runBytes runs)) := by
  induction runs generalizing shadow with
  | nil =>
      have none_put : ∀ range ∈ shadow, range.put (lastWrite (EventLog.runBytes [])) = range :=
        fun range _ => Range.put_outside fun _ _ _ => rfl
      exact ((List.map_congr_left none_put).trans (List.map_id' _)).symm
  | cons run rest inductionHypothesis =>
      have split : EventLog.runBytes (run :: rest) =
          writesFrom (run.1 + ·) 0 run.2 ++ EventLog.runBytes rest := rfl
      rw [List.foldl_cons, inductionHypothesis, write_eq_put, put_put, split]
      congr 1
      funext addr
      rw [lastWrite_append]

/-! ## Only signals -/

/-- Every byte of the ranges is one of a signal. -/
def Only (values : List Signal) (shadow : Shadow) : Prop :=
  ∀ range ∈ shadow, ∀ addr, range.base ≤ addr → addr < range.stop →
    ∃ s ∈ values, s.addr ≤ addr ∧ addr < s.stop

variable {values : List Signal}

theorem Only.put (only : shadow.Only values) (bytes : Nat → Option Byte) :
    (shadow.put bytes).Only values := by
  intro range member addr low high
  obtain ⟨old, inside, rfl⟩ := List.mem_map.mp member
  have stop_eq : (old.put bytes).stop = old.stop := by
    rw [Range.stop, Range.put, List.length_mapIdx]
    rfl
  exact only old inside addr low (stop_eq ▸ high)

/-- A store that touches no signal puts nothing. -/
theorem Only.put_outside
    (only : shadow.Only values)
    (outside : ∀ s ∈ values, ∀ addr, s.addr ≤ addr → addr < s.stop → bytes addr = none) :
    shadow.put bytes = shadow := by
  have same : ∀ range ∈ shadow, range.put bytes = range := by
    intro range member
    apply Range.put_outside
    intro addr low high
    obtain ⟨s, inside, below, above⟩ := only range member addr low high
    exact outside s inside addr below above
  exact (List.map_congr_left same).trans (List.map_id' _)

/-- Joined spans have no bytes of their own. -/
theorem mergeSpans_only
    (current : Nat × Nat)
    (spans : List (Nat × Nat)) :
    ∀ merged ∈ mergeSpans current spans, ∀ addr, merged.1 ≤ addr → addr < merged.2 →
      ∃ span ∈ current :: spans, span.1 ≤ addr ∧ addr < span.2 := by
  induction spans generalizing current with
  | nil =>
      intro merged member addr low high
      obtain rfl := List.mem_singleton.mp member
      exact ⟨merged, List.mem_cons_self, low, high⟩
  | cons next rest inductionHypothesis =>
      intro merged member addr low high
      rw [mergeSpans] at member
      split_ifs at member with joined
      · obtain ⟨span, inside, below, above⟩ :=
          inductionHypothesis _ merged member addr low high
        rcases List.mem_cons.mp inside with rfl | inside
        · dsimp only at below above
          by_cases first : addr < current.2
          · exact ⟨current, List.mem_cons_self, below, first⟩
          · exact ⟨next, List.mem_cons_of_mem _ List.mem_cons_self, by omega, by omega⟩
        · exact ⟨span, List.mem_cons_of_mem _ (List.mem_cons_of_mem _ inside), below, above⟩
      · rcases List.mem_cons.mp member with rfl | member
        · exact ⟨merged, List.mem_cons_self, low, high⟩
        · obtain ⟨span, inside, below, above⟩ := inductionHypothesis _ merged member addr low high
          exact ⟨span, List.mem_cons_of_mem _ inside, below, above⟩

theorem foldl_copy_span (range : Range) (olds : List Range) :
    (olds.foldl Range.copy range).base = range.base ∧
      (olds.foldl Range.copy range).stop = range.stop := by
  induction olds generalizing range with
  | nil => exact ⟨rfl, rfl⟩
  | cons old rest inductionHypothesis =>
      obtain ⟨base, stop⟩ := inductionHypothesis (range.copy old)
      rw [List.foldl_cons, base, stop]
      unfold Range.copy
      split_ifs with inside
      · obtain ⟨low, top⟩ := inside
        rw [Range.stop] at top
        refine ⟨rfl, ?_⟩
        simp only [Range.stop]
        rw [length_splice (by omega) (by omega) (by omega)]
      · exact ⟨rfl, rfl⟩

theorem Only.cover
    {s : Signal}
    (only : shadow.Only values)
    (member : s ∈ values) : (shadow.cover s.addr s.stop).Only values := by
  intro range inside addr low high
  obtain ⟨span, merged, rfl⟩ := List.mem_map.mp inside
  obtain ⟨base, stop⟩ := foldl_copy_span (.blank span.1 span.2) shadow
  have span_stop : (Range.blank span.1 span.2).stop = span.1 + (span.2 - span.1) := by
    rw [Range.stop, Range.blank, List.length_replicate]
  rw [base] at low
  rw [stop, span_stop] at high
  have low : span.1 ≤ addr := low
  rw [mergedSpans] at merged
  cases sort : (shadow.map (fun range => (range.base, range.stop)) ++
      [(s.addr, s.stop)]).insertionSort spanLe with
  | nil =>
      rw [sort] at merged
      exact absurd merged List.not_mem_nil
  | cons first rest =>
      rw [sort] at merged
      obtain ⟨source, from_spans, below, above⟩ :=
        mergeSpans_only first rest span merged addr low (by omega)
      rw [← sort, List.mem_insertionSort, List.mem_append] at from_spans
      rcases from_spans with old | new
      · obtain ⟨range, of_shadow, rfl⟩ := List.mem_map.mp old
        exact only range of_shadow addr below above
      · rw [List.mem_singleton.mp new] at below above
        exact ⟨s, member, below, above⟩

/-- No byte is known. -/
def Unknown (shadow : Shadow) : Prop := ∀ range ∈ shadow, ∀ known ∈ range.known, known = false

theorem Unknown.cover (unknown : shadow.Unknown) (lo hi : Nat) : (shadow.cover lo hi).Unknown := by
  have copied (olds : List Range) (subset : olds ⊆ shadow) (range : Range)
      (none : ∀ known ∈ range.known, known = false) :
      ∀ known ∈ (olds.foldl Range.copy range).known, known = false := by
    induction olds generalizing range with
    | nil => exact none
    | cons old rest inductionHypothesis =>
        apply inductionHypothesis (List.Subset.trans (List.subset_cons_self _ _) subset)
        intro known member
        unfold Range.copy at member
        split_ifs at member
        · simp only [splice, List.mem_append] at member
          rcases member with (before | own) | after
          · exact none known (List.mem_of_mem_take before)
          · exact unknown old (subset List.mem_cons_self) known own
          · exact none known (List.mem_of_mem_drop after)
        · exact none known member
  intro range member
  obtain ⟨span, -, rfl⟩ := List.mem_map.mp member
  exact copied shadow (List.Subset.refl _) _ fun known inside => List.eq_of_mem_replicate inside

theorem Unknown.read
    (unknown : shadow.Unknown)
    (some : 0 < size)
    (addr : Nat) : shadow.read addr size = none := by
  rw [Shadow.read]
  cases found : shadow.find? fun range => decide (range.Contains addr size) with
  | none => rfl
  | some range =>
      have member := List.mem_of_find?_eq_some found
      obtain ⟨low, top⟩ : range.Contains addr size := by simpa using List.find?_some found
      have lengths := range.length_known
      rw [Range.stop] at top
      have length : (slice range.known (addr - range.base) (addr - range.base + size)).length =
          size := by
        rw [length_slice (by omega)]
        omega
      obtain ⟨first, inside⟩ := List.exists_mem_of_length_pos (length.symm ▸ some)
      have of_range : first ∈ range.known := List.mem_of_mem_drop (List.mem_of_mem_take inside)
      change range.read addr size = none
      rw [Range.read, if_pos]
      exact unknown range member first of_range ▸ inside

end Shadow
end Signals
end TriCoreDap
