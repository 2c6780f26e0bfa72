import TriCoreDap.Library.Lists
import TriCoreDap.Signals.Shadow
import Mathlib.Data.List.Induction

/-!
# What the shadow remembers

Any calls of `Shadow.cover` and `Shadow.write`: the ranges stay apart, and a read
gives what was written last since its bytes were covered.
-/

namespace TriCoreDap
namespace Signals

variable {addr size lo hi : Nat} {byte : Byte} {raw : List Byte}

/-! ## Joined spans -/

namespace Shadow

variable {current merged : Nat × Nat} {spans : List (Nat × Nat)}

theorem le_of_mem_mergeSpans
    (sorted : Ascending (current :: spans))
    (member : merged ∈ mergeSpans current spans) : current.1 ≤ merged.1 := by
  induction spans generalizing current with
  | nil => rw [List.mem_singleton.mp member]
  | cons next rest inductionHypothesis =>
      rw [mergeSpans] at member
      split_ifs at member with joined
      · have later := inductionHypothesis (ascending_joined (max current.2 next.2) sorted) member
        exact later
      · obtain ⟨first, others⟩ := List.pairwise_cons.mp sorted
        rcases List.mem_cons.mp member with rfl | later
        · exact le_refl _
        · exact (first next List.mem_cons_self).trans (inductionHypothesis others later)

/-- Joined spans neither overlap nor touch. -/
theorem apart_mergeSpans (sorted : Ascending (current :: spans)) :
    (mergeSpans current spans).Pairwise fun first second => first.2 < second.1 := by
  induction spans generalizing current with
  | nil => exact List.pairwise_singleton _ _
  | cons next rest inductionHypothesis =>
      rw [mergeSpans]
      split_ifs with joined
      · exact inductionHypothesis (ascending_joined _ sorted)
      · have others := (List.pairwise_cons.mp sorted).2
        refine List.pairwise_cons.mpr ⟨fun span member => ?_, inductionHypothesis others⟩
        exact (not_le.mp joined).trans_le (le_of_mem_mergeSpans others member)

/-- Joined spans hold no other addresses. -/
theorem within_mergeSpans
    (member : merged ∈ mergeSpans current spans)
    (low : merged.1 ≤ addr)
    (high : addr < merged.2) : ∃ span ∈ current :: spans, span.1 ≤ addr ∧ addr < span.2 := by
  induction spans generalizing current with
  | nil =>
      rw [mergeSpans, List.mem_singleton] at member
      exact ⟨merged, by rw [member]; exact List.mem_cons_self, low, high⟩
  | cons next rest inductionHypothesis =>
      rw [mergeSpans] at member
      split_ifs at member with joined
      · obtain ⟨span, inside, bounds⟩ := inductionHypothesis member
        rcases List.mem_cons.mp inside with rfl | inside
        · rcases Nat.lt_or_ge addr current.2 with before | after
          · exact ⟨current, List.mem_cons_self, bounds.1, before⟩
          · have upper : addr < next.2 := by
              simp only [lt_max_iff] at bounds
              omega
            exact ⟨next, List.mem_cons_of_mem _ List.mem_cons_self, joined.trans after, upper⟩
        · exact ⟨span, List.mem_cons_of_mem _ (List.mem_cons_of_mem _ inside), bounds⟩
      · rcases List.mem_cons.mp member with rfl | member
        · exact ⟨merged, List.mem_cons_self, low, high⟩
        · obtain ⟨span, inside, bounds⟩ := inductionHypothesis member
          exact ⟨span, List.mem_cons_of_mem _ inside, bounds⟩

/-- A joined span begins with one of the spans. -/
theorem begins_mergeSpans (member : merged ∈ mergeSpans current spans) :
    ∃ span ∈ current :: spans, span.1 = merged.1 ∧ span.2 ≤ merged.2 := by
  induction spans generalizing current with
  | nil =>
      rw [mergeSpans, List.mem_singleton] at member
      exact ⟨current, List.mem_cons_self, by rw [member], by rw [member]⟩
  | cons next rest inductionHypothesis =>
      rw [mergeSpans] at member
      split_ifs at member with joined
      · obtain ⟨span, inside, first, last⟩ := inductionHypothesis member
        rcases List.mem_cons.mp inside with rfl | inside
        · exact ⟨current, List.mem_cons_self, first, (le_max_left _ _).trans last⟩
        · exact ⟨span, List.mem_cons_of_mem _ (List.mem_cons_of_mem _ inside), first, last⟩
      · rcases List.mem_cons.mp member with rfl | member
        · exact ⟨merged, List.mem_cons_self, rfl, le_rfl⟩
        · obtain ⟨span, inside, bounds⟩ := inductionHypothesis member
          exact ⟨span, List.mem_cons_of_mem _ inside, bounds⟩

theorem apart_mergedSpans (spans : List (Nat × Nat)) :
    (mergedSpans spans).Pairwise fun first second => first.2 < second.1 := by
  rcases mergedSpans_cases spans with ⟨none, -⟩ | ⟨first, rest, sorted, merges, -⟩
  · rw [none]
    exact List.Pairwise.nil
  · rw [merges]
    exact apart_mergeSpans sorted

theorem within_mergedSpans
    (member : merged ∈ mergedSpans spans)
    (low : merged.1 ≤ addr)
    (high : addr < merged.2) : ∃ span ∈ spans, span.1 ≤ addr ∧ addr < span.2 := by
  rcases mergedSpans_cases spans with ⟨none, -⟩ | ⟨first, rest, -, merges, same⟩
  · rw [none] at member
    exact absurd member List.not_mem_nil
  · rw [merges] at member
    obtain ⟨span, inside, bounds⟩ := within_mergeSpans member low high
    exact ⟨span, (same span).mp inside, bounds⟩

theorem ordered_mergedSpans
    (ordered : ∀ span ∈ spans, span.1 ≤ span.2)
    (member : merged ∈ mergedSpans spans) : merged.1 ≤ merged.2 := by
  rcases mergedSpans_cases spans with ⟨none, -⟩ | ⟨first, rest, -, merges, same⟩
  · rw [none] at member
    exact absurd member List.not_mem_nil
  · rw [merges] at member
    obtain ⟨span, inside, first, last⟩ := begins_mergeSpans member
    have positive := ordered span ((same span).mp inside)
    omega

end Shadow

/-! ## The bytes of the shadow -/

/-- The byte at an address and whether it is known, where it is in the range. -/
def Range.entry (range : Range) (addr : Nat) : Option (Byte × Bool) :=
  if range.base ≤ addr then
    match range.data[addr - range.base]?, range.known[addr - range.base]? with
    | some byte, some known => some (byte, known)
    | _, _ => none
  else none

/-- The byte at an address and whether it is known, where it is covered. -/
def Shadow.entry (shadow : Shadow) (addr : Nat) : Option (Byte × Bool) :=
  shadow.findSome? fun range => range.entry addr

namespace Range

variable {range old : Range} {held : Byte × Bool}

/-- A range holds the addresses from its base to its end. -/
theorem entry_isSome (range : Range) (addr : Nat) :
    (range.entry addr).isSome ↔ range.base ≤ addr ∧ addr < range.stop := by
  have lengths := range.length_known
  rw [entry, stop]
  split_ifs with low
  · by_cases high : addr - range.base < range.data.length
    · rw [List.getElem?_eq_getElem high, List.getElem?_eq_getElem (lengths ▸ high)]
      simp only [Option.isSome_some, true_iff]
      omega
    · rw [List.getElem?_eq_none (not_lt.mp high)]
      simp only [Option.isSome_none, Bool.false_eq_true, false_iff]
      omega
  · simp only [Option.isSome_none, Bool.false_eq_true, false_iff]
    omega

theorem entry_eq_some :
    range.entry addr = some held ↔ range.base ≤ addr ∧
      range.data[addr - range.base]? = some held.1 ∧
        range.known[addr - range.base]? = some held.2 := by
  obtain ⟨byte, known⟩ := held
  rw [entry]
  split_ifs with low
  · cases range.data[addr - range.base]? <;> cases range.known[addr - range.base]? <;>
      simp [low]
  · simp [low]

/-- A written byte is known. -/
theorem entry_write_hit
    (covered : (range.entry addr).isSome)
    (start : Nat)
    (low : start ≤ addr)
    (written : raw[addr - start]? = some byte) :
    (range.write start raw).entry addr = some (byte, true) := by
  obtain ⟨above, below⟩ := (entry_isSome range addr).mp covered
  have inside : addr - range.base < range.data.length := by
    rw [stop] at below
    omega
  have short : addr - start < raw.length := (List.getElem?_eq_some_iff.mp written).1
  have hit : range.Hit (addr - range.base) start raw.length := by
    rw [Hit]
    omega
  rw [entry_eq_some, write_base, getElem?_write_data range start raw _ inside,
    getElem?_write_known range start raw _ inside, if_pos hit, if_pos hit,
    Nat.add_sub_cancel' above]
  exact ⟨above, written, rfl⟩

theorem entry_write_miss
    (range : Range)
    (apart : addr < start ∨ start + raw.length ≤ addr) :
    (range.write start raw).entry addr = range.entry addr := by
  ext held
  rw [entry_eq_some, entry_eq_some, write_base]
  apply and_congr_right
  intro above
  have miss : ¬range.Hit (addr - range.base) start raw.length := by
    rw [Hit]
    omega
  by_cases inside : addr - range.base < range.data.length
  · rw [getElem?_write_data range start raw _ inside, getElem?_write_known range start raw _ inside,
      if_neg miss, if_neg miss]
  · have outside := not_lt.mp inside
    rw [List.getElem?_eq_none (by rwa [write_length]), List.getElem?_eq_none outside]
    simp

@[simp] theorem entry_write_isSome (start : Nat) (raw : List Byte) :
    ((range.write start raw).entry addr).isSome = (range.entry addr).isSome := by
  rw [Bool.eq_iff_iff, entry_isSome, entry_isSome, stop, stop, write_base, write_length]

theorem getElem?_copy_data (contains : range.Contains old.base old.data.length) (index : Nat) :
    (range.copy old).data[index]? =
      if old.base - range.base ≤ index ∧ index < old.base - range.base + old.data.length then
        old.data[index - (old.base - range.base)]?
      else range.data[index]? := by
  have inside := contains
  obtain ⟨low, top⟩ := contains
  rw [stop] at top
  rw [copy, dif_pos inside]
  exact getElem?_splice (by omega) (by omega) (by omega) index

theorem getElem?_copy_known (contains : range.Contains old.base old.data.length) (index : Nat) :
    (range.copy old).known[index]? =
      if old.base - range.base ≤ index ∧ index < old.base - range.base + old.data.length then
        old.known[index - (old.base - range.base)]?
      else range.known[index]? := by
  have inside := contains
  have lengths := range.length_known
  have others := old.length_known
  obtain ⟨low, top⟩ := contains
  rw [stop] at top
  rw [← others, copy, dif_pos inside]
  exact getElem?_splice (by omega) (by omega) (by omega) index

@[simp] theorem copy_base (range old : Range) : (range.copy old).base = range.base := by
  rw [copy]
  split_ifs <;> rfl

@[simp] theorem copy_stop (range old : Range) : (range.copy old).stop = range.stop := by
  rw [stop, copy_base, stop, copy]
  split_ifs with inside
  · obtain ⟨low, top⟩ := inside
    rw [stop] at top
    rw [length_splice (by omega) (by omega) (by omega)]
  · rfl

/-- A range that is copied gives its bytes. -/
theorem entry_copy (contains : range.Contains old.base old.data.length) (addr : Nat) :
    (range.copy old).entry addr = (old.entry addr).or (range.entry addr) := by
  have low := contains.1
  by_cases inside : old.base ≤ addr ∧ addr < old.stop
  · obtain ⟨held, found⟩ := Option.isSome_iff_exists.mp ((entry_isSome old addr).mpr inside)
    rw [found, Option.some_or]
    rw [entry_eq_some] at found ⊢
    have index_eq : addr - range.base - (old.base - range.base) = addr - old.base := by omega
    have there : old.base - range.base ≤ addr - range.base ∧
        addr - range.base < old.base - range.base + old.data.length := by
      rw [stop] at inside
      omega
    rw [copy_base, getElem?_copy_data contains, getElem?_copy_known contains, if_pos there,
      if_pos there, index_eq]
    exact ⟨low.trans inside.1, found.2⟩
  · have none : old.entry addr = none := by
      rw [← Option.not_isSome_iff_eq_none, entry_isSome]
      exact inside
    rw [none, Option.none_or]
    ext held
    rw [entry_eq_some, entry_eq_some, copy_base, getElem?_copy_data contains,
      getElem?_copy_known contains]
    apply and_congr_right
    intro above
    rw [stop] at inside
    rw [if_neg (by omega), if_neg (by omega)]

/-- Copying keeps what a range covers. -/
theorem entry_copy_of_not (apart : ¬range.Contains old.base old.data.length) (addr : Nat) :
    (range.copy old).entry addr = range.entry addr := by
  rw [copy, dif_neg apart]

theorem copy_contains (range old : Range) :
    (range.copy old).Contains addr size ↔ range.Contains addr size :=
  Shadow.foldl_copy_contains range [old]

/-- A byte stays when ranges are copied that agree on it. -/
theorem entry_foldl_copy_kept
    {olds : List Range}
    (agree : ∀ old ∈ olds, old.entry addr = none ∨ old.entry addr = some held)
    (kept : range.entry addr = some held) :
    (olds.foldl Range.copy range).entry addr = some held := by
  induction olds generalizing range with
  | nil => exact kept
  | cons old rest inductionHypothesis =>
      rw [List.forall_mem_cons] at agree
      refine inductionHypothesis agree.2 ?_
      by_cases contains : range.Contains old.base old.data.length
      · rw [entry_copy contains, kept]
        rcases agree.1 with none | same
        · rw [none, Option.none_or]
        · rw [same, Option.some_or]
      · rw [entry_copy_of_not contains, kept]

/-- After ranges were copied that agree on a byte, that byte is theirs. -/
theorem entry_foldl_copy
    {olds : List Range}
    (agree : ∀ old ∈ olds, old.entry addr = none ∨ old.entry addr = some held)
    (member : old ∈ olds)
    (contains : range.Contains old.base old.data.length)
    (found : old.entry addr = some held) :
    (olds.foldl Range.copy range).entry addr = some held := by
  induction olds generalizing range with
  | nil => exact absurd member List.not_mem_nil
  | cons first rest inductionHypothesis =>
      rw [List.forall_mem_cons] at agree
      rcases List.mem_cons.mp member with rfl | member
      · rw [List.foldl_cons]
        refine entry_foldl_copy_kept agree.2 ?_
        rw [entry_copy contains, found, Option.some_or]
      · exact inductionHypothesis agree.2 member ((copy_contains range first).mpr contains)

/-- After ranges were copied that do not hold a byte, it is as before. -/
theorem entry_foldl_copy_none
    {olds : List Range}
    (range : Range)
    (none : ∀ old ∈ olds, old.entry addr = none) :
    (olds.foldl Range.copy range).entry addr = range.entry addr := by
  induction olds generalizing range with
  | nil => rfl
  | cons old rest inductionHypothesis =>
      rw [List.forall_mem_cons] at none
      rw [List.foldl_cons, inductionHypothesis (range.copy old) none.2]
      by_cases contains : range.Contains old.base old.data.length
      · rw [entry_copy contains, none.1, Option.none_or]
      · rw [entry_copy_of_not contains]

theorem entry_blank (lo hi addr : Nat) :
    (blank lo hi).entry addr = if lo ≤ addr ∧ addr < hi then some (0, false) else none := by
  by_cases inside : lo ≤ addr ∧ addr < hi
  · have index : addr - lo < hi - lo := by omega
    rw [if_pos inside, entry_eq_some]
    simp [blank, index, inside.1]
  · rw [if_neg inside, ← Option.not_isSome_iff_eq_none, entry_isSome, stop, blank]
    dsimp only
    rw [List.length_replicate]
    omega

theorem blank_stop (ordered : lo ≤ hi) : (blank lo hi).stop = hi := by
  rw [stop, blank, List.length_replicate]
  exact Nat.add_sub_cancel' ordered

end Range

/-! ## Ranges that are apart -/

namespace Shadow

variable {shadow : Shadow} {range : Range} {held : Byte × Bool}

/-- The ranges are sorted and neither overlap nor touch. -/
def Separate (shadow : Shadow) : Prop :=
  shadow.Pairwise fun range later => range.stop < later.base

/-- At most one of them holds an address. -/
theorem Separate.unique
    {other : Range}
    (separate : shadow.Separate)
    (member : range ∈ shadow)
    (member' : other ∈ shadow)
    (here : (range.entry addr).isSome)
    (here' : (other.entry addr).isSome) : range = other := by
  rw [Range.entry_isSome] at here here'
  rcases same_or_of_pairwise separate member member' with same | before | after
  · exact same
  · omega
  · omega

theorem Separate.entry_eq_some (separate : shadow.Separate) :
    shadow.entry addr = some held ↔ ∃ range ∈ shadow, range.entry addr = some held := by
  constructor
  · intro found
    exact List.exists_of_findSome?_eq_some found
  · rintro ⟨range, member, found⟩
    cases first : shadow.entry addr with
    | none => 
        have none := List.findSome?_eq_none_iff.mp first range member
        rw [found] at none
        cases none
    | some other =>
        obtain ⟨range', member', found'⟩ := List.exists_of_findSome?_eq_some first
        have same := separate.unique member member' (by rw [found]; rfl) (by rw [found']; rfl)
        rw [same, found'] at found
        exact found

theorem entry_eq_none : shadow.entry addr = none ↔ ∀ range ∈ shadow, range.entry addr = none :=
  List.findSome?_eq_none_iff

/-! ## Covering more -/

/-- What `Shadow.cover` is to represent. -/
def spans (shadow : Shadow) (lo hi : Nat) : List (Nat × Nat) :=
  shadow.map (fun range => (range.base, range.stop)) ++ [(lo, hi)]

theorem cover_eq (shadow : Shadow) (lo hi : Nat) :
    shadow.cover lo hi = (mergedSpans (shadow.spans lo hi)).map fun span =>
      shadow.foldl Range.copy (.blank span.1 span.2) := rfl

theorem mem_spans {span : Nat × Nat} :
    span ∈ shadow.spans lo hi ↔
      (∃ range ∈ shadow, span = (range.base, range.stop)) ∨ span = (lo, hi) := by
  simp only [spans, List.mem_append, List.mem_map, List.mem_singleton, eq_comm]

/-- `bytearray` is asked for a negative length. -/
def Raises (shadow : Shadow) (lo hi : Nat) : Prop :=
  ∃ span ∈ mergedSpans (shadow.spans lo hi), span.2 < span.1

instance (shadow : Shadow) (lo hi : Nat) : Decidable (shadow.Raises lo hi) :=
  inferInstanceAs (Decidable (∃ span ∈ mergedSpans (shadow.spans lo hi), span.2 < span.1))

theorem not_raises (shadow : Shadow) (ordered : lo ≤ hi) : ¬shadow.Raises lo hi := by
  rintro ⟨span, member, backwards⟩
  refine absurd (ordered_mergedSpans (fun other inside => ?_) member) (not_le.mpr backwards)
  rcases mem_spans.mp inside with ⟨range, -, rfl⟩ | rfl
  · exact Nat.le_add_right _ _
  · exact ordered

@[simp] theorem foldl_copy_base (range : Range) (olds : List Range) :
    (olds.foldl Range.copy range).base = range.base := by
  induction olds generalizing range with
  | nil => rfl
  | cons old rest inductionHypothesis => rw [List.foldl_cons, inductionHypothesis, Range.copy_base]

@[simp] theorem foldl_copy_stop (range : Range) (olds : List Range) :
    (olds.foldl Range.copy range).stop = range.stop := by
  induction olds generalizing range with
  | nil => rfl
  | cons old rest inductionHypothesis => rw [List.foldl_cons, inductionHypothesis, Range.copy_stop]

/-- The ranges stay sorted and apart. -/
theorem separate_cover (shadow : Shadow) (orderly : ¬shadow.Raises lo hi) :
    (shadow.cover lo hi).Separate := by
  rw [cover_eq, Separate, List.pairwise_map]
  refine (apart_mergedSpans _).imp_of_mem fun {first second} member _ before => ?_
  have ordered : first.1 ≤ first.2 := not_lt.mp fun backwards => orderly ⟨first, member, backwards⟩
  rw [foldl_copy_stop, foldl_copy_base, Range.blank_stop ordered]
  exact before

/-- What is covered in one of the ranges lies in one span. -/
theorem exists_span
    (member : range ∈ shadow)
    (lo hi : Nat) :
    ∃ span ∈ mergedSpans (shadow.spans lo hi), span.1 ≤ range.base ∧ range.stop ≤ span.2 :=
  mergedSpans_covers _ (range.base, range.stop) (mem_spans.mpr (Or.inl ⟨range, member, rfl⟩))

/-- Every byte keeps its value and whether it is known. -/
theorem entry_cover_of_some
    (separate : shadow.Separate)
    (orderly : ¬shadow.Raises lo hi)
    (found : shadow.entry addr = some held) : (shadow.cover lo hi).entry addr = some held := by
  obtain ⟨range, member, here⟩ := separate.entry_eq_some.mp found
  obtain ⟨span, inside, low, high⟩ := exists_span member lo hi
  have ordered : span.1 ≤ span.2 := not_lt.mp fun backwards => orderly ⟨span, inside, backwards⟩
  refine (separate_cover shadow orderly).entry_eq_some.mpr
    ⟨_, cover_eq shadow lo hi ▸ List.mem_map.mpr ⟨span, inside, rfl⟩, ?_⟩
  refine Range.entry_foldl_copy (fun old member' => ?_) member ⟨low, ?_⟩ here
  · cases there : old.entry addr with
    | none => exact Or.inl rfl
    | some other =>
        have same := separate.unique member member' (by rw [here]; rfl) (by rw [there]; rfl)
        rw [← there, ← same, here]
        exact Or.inr rfl
  · rw [Range.blank_stop ordered]
    exact high

/-- A byte that was not covered is unknown. -/
theorem entry_cover_of_none
    (orderly : ¬shadow.Raises lo hi)
    (fresh : shadow.entry addr = none) :
    (shadow.cover lo hi).entry addr =
      if lo ≤ addr ∧ addr < hi then some (0, false) else none := by
  have none : ∀ old ∈ shadow, old.entry addr = none := entry_eq_none.mp fresh
  have each (span : Nat × Nat) : (shadow.foldl Range.copy (.blank span.1 span.2)).entry addr =
      if span.1 ≤ addr ∧ addr < span.2 then some (0, false) else Option.none := by
    rw [Range.entry_foldl_copy_none _ none, Range.entry_blank]
  by_cases asked : lo ≤ addr ∧ addr < hi
  · rw [if_pos asked]
    obtain ⟨span, inside, low, high⟩ := mergedSpans_covers (shadow.spans lo hi) (lo, hi)
      (mem_spans.mpr (Or.inr rfl))
    refine (separate_cover shadow orderly).entry_eq_some.mpr
      ⟨_, cover_eq shadow lo hi ▸ List.mem_map.mpr ⟨span, inside, rfl⟩, ?_⟩
    rw [each, if_pos ⟨low.trans asked.1, asked.2.trans_le high⟩]
  · rw [if_neg asked, entry_eq_none, cover_eq, List.forall_mem_map]
    intro span inside
    rw [each, if_neg]
    rintro ⟨low, high⟩
    obtain ⟨other, member, bounds⟩ := within_mergedSpans inside low high
    rcases mem_spans.mp member with ⟨range, present, rfl⟩ | rfl
    · have some := (Range.entry_isSome range addr).mpr bounds
      rw [none range present] at some
      cases some
    · exact asked bounds

/-! ## Writing -/

theorem Separate.write (separate : shadow.Separate) (start : Nat) (raw : List Byte) :
    (shadow.write start raw).Separate := by
  rw [Separate, Shadow.write, List.pairwise_map]
  refine separate.imp fun {first second} before => ?_
  rw [Range.stop, Range.write_base, Range.write_length, Range.write_base]
  exact before

theorem entry_write_isSome (start : Nat) (raw : List Byte) :
    ((shadow.write start raw).entry addr).isSome = (shadow.entry addr).isSome := by
  rw [Bool.eq_iff_iff, entry, entry, List.findSome?_isSome_iff, List.findSome?_isSome_iff]
  simp [Shadow.write]

theorem Separate.entry_write_hit
    (separate : shadow.Separate)
    (covered : (shadow.entry addr).isSome)
    (start : Nat)
    (low : start ≤ addr)
    (written : raw[addr - start]? = some byte) :
    (shadow.write start raw).entry addr = some (byte, true) := by
  obtain ⟨held, found⟩ := Option.isSome_iff_exists.mp covered
  obtain ⟨range, member, here⟩ := separate.entry_eq_some.mp found
  refine (separate.write start raw).entry_eq_some.mpr
    ⟨range.write start raw, List.mem_map.mpr ⟨range, member, rfl⟩, ?_⟩
  exact Range.entry_write_hit (by rw [here]; rfl) start low written

theorem entry_write_miss
    (shadow : Shadow)
    (apart : addr < start ∨ start + raw.length ≤ addr) :
    (shadow.write start raw).entry addr = shadow.entry addr := by
  rw [entry, Shadow.write, List.findSome?_map, entry]
  congr 1
  funext range
  exact Range.entry_write_miss range apart

/-! ## Calls -/

/-- A call of the shadow. -/
inductive Call
  | cover (lo hi : Nat)
  | write (addr : Nat) (raw : List Byte)
  deriving DecidableEq

/-- One call; one that raises leaves the ranges as they are. -/
def perform (shadow : Shadow) : Call → Shadow
  | .cover lo hi => if shadow.Raises lo hi then shadow else shadow.cover lo hi
  | .write addr raw => shadow.write addr raw

/-- The shadow after calls. -/
def after (calls : List Call) : Shadow := calls.foldl perform []

/-- An address was covered by one of the calls. -/
def Covered (calls : List Call) (addr : Nat) : Prop :=
  ∃ lo hi, Call.cover lo hi ∈ calls ∧ lo ≤ addr ∧ addr < hi

/-- A call writes to an address. -/
def Call.Writes (addr : Nat) : Call → Prop
  | .cover _ _ => False
  | .write start raw => start ≤ addr ∧ addr < start + raw.length

/-- The byte was the last to be written to an address since it was covered. -/
def LastWritten (calls : List Call) (addr : Nat) (byte : Byte) : Prop :=
  ∃ before start raw later, calls = before ++ Call.write start raw :: later ∧
    Covered before addr ∧ start ≤ addr ∧ raw[addr - start]? = some byte ∧
      ∀ call ∈ later, ¬call.Writes addr

/-- What the shadow knows after calls. -/
structure Remembers (calls : List Call) (shadow : Shadow) : Prop where
  separate : shadow.Separate
  covered : ∀ addr, (shadow.entry addr).isSome ↔ Covered calls addr
  known : ∀ addr byte, shadow.entry addr = some (byte, true) ↔ LastWritten calls addr byte

variable {calls : List Call}

theorem covered_append_cover :
    Covered (calls ++ [.cover lo hi]) addr ↔ Covered calls addr ∨ lo ≤ addr ∧ addr < hi := by
  simp only [Covered, List.mem_append, List.mem_singleton, Call.cover.injEq]
  constructor
  · rintro ⟨low, high, earlier | ⟨rfl, rfl⟩, bounds⟩
    · exact Or.inl ⟨low, high, earlier, bounds⟩
    · exact Or.inr bounds
  · rintro (⟨low, high, earlier, bounds⟩ | bounds)
    · exact ⟨low, high, Or.inl earlier, bounds⟩
    · exact ⟨lo, hi, Or.inr ⟨rfl, rfl⟩, bounds⟩

theorem covered_append_write :
    Covered (calls ++ [.write start raw]) addr ↔ Covered calls addr := by
  simp [Covered]

theorem LastWritten.covered (last : LastWritten calls addr byte) : Covered calls addr := by
  obtain ⟨before, start, raw, later, rfl, ⟨lo, hi, member, bounds⟩, -⟩ := last
  exact ⟨lo, hi, List.mem_append_left _ member, bounds⟩

/-- A call that does not write to the address. -/
theorem lastWritten_append_of_not
    {call : Call}
    (elsewhere : ¬call.Writes addr) :
    LastWritten (calls ++ [call]) addr byte ↔ LastWritten calls addr byte := by
  constructor
  · rintro ⟨before, start, raw, later, split, covered, low, written, others⟩
    rcases List.eq_nil_or_concat later with rfl | ⟨later, last, rfl⟩
    · obtain ⟨-, same⟩ := List.append_inj' split rfl
      have short := (List.getElem?_eq_some_iff.mp written).1
      rw [(List.cons.inj same).1] at elsewhere
      exact absurd ⟨low, by omega⟩ elsewhere
    · rw [List.concat_eq_append, ← List.cons_append, ← List.append_assoc] at split
      obtain ⟨same, -⟩ := List.append_inj' split rfl
      exact ⟨before, start, raw, later, same, covered, low, written,
        fun call member => others call (by simp [member])⟩
  · rintro ⟨before, start, raw, later, rfl, covered, low, written, others⟩
    refine ⟨before, start, raw, later ++ [call], by simp, covered, low, written, ?_⟩
    intro other member
    rcases List.mem_append.mp member with member | member
    · exact others other member
    · rwa [List.mem_singleton.mp member]

/-- A call that writes to the address. -/
theorem lastWritten_append_write
    (low : start ≤ addr)
    (high : addr < start + raw.length) :
    LastWritten (calls ++ [.write start raw]) addr byte ↔
      Covered calls addr ∧ raw[addr - start]? = some byte := by
  constructor
  · rintro ⟨before, start', raw', later, split, covered, low', written, others⟩
    rcases List.eq_nil_or_concat later with rfl | ⟨later, last, rfl⟩
    · obtain ⟨rfl, same⟩ := List.append_inj' split rfl
      obtain ⟨rfl, rfl⟩ := Call.write.inj (List.cons.inj same).1
      exact ⟨covered, written⟩
    · rw [List.concat_eq_append, ← List.cons_append, ← List.append_assoc] at split
      obtain ⟨-, same⟩ := List.append_inj' split rfl
      refine absurd ?_ (others last (by simp))
      rw [← (List.cons.inj same).1]
      exact ⟨low, high⟩
  · rintro ⟨covered, written⟩
    exact ⟨calls, start, raw, [], rfl, covered, low, written, fun _ member => absurd member List.not_mem_nil⟩

theorem remembers_nil : Remembers [] [] where
  separate := List.Pairwise.nil
  covered addr := by simp [entry, Covered]
  known addr byte := by simp [entry, LastWritten]

/-- What one call changes. -/
theorem Remembers.perform (remembers : Remembers calls shadow) (call : Call) :
    Remembers (calls ++ [call]) (shadow.perform call) := by
  cases call with
  | cover lo hi =>
      rw [Shadow.perform]
      split_ifs with raises
      · have empty : ¬lo < hi := fun ordered => not_raises shadow ordered.le raises
        refine ⟨remembers.separate, fun addr => ?_, fun addr byte => ?_⟩
        · rw [remembers.covered, covered_append_cover, or_iff_left (by omega)]
        · rw [remembers.known, lastWritten_append_of_not (by exact id)]
      · refine ⟨separate_cover shadow raises, fun addr => ?_, fun addr byte => ?_⟩
        · rw [covered_append_cover, ← remembers.covered]
          cases held : shadow.entry addr with
          | none =>
              rw [entry_cover_of_none raises held]
              split_ifs with asked <;> simp [asked]
          | some held' =>
              rw [entry_cover_of_some remembers.separate raises held]
              simp
        · rw [lastWritten_append_of_not (by exact id), ← remembers.known]
          cases held : shadow.entry addr with
          | none =>
              rw [entry_cover_of_none raises held]
              split_ifs <;> simp
          | some held' => rw [entry_cover_of_some remembers.separate raises held]
  | write start raw =>
      refine ⟨remembers.separate.write start raw, fun addr => ?_, fun addr byte => ?_⟩
      · rw [Shadow.perform, entry_write_isSome, remembers.covered, covered_append_write]
      · rw [Shadow.perform]
        by_cases hit : start ≤ addr ∧ addr < start + raw.length
        · rw [lastWritten_append_write hit.1 hit.2, ← remembers.covered]
          obtain ⟨written, same⟩ : ∃ written, raw[addr - start]? = some written :=
            ⟨_, List.getElem?_eq_getElem (by omega)⟩
          rw [same, ← entry_write_isSome start raw]
          constructor
          · intro found
            have covered : (shadow.entry addr).isSome := by
              rw [← entry_write_isSome start raw, found]
              rfl
            rw [remembers.separate.entry_write_hit covered start hit.1 same] at found
            simpa [entry_write_isSome, covered] using found
          · rintro ⟨covered, equal⟩
            rw [entry_write_isSome] at covered
            rw [← Option.some.inj equal]
            exact remembers.separate.entry_write_hit covered start hit.1 same
        · have miss : ¬Call.Writes addr (.write start raw) := hit
          rw [lastWritten_append_of_not miss, ← remembers.known,
            entry_write_miss shadow (by omega)]

theorem remembers_after (calls : List Call) : Remembers calls (after calls) := by
  induction calls using List.reverseRecOn with
  | nil => exact remembers_nil
  | append_singleton calls call inductionHypothesis =>
      rw [after, List.foldl_append]
      exact inductionHypothesis.perform call

end Shadow

/-! ## Reading -/

theorem Range.read_eq_some {range : Range} (contains : range.Contains addr size) :
    range.read addr size = some raw ↔ raw.length = size ∧
      ∀ index byte, raw[index]? = some byte → range.entry (addr + index) = some (byte, true) := by
  obtain ⟨low, top⟩ := contains
  rw [stop] at top
  have lengths := range.length_known
  have count : addr - range.base + size - (addr - range.base) = size := by omega
  have index_eq (index : Nat) : addr + index - range.base = addr - range.base + index := by omega
  have length : (slice range.data (addr - range.base) (addr - range.base + size)).length = size := by
    rw [length_slice (by omega), count]
  rw [read]
  split_ifs with unknown
  · refine ⟨fun none_eq => (by cases none_eq), fun ranged => ?_⟩
    obtain ⟨length_eq, each⟩ := ranged
    obtain ⟨index, found⟩ := List.mem_iff_getElem?.mp unknown
    rw [getElem?_slice, count] at found
    split_ifs at found with inside
    have known := each index _ (List.getElem?_eq_getElem (length_eq ▸ inside))
    rw [entry_eq_some, index_eq, found] at known
    cases known.2.2
  · rw [Option.some_inj]
    constructor
    · rintro rfl
      refine ⟨length, fun index byte found => ?_⟩
      rw [getElem?_slice, count] at found
      split_ifs at found with inside
      rw [entry_eq_some, index_eq]
      refine ⟨by omega, found, ?_⟩
      obtain ⟨known, known_eq⟩ : ∃ known, range.known[addr - range.base + index]? = some known :=
        ⟨_, List.getElem?_eq_getElem (by omega)⟩
      cases known with
      | true => exact known_eq
      | false =>
          refine absurd (List.mem_iff_getElem?.mpr ⟨index, ?_⟩) unknown
          rw [getElem?_slice, count, if_pos inside, known_eq]
    · rintro ⟨length_eq, each⟩
      apply List.ext_getElem? fun index => ?_
      rw [getElem?_slice, count]
      split_ifs with inside
      · have known := each index _ (List.getElem?_eq_getElem (length_eq ▸ inside))
        rw [entry_eq_some, index_eq] at known
        rw [known.2.1, List.getElem?_eq_getElem (length_eq ▸ inside)]
      · rw [List.getElem?_eq_none (by omega)]

namespace Shadow

variable {shadow : Shadow}

/-- Bytes that are covered one by one are covered by one range. -/
theorem Separate.exists_contains
    (separate : shadow.Separate)
    (more : Nat)
    (covered : ∀ index, index ≤ more → (shadow.entry (addr + index)).isSome) :
    ∃ range ∈ shadow, range.Contains addr (more + 1) := by
  induction more with
  | zero =>
      obtain ⟨held, found⟩ := Option.isSome_iff_exists.mp (covered 0 le_rfl)
      obtain ⟨range, member, here⟩ := separate.entry_eq_some.mp found
      have bounds := (Range.entry_isSome range (addr + 0)).mp (by rw [here]; rfl)
      exact ⟨range, member, bounds.1, bounds.2⟩
  | succ more inductionHypothesis =>
      obtain ⟨range, member, low, top⟩ :=
        inductionHypothesis fun index inside => covered index (Nat.le_succ_of_le inside)
      obtain ⟨held, found⟩ := Option.isSome_iff_exists.mp (covered (more + 1) le_rfl)
      obtain ⟨other, member', here⟩ := separate.entry_eq_some.mp found
      have bounds := (Range.entry_isSome other _).mp (by rw [here]; rfl)
      rcases same_or_of_pairwise separate member member' with rfl | before | after
      · exact ⟨range, member, low, bounds.2⟩
      · omega
      · omega

theorem Separate.read_eq_some (separate : shadow.Separate) (positive : 0 < size) :
    shadow.read addr size = some raw ↔ raw.length = size ∧
      ∀ index byte, raw[index]? = some byte →
        shadow.entry (addr + index) = some (byte, true) := by
  rw [read]
  cases first : shadow.find? fun range => decide (range.Contains addr size) with
  | none =>
      rw [Option.bind_none]
      refine ⟨fun none_eq => (by cases none_eq), fun ranged => ?_⟩
      obtain ⟨length_eq, each⟩ := ranged
      obtain ⟨more, rfl⟩ : ∃ more, size = more + 1 := ⟨size - 1, by omega⟩
      obtain ⟨range, member, contains⟩ := separate.exists_contains more fun index inside => by
        rw [each index _ (List.getElem?_eq_getElem (by omega))]
        rfl
      exact absurd contains (by simpa using List.find?_eq_none.mp first range member)
  | some range =>
      have member := List.mem_of_find?_eq_some first
      have contains : range.Contains addr size := by simpa using List.find?_some first
      rw [Option.bind_some, Range.read_eq_some contains]
      apply and_congr_right
      intro length_eq
      refine forall₃_congr fun index byte found => ⟨fun here => ?_, fun here => ?_⟩
      · exact separate.entry_eq_some.mpr ⟨range, member, here⟩
      · obtain ⟨other, member', there⟩ := separate.entry_eq_some.mp here
        have short := (List.getElem?_eq_some_iff.mp found).1
        obtain ⟨low, top⟩ := contains
        have holds := (Range.entry_isSome range (addr + index)).mpr ⟨by omega, by omega⟩
        rwa [separate.unique member member' holds (by rw [there]; rfl)]

/-- After any calls the ranges are sorted and apart, covering more keeps every
byte and whether it is known, and a read gives the bytes that were written last
since they were covered, if there are such bytes for all addresses. -/
theorem remembers (calls : List Call) :
    (after calls).Separate ∧
    (∀ lo hi addr held, (after calls).entry addr = some held →
      ((after calls).perform (.cover lo hi)).entry addr = some held) ∧
    (∀ addr size raw, 0 < size → ((after calls).read addr size = some raw ↔
      raw.length = size ∧
        ∀ index byte, raw[index]? = some byte → LastWritten calls (addr + index) byte)) ∧
    (∀ addr size, 0 < size → ((after calls).read addr size = none ↔
      ∃ index, index < size ∧ ∀ byte, ¬LastWritten calls (addr + index) byte)) := by
  have kept := remembers_after calls
  have reads (addr size : Nat) (raw : List Byte) (positive : 0 < size) :
      (after calls).read addr size = some raw ↔ raw.length = size ∧
        ∀ index byte, raw[index]? = some byte → LastWritten calls (addr + index) byte := by
    simp only [kept.separate.read_eq_some positive, kept.known]
  refine ⟨kept.separate, fun lo hi addr held found => ?_, reads, fun addr size positive => ?_⟩
  · rw [perform]
    split_ifs with raises
    · exact found
    · exact entry_cover_of_some kept.separate raises found
  · rw [← Option.not_isSome_iff_eq_none, ← not_iff_not, not_not, Option.isSome_iff_exists]
    push Not
    constructor
    · rintro ⟨raw, found⟩ index inside
      obtain ⟨length_eq, each⟩ := (reads addr size raw positive).mp found
      exact ⟨_, each index _ (List.getElem?_eq_getElem (length_eq ▸ inside))⟩
    · intro each
      choose byte last using each
      refine ⟨List.ofFn fun index : Fin size => byte index index.isLt, ?_⟩
      refine (reads addr size _ positive).mpr ⟨List.length_ofFn, fun index value found => ?_⟩
      rw [List.getElem?_ofFn] at found
      split_ifs at found with inside
      rw [← Option.some.inj found]
      exact last index inside

end Shadow
end Signals
end TriCoreDap
