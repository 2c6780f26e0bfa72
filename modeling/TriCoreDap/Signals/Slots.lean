import TriCoreDap.Library.Intervals
import TriCoreDap.Signals.Leaves
import TriCoreDap.Signals.Remembered
import Mathlib.Data.String.Basic

/-!
# Watch slots

`signals.py`: `plan_slots`, the address ranges that a selection of signals is
watched with.
-/

namespace TriCoreDap
namespace Signals

/-- What `plan_slots` sorts of a signal. -/
structure Span where
  lo : Nat
  hi : Nat
  id : String
  deriving DecidableEq, Repr

/-- Python's order of triples. -/
def Span.le (first second : Span) : Prop :=
  first.lo < second.lo ∨ first.lo = second.lo ∧
    (first.hi < second.hi ∨ first.hi = second.hi ∧ first.id ≤ second.id)

instance : DecidableRel Span.le := fun _ _ => inferInstanceAs (Decidable (_ ∨ _))

def Signal.span (s : Signal) : Span := ⟨s.addr, s.stop, s.id⟩

/-- Whether `plan_slots` takes a signal. -/
def Signal.Watched (s : Signal) : Prop := s.kind = .value ∧ 0 < s.size

instance (s : Signal) : Decidable s.Watched := inferInstanceAs (Decidable (_ ∧ _))

/-- The sorted spans of the signals. -/
def spansOf (signals : List Signal) : List Span :=
  ((signals.filter fun s => s.Watched).map Signal.span).insertionSort Span.le

/-- Touching and overlapping spans, and the ids of their signals. -/
structure Group where
  lo : Nat
  hi : Nat
  ids : List String
  deriving DecidableEq, Repr, Inhabited

/-- The groups of spans behind the current group. -/
def joinSpans : (current : Group) → List Span → List Group
  | current, [] => [current]
  | current, span :: rest =>
      if span.lo ≤ current.hi then
        joinSpans ⟨current.lo, max current.hi span.hi, current.ids ++ [span.id]⟩ rest
      else current :: joinSpans ⟨span.lo, span.hi, [span.id]⟩ rest

/-- `groups` of `plan_slots`. -/
def groupsOf : List Span → List Group
  | [] => []
  | span :: rest => joinSpans ⟨span.lo, span.hi, [span.id]⟩ rest

/-- The hole behind a group. -/
def hole (groups : List Group) (i : Nat) : Nat :=
  (groups.getD (i + 1) default).lo - (groups.getD i default).hi

/-- The holes, the largest first. -/
def holesOf (groups : List Group) : List Nat :=
  (List.range (groups.length - 1)).insertionSort fun i j => hole groups j ≤ hole groups i

/-- `cuts` of `plan_slots`. -/
def cutsOf (groups : List Group) (maxSlots : Nat) : List Nat :=
  let holes := holesOf groups
  (if maxSlots = 0 then holes.dropLast else holes.take (maxSlots - 1)).insertionSort (· ≤ ·)

/-- Groups as one. -/
def joinRun (run : List Group) : Group :=
  ⟨(run.headD default).lo, (run.getLastD default).hi, run.flatMap Group.ids⟩

/-- The runs of groups that end at the given ones. -/
def runsOf (groups : List Group) : (start : Nat) → List Nat → List Group
  | _, [] => []
  | start, last :: rest =>
      joinRun (slice groups start (last + 1)) :: runsOf groups (last + 1) rest

/-- `chosen` of `plan_slots`. -/
def chosenOf (groups : List Group) (maxSlots : Nat) : List Group :=
  if groups.length ≤ maxSlots then groups
  else runsOf groups 0 (cutsOf groups maxSlots ++ [groups.length - 1])

/-- `SlotPlan`: ranges of an address and a size. -/
structure SlotPlan where
  ranges : List (Nat × Nat)
  signals : List (List String)
  extraBytes : Nat
  deriving DecidableEq, Repr

/-- `plan_slots`. -/
def planSlots (signals : List Signal) (maxSlots : Nat) : SlotPlan :=
  let spans := spansOf signals
  if spans = [] then ⟨[], [], 0⟩
  else
    let chosen := chosenOf (groupsOf spans) maxSlots
    let used := (spans.map fun span => span.hi - span.lo).sum
    let ranges := chosen.map fun group => (group.lo, group.hi - group.lo)
    ⟨ranges, chosen.map Group.ids, totalSize ranges - used⟩

/-! ## The groups -/

def Span.ends (span : Span) : Nat × Nat := (span.lo, span.hi)

def Group.ends (group : Group) : Nat × Nat := (group.lo, group.hi)

/-- A span lies in a group. -/
def Span.Within (span : Span) (lo hi : Nat) : Prop := lo ≤ span.lo ∧ span.hi ≤ hi

instance (span : Span) (lo hi : Nat) : Decidable (span.Within lo hi) :=
  inferInstanceAs (Decidable (_ ∧ _))

variable {current group : Group} {spans : List Span} {span : Span} {addr : Nat}

/-- The groups are the joined spans. -/
theorem ends_joinSpans (current : Group) (spans : List Span) :
    (joinSpans current spans).map Group.ends =
      Shadow.mergeSpans current.ends (spans.map Span.ends) := by
  induction spans generalizing current with
  | nil => rfl
  | cons span rest inductionHypothesis =>
      rw [joinSpans, List.map_cons, Shadow.mergeSpans]
      split_ifs with joined joined' joined'
      · exact inductionHypothesis _
      · exact absurd joined joined'
      · exact absurd joined' joined
      · rw [List.map_cons, inductionHypothesis]
        rfl

/-- The spans by their starts, none of them empty. -/
structure Ordered (spans : List Span) : Prop where
  sorted : spans.Pairwise fun first second => first.lo ≤ second.lo
  positive : ∀ span ∈ spans, span.lo < span.hi

theorem Ordered.of_cons (ordered : Ordered (span :: spans)) : Ordered spans where
  sorted := ordered.sorted.of_cons
  positive other member := ordered.positive other (List.mem_cons_of_mem _ member)

/-- The groups as joined spans. -/
theorem groupsOf_cases (ordered : Ordered spans) :
    (spans = [] ∧ groupsOf spans = []) ∨ ∃ first rest,
      spans.map Span.ends = first :: rest ∧ Shadow.Ascending (first :: rest) ∧
        (groupsOf spans).map Group.ends = Shadow.mergeSpans first rest := by
  cases spans with
  | nil => exact Or.inl ⟨rfl, rfl⟩
  | cons span rest =>
      refine Or.inr ⟨span.ends, rest.map Span.ends, rfl, ?_, ends_joinSpans _ rest⟩
      rw [← List.map_cons, Shadow.Ascending, List.pairwise_map]
      exact ordered.sorted

theorem apart_groupsOf (ordered : Ordered spans) :
    (groupsOf spans).Pairwise fun first second => first.hi < second.lo := by
  rcases groupsOf_cases ordered with ⟨-, none⟩ | ⟨first, rest, -, ascending, ends⟩
  · rw [none]
    exact List.Pairwise.nil
  · have apart := Shadow.apart_mergeSpans ascending
    rw [← ends, List.pairwise_map] at apart
    exact apart

theorem positive_groupsOf (ordered : Ordered spans) (member : group ∈ groupsOf spans) :
    group.lo < group.hi := by
  rcases groupsOf_cases ordered with ⟨-, none⟩ | ⟨first, rest, all, -, ends⟩
  · rw [none] at member
    exact absurd member List.not_mem_nil
  · have joined : group.ends ∈ Shadow.mergeSpans first rest :=
      ends ▸ List.mem_map.mpr ⟨group, member, rfl⟩
    obtain ⟨begins, inside, low, high⟩ := Shadow.begins_mergeSpans joined
    rw [← all] at inside
    obtain ⟨span, present, rfl⟩ := List.mem_map.mp inside
    have positive := ordered.positive span present
    simp only [Span.ends, Group.ends] at low high
    omega

theorem exists_group (ordered : Ordered spans) (member : span ∈ spans) :
    ∃ group ∈ groupsOf spans, span.Within group.lo group.hi := by
  rcases groupsOf_cases ordered with ⟨none, -⟩ | ⟨first, rest, all, ascending, ends⟩
  · rw [none] at member
    exact absurd member List.not_mem_nil
  · have inside : span.ends ∈ first :: rest := all ▸ List.mem_map.mpr ⟨span, member, rfl⟩
    obtain ⟨merged, joined, bounds⟩ :=
      Shadow.mergeSpans_covers first rest ascending span.ends inside
    rw [← ends] at joined
    obtain ⟨group, present, rfl⟩ := List.mem_map.mp joined
    exact ⟨group, present, bounds⟩

theorem exists_span_of_group
    (ordered : Ordered spans)
    (member : group ∈ groupsOf spans)
    (low : group.lo ≤ addr)
    (high : addr < group.hi) : ∃ span ∈ spans, span.lo ≤ addr ∧ addr < span.hi := by
  rcases groupsOf_cases ordered with ⟨-, none⟩ | ⟨first, rest, all, -, ends⟩
  · rw [none] at member
    exact absurd member List.not_mem_nil
  · have joined : group.ends ∈ Shadow.mergeSpans first rest :=
      ends ▸ List.mem_map.mpr ⟨group, member, rfl⟩
    obtain ⟨other, inside, bounds⟩ := Shadow.within_mergeSpans joined low high
    rw [← all] at inside
    obtain ⟨span, present, rfl⟩ := List.mem_map.mp inside
    exact ⟨span, present, bounds⟩

/-- Groups, each with its spans. -/
structure Blocks (groups : List Group) (spans : List Span) (blocks : List (Group × List Span)) :
    Prop where
  groups_eq : blocks.map Prod.fst = groups
  spans_eq : blocks.flatMap Prod.snd = spans
  ids : ∀ entry ∈ blocks, entry.1.ids = entry.2.map Span.id
  within : ∀ entry ∈ blocks, ∀ span ∈ entry.2, span.Within entry.1.lo entry.1.hi

/-- The spans of each group, one group after the other. -/
theorem blocks_joinSpans
    (current : Group)
    (block : List Span)
    (ids : current.ids = block.map Span.id)
    (within : ∀ span ∈ block, span.Within current.lo current.hi)
    (sorted : ∀ span ∈ spans, current.lo ≤ span.lo)
    (ordered : Ordered spans) :
    ∃ blocks, Blocks (joinSpans current spans) (block ++ spans) blocks := by
  induction spans generalizing current block with
  | nil => exact ⟨[(current, block)], ⟨rfl, by simp, by simpa using ids, by simpa using within⟩⟩
  | cons span rest inductionHypothesis =>
      rw [List.forall_mem_cons] at sorted
      rw [joinSpans]
      split_ifs with joined
      · have within' : ∀ other ∈ block ++ [span],
            other.Within current.lo (max current.hi span.hi) := by
          intro other member
          rcases List.mem_append.mp member with earlier | last
          · have bounds := within other earlier
            exact ⟨bounds.1, bounds.2.trans (le_max_left _ _)⟩
          · rw [List.mem_singleton.mp last]
            exact ⟨sorted.1, le_max_right _ _⟩
        obtain ⟨blocks, joins⟩ := inductionHypothesis
          ⟨current.lo, max current.hi span.hi, current.ids ++ [span.id]⟩ (block ++ [span])
          (by simp [ids]) within' sorted.2 ordered.of_cons
        rw [List.append_assoc, List.singleton_append] at joins
        exact ⟨blocks, joins⟩
      · obtain ⟨blocks, joins⟩ := inductionHypothesis ⟨span.lo, span.hi, [span.id]⟩ [span] rfl
          (by simp [Span.Within]) (List.pairwise_cons.mp ordered.sorted).1 ordered.of_cons
        refine ⟨(current, block) :: blocks, ?_, ?_, ?_, ?_⟩
        · rw [List.map_cons, joins.groups_eq]
        · rw [List.flatMap_cons, joins.spans_eq, List.singleton_append]
        · exact List.forall_mem_cons.mpr ⟨ids, joins.ids⟩
        · exact List.forall_mem_cons.mpr ⟨within, joins.within⟩

theorem exists_blocks (ordered : Ordered spans) : ∃ blocks, Blocks (groupsOf spans) spans blocks := by
  cases spans with
  | nil => exact ⟨[], rfl, rfl, by simp, by simp⟩
  | cons span rest =>
      exact blocks_joinSpans ⟨span.lo, span.hi, [span.id]⟩ [span] rfl (by simp [Span.Within])
        (List.pairwise_cons.mp ordered.sorted).1 ordered.of_cons

/-! ## Runs of groups -/

/-- The groups one behind the other, none of them empty. -/
structure Separated (groups : List Group) : Prop where
  apart : groups.Pairwise fun first second => first.hi < second.lo
  positive : ∀ group ∈ groups, group.lo < group.hi

theorem separated_groupsOf (ordered : Ordered spans) : Separated (groupsOf spans) :=
  ⟨apart_groupsOf ordered, fun _ member => positive_groupsOf ordered member⟩

variable {groups before run later : List Group}

theorem Separated.sublist (separated : Separated groups) (part : run.Sublist groups) :
    Separated run where
  apart := separated.apart.sublist part
  positive group member := separated.positive group (part.subset member)

/-- A run begins with its first group and ends with its last one. -/
theorem within_joinRun
    (separated : Separated run)
    (member : group ∈ run) : (joinRun run).lo ≤ group.lo ∧ group.hi ≤ (joinRun run).hi := by
  constructor
  · cases run with
    | nil => exact absurd member List.not_mem_nil
    | cons first rest =>
        have positive := separated.positive first List.mem_cons_self
        rcases List.mem_cons.mp member with rfl | behind
        · exact le_rfl
        · have apart := (List.pairwise_cons.mp separated.apart).1 group behind
          exact (positive.trans apart).le
  · rcases List.eq_nil_or_concat run with rfl | ⟨rest, last, rfl⟩
    · exact absurd member List.not_mem_nil
    · rw [List.concat_eq_append] at *
      have last_eq : (joinRun (rest ++ [last])).hi = last.hi := by simp [joinRun]
      rw [last_eq]
      rcases List.mem_append.mp member with earlier | here
      · have apart := (List.pairwise_append.mp separated.apart).2.2 group earlier last
          (List.mem_singleton.mpr rfl)
        have positive := separated.positive last (by simp)
        exact (apart.trans positive).le
      · rw [List.mem_singleton.mp here]

/-- Where a run begins and ends there are groups. -/
theorem exists_ends_joinRun (nonempty : run ≠ []) :
    (∃ first ∈ run, (joinRun run).lo = first.lo) ∧ ∃ last ∈ run, (joinRun run).hi = last.hi := by
  constructor
  · cases run with
    | nil => exact absurd rfl nonempty
    | cons first rest => exact ⟨first, List.mem_cons_self, rfl⟩
  · rcases List.eq_nil_or_concat run with rfl | ⟨rest, last, rfl⟩
    · exact absurd rfl nonempty
    · exact ⟨last, by simp, by simp [joinRun]⟩

/-- The signals of a run are those that lie in it. -/
theorem ids_joinRun
    (ordered : Ordered spans)
    (split : groupsOf spans = before ++ run ++ later)
    (nonempty : run ≠ []) :
    (joinRun run).ids = (spans.filter fun span =>
      span.Within (joinRun run).lo (joinRun run).hi).map Span.id := by
  have separated := separated_groupsOf ordered
  rw [split] at separated
  obtain ⟨⟨first, first_mem, first_eq⟩, last, last_mem, last_eq⟩ := exists_ends_joinRun nonempty
  have inRun (group : Group) (member : group ∈ run) := within_joinRun
    (separated.sublist (List.sublist_append_right before run |>.trans
      (List.sublist_append_left _ later))) member
  obtain ⟨earlierApart, -, laterApart⟩ := List.pairwise_append.mp separated.apart
  obtain ⟨-, -, earlierApart⟩ := List.pairwise_append.mp earlierApart
  obtain ⟨blocks, joins⟩ := exists_blocks ordered
  obtain ⟨front, back, rfl, front_eq, back_eq⟩ :=
    List.map_eq_append_iff.mp (joins.groups_eq.trans split)
  obtain ⟨left, mid, rfl, left_eq, mid_eq⟩ := List.map_eq_append_iff.mp front_eq
  have facts (entry : Group × List Span) (member : entry ∈ left ++ mid ++ back) (span : Span)
      (inside : span ∈ entry.2) :
      span.lo < span.hi ∧ span.Within entry.1.lo entry.1.hi :=
    ⟨ordered.positive span (joins.spans_eq ▸ List.mem_flatMap.mpr ⟨entry, member, inside⟩),
      joins.within entry member span inside⟩
  have none_left : (left.flatMap Prod.snd).filter (fun span =>
      span.Within (joinRun run).lo (joinRun run).hi) = [] := by
    rw [List.filter_eq_nil_iff]
    intro span member
    obtain ⟨entry, present, inside⟩ := List.mem_flatMap.mp member
    obtain ⟨positive, within⟩ := facts entry (by simp [present]) span inside
    have apart := earlierApart entry.1 (left_eq ▸ List.mem_map.mpr ⟨entry, present, rfl⟩) first
      first_mem
    rw [decide_eq_true_eq, Span.Within, first_eq]
    rw [Span.Within] at within
    omega
  have none_back : (back.flatMap Prod.snd).filter (fun span =>
      span.Within (joinRun run).lo (joinRun run).hi) = [] := by
    rw [List.filter_eq_nil_iff]
    intro span member
    obtain ⟨entry, present, inside⟩ := List.mem_flatMap.mp member
    obtain ⟨positive, within⟩ := facts entry (by simp [present]) span inside
    have apart := laterApart last (List.mem_append_right _ last_mem) entry.1
      (back_eq ▸ List.mem_map.mpr ⟨entry, present, rfl⟩)
    rw [decide_eq_true_eq, Span.Within, last_eq]
    rw [Span.Within] at within
    omega
  have all_mid : (mid.flatMap Prod.snd).filter (fun span =>
      span.Within (joinRun run).lo (joinRun run).hi) = mid.flatMap Prod.snd := by
    rw [List.filter_eq_self]
    intro span member
    obtain ⟨entry, present, inside⟩ := List.mem_flatMap.mp member
    obtain ⟨-, within⟩ := facts entry (by simp [present]) span inside
    have here := inRun entry.1 (mid_eq ▸ List.mem_map.mpr ⟨entry, present, rfl⟩)
    rw [decide_eq_true_eq, Span.Within]
    rw [Span.Within] at within
    omega
  rw [← joins.spans_eq, List.flatMap_append, List.flatMap_append, List.filter_append,
    List.filter_append, none_left, none_back, all_mid, List.nil_append, List.append_nil,
    joinRun, ← mid_eq, List.flatMap_map, List.map_flatMap]
  exact List.flatMap_congr fun entry member => joins.ids entry (by simp [member])

/-! ## The chosen ranges -/

/-- Groups cut into runs. -/
structure Parts (groups chosen : List Group) (parts : List (List Group)) : Prop where
  all : parts.flatten = groups
  nonempty : ∀ part ∈ parts, part ≠ []
  chosen_eq : chosen = parts.map joinRun

variable {chosen : List Group} {parts : List (List Group)}

/-- A chosen range in its place. -/
theorem Parts.exists_run (cut : Parts groups chosen parts) (member : group ∈ chosen) :
    ∃ before run later, groups = before ++ run ++ later ∧ run ≠ [] ∧ group = joinRun run := by
  rw [cut.chosen_eq] at member
  obtain ⟨run, present, rfl⟩ := List.mem_map.mp member
  obtain ⟨earlier, behind, rfl⟩ := List.append_of_mem present
  refine ⟨earlier.flatten, run, behind.flatten, ?_, cut.nonempty run present, rfl⟩
  rw [← cut.all, List.flatten_append, List.flatten_cons, List.append_assoc]

/-- The chosen ranges are one behind the other. -/
theorem Parts.separated (cut : Parts groups chosen parts) (separated : Separated groups) :
    Separated chosen := by
  have runs (part : List Group) (present : part ∈ parts) : Separated part :=
    separated.sublist (cut.all ▸ List.sublist_flatten_of_mem present)
  rw [cut.chosen_eq]
  constructor
  · have apart := separated.apart
    rw [← cut.all, List.pairwise_flatten] at apart
    rw [List.pairwise_map]
    refine apart.2.imp_of_mem fun {first second} here there each => ?_
    obtain ⟨-, last, last_mem, last_eq⟩ := exists_ends_joinRun (cut.nonempty first here)
    obtain ⟨⟨next, next_mem, next_eq⟩, -⟩ := exists_ends_joinRun (cut.nonempty second there)
    rw [last_eq, next_eq]
    exact each last last_mem next next_mem
  · intro group member
    obtain ⟨part, present, rfl⟩ := List.mem_map.mp member
    obtain ⟨group, inside⟩ := List.exists_mem_of_ne_nil part (cut.nonempty part present)
    have bounds := within_joinRun (runs part present) inside
    exact bounds.1.trans_lt (((runs part present).positive group inside).trans_le bounds.2)

/-- Every group lies in a chosen range. -/
theorem Parts.exists_within
    (cut : Parts groups chosen parts)
    (separated : Separated groups)
    (member : group ∈ groups) : ∃ range ∈ chosen, range.lo ≤ group.lo ∧ group.hi ≤ range.hi := by
  rw [← cut.all] at member
  obtain ⟨part, present, inside⟩ := List.mem_flatten.mp member
  refine ⟨joinRun part, cut.chosen_eq ▸ List.mem_map.mpr ⟨part, present, rfl⟩, ?_⟩
  exact within_joinRun (separated.sublist (cut.all ▸ List.sublist_flatten_of_mem present)) inside

/-- Cutting behind the given groups gives runs. -/
theorem parts_runsOf
    (start : Nat)
    (cuts : List Nat)
    (ascending : (cuts ++ [last]).Pairwise (· < ·))
    (from_start : ∀ cut ∈ cuts ++ [last], start ≤ cut)
    (last_eq : last + 1 = groups.length) :
    ∃ parts, Parts (groups.drop start) (runsOf groups start (cuts ++ [last])) parts := by
  induction cuts generalizing start with
  | nil =>
      have start_le := from_start last (by simp)
      have whole : slice groups start (last + 1) = groups.drop start := by
        rw [slice, List.take_of_length_le (by rw [List.length_drop]; omega)]
      refine ⟨[groups.drop start], by simp, ?_, by simp [runsOf, whole]⟩
      intro part member
      rw [List.mem_singleton.mp member, ← List.length_pos_iff, List.length_drop]
      omega
  | cons cut rest inductionHypothesis =>
      rw [List.cons_append] at ascending from_start ⊢
      obtain ⟨behind, others⟩ := List.pairwise_cons.mp ascending
      have start_le := from_start cut List.mem_cons_self
      have cut_lt : cut < last := behind last (by simp)
      obtain ⟨parts, all, nonempty, chosen_eq⟩ := inductionHypothesis (cut + 1) others behind
      refine ⟨slice groups start (cut + 1) :: parts, ?_, ?_, ?_⟩
      · have further : groups.drop (cut + 1) = (groups.drop start).drop (cut + 1 - start) := by
          rw [List.drop_drop]
          congr 1
          omega
        rw [List.flatten_cons, all, further, slice, List.take_append_drop]
      · refine List.forall_mem_cons.mpr ⟨?_, nonempty⟩
        rw [← List.length_pos_iff, length_slice (by omega)]
        omega
      · rw [runsOf, chosen_eq, List.map_cons]

/-! ## The sizes of the chosen ranges -/

/-- Where group `i` begins. -/
def loAt (groups : List Group) (i : Nat) : Nat := (groups.getD i default).lo

/-- Where group `i` ends. -/
def hiAt (groups : List Group) (i : Nat) : Nat := (groups.getD i default).hi

theorem row_groups (separated : Separated groups) :
    Intervals groups.length (loAt groups) (hiAt groups) where
  positive i inside := by
    rw [loAt, hiAt, List.getD_eq_getElem _ _ inside]
    exact separated.positive _ (List.getElem_mem inside)
  apart i inside := by
    rw [loAt, hiAt, List.getD_eq_getElem _ _ inside,
      List.getD_eq_getElem _ _ (Nat.lt_of_succ_lt inside)]
    exact List.pairwise_iff_getElem.mp separated.apart i (i + 1) _ inside (Nat.lt_succ_self i)

theorem hole_eq (groups : List Group) (i : Nat) :
    hole groups i = gap (loAt groups) (hiAt groups) i := rfl

theorem joinRun_slice
    (groups : List Group)
    (ordered : start ≤ last)
    (inside : last < groups.length) :
    (joinRun (slice groups start (last + 1))).lo = loAt groups start ∧
      (joinRun (slice groups start (last + 1))).hi = hiAt groups last := by
  have length : (slice groups start (last + 1)).length = last + 1 - start := length_slice inside
  constructor
  · rw [joinRun, loAt, List.headD_eq_head?_getD, List.head?_eq_getElem?, getElem?_slice,
      if_pos (by omega), List.getD_eq_getElem?_getD, Nat.add_zero]
  · rw [joinRun, hiAt, List.getLastD_eq_getLast?, List.getLast?_eq_getElem?, getElem?_slice,
      if_pos (by omega), List.getD_eq_getElem?_getD, length,
      show start + (last + 1 - start - 1) = last by omega]

/-- What the runs take up together, and the holes that were cut. -/
theorem sum_runsOf
    (separated : Separated groups)
    (start : Nat)
    (cuts : List Nat)
    (ascending : (cuts ++ [last]).Pairwise (· < ·))
    (from_start : ∀ cut ∈ cuts ++ [last], start ≤ cut)
    (last_eq : last + 1 = groups.length) :
    loAt groups start +
        ((runsOf groups start (cuts ++ [last])).map fun group => group.hi - group.lo).sum +
        (cuts.map (hole groups)).sum = hiAt groups last := by
  have row := row_groups separated
  induction cuts generalizing start with
  | nil =>
      have start_le := from_start last (by simp)
      obtain ⟨lo_eq, hi_eq⟩ := joinRun_slice groups start_le (by omega)
      have positive := row.lt_of_le start_le (by omega)
      simp only [List.nil_append, runsOf, List.map_cons, List.map_nil, List.sum_cons, List.sum_nil,
        lo_eq, hi_eq]
      omega
  | cons cut rest inductionHypothesis =>
      rw [List.cons_append] at ascending from_start ⊢
      obtain ⟨behind, others⟩ := List.pairwise_cons.mp ascending
      have start_le := from_start cut List.mem_cons_self
      have cut_lt : cut < last := behind last (by simp)
      have later := inductionHypothesis (cut + 1) others behind
      obtain ⟨lo_eq, hi_eq⟩ := joinRun_slice groups start_le (by omega)
      have positive := row.lt_of_le start_le (by omega)
      have apart := row.apart cut (by omega)
      have hole_cut : hole groups cut = loAt groups (cut + 1) - hiAt groups cut := rfl
      simp only [runsOf, List.map_cons, List.sum_cons, lo_eq, hi_eq]
      omega

/-- Cut behind every group the groups stay as they are. -/
theorem runsOf_range' (groups : List Group) (start count : Nat) (all : start + count = groups.length) :
    runsOf groups start (List.range' start count) = groups.drop start := by
  induction count generalizing start with
  | zero => rw [List.drop_of_length_le (by omega)]; rfl
  | succ count inductionHypothesis =>
      have inside : start < groups.length := by omega
      have one : slice groups start (start + 1) = [groups[start]] := by
        rw [slice, Nat.add_sub_cancel_left, List.drop_eq_getElem_cons inside, List.take_succ_cons,
          List.take_zero]
      have same : joinRun [groups[start]] = groups[start] := by simp [joinRun]
      rw [List.range'_succ, runsOf, inductionHypothesis (start + 1) (by omega), one, same]
      exact (List.drop_eq_getElem_cons inside).symm

theorem pairwise_holesOf (groups : List Group) :
    (holesOf groups).Pairwise fun i j => hole groups j ≤ hole groups i := by
  have : IsTrans Nat fun i j => hole groups j ≤ hole groups i := ⟨fun _ _ _ first second =>
    second.trans first⟩
  have : Std.Total fun i j => hole groups j ≤ hole groups i := ⟨fun _ _ => Nat.le_total _ _⟩
  exact List.pairwise_insertionSort _ _

theorem perm_holesOf (groups : List Group) :
    (holesOf groups).Perm (List.range (groups.length - 1)) :=
  List.perm_insertionSort _ _

/-- How the chosen ranges come from the groups: behind which of them they are
cut, and that no fewer holes are larger together. -/
structure BestCut (groups chosen : List Group) (maxSlots last : Nat) (cuts : List Nat) : Prop where
  chosen_eq : chosen = runsOf groups 0 (cuts ++ [last])
  ascending : (cuts ++ [last]).Pairwise (· < ·)
  few : cuts.length < maxSlots
  largest : ∀ leftOut : Finset Nat, leftOut ⊆ Finset.range last → leftOut.card < maxSlots →
    ∑ i ∈ leftOut, hole groups i ≤ (cuts.map (hole groups)).sum

theorem bestCut_chosenOf
    (slots : 1 ≤ maxSlots)
    (last_eq : last + 1 = groups.length) :
    ∃ cuts, BestCut groups (chosenOf groups maxSlots) maxSlots last cuts := by
  rw [chosenOf]
  split_ifs with few
  · refine ⟨List.range last, ?_, ?_, ?_, ?_⟩
    · have every := runsOf_range' groups 0 groups.length (Nat.zero_add _)
      rw [← List.range_eq_range', ← last_eq, List.range_succ, List.drop_zero] at every
      exact every.symm
    · rw [← List.range_succ]
      exact List.pairwise_lt_range
    · rw [List.length_range]
      omega
    · intro leftOut among _
      have perm := perm_holesOf groups
      rw [show groups.length - 1 = last by omega] at perm
      rw [← (perm.map (hole groups)).sum_eq, ← List.take_length (l := holesOf groups)]
      refine sum_le_sum_take (pairwise_holesOf groups) _ leftOut (fun i member => ?_) ?_
      · exact perm.mem_iff.mpr (List.mem_range.mpr (Finset.mem_range.mp (among member)))
      · rw [perm.length_eq, List.length_range]
        exact (Finset.card_le_card among).trans_eq (Finset.card_range last)
  · have positive : ¬maxSlots = 0 := by omega
    have last_eq' : groups.length - 1 = last := by omega
    have perm : (cutsOf groups maxSlots).Perm ((holesOf groups).take (maxSlots - 1)) := by
      rw [cutsOf, if_neg positive]
      exact List.perm_insertionSort _ _
    have length : (cutsOf groups maxSlots).length = maxSlots - 1 := by
      rw [perm.length_eq, List.length_take, (perm_holesOf groups).length_eq, List.length_range]
      omega
    rw [last_eq']
    refine ⟨cutsOf groups maxSlots, rfl, ?_, by omega, ?_⟩
    · have sorted : (cutsOf groups maxSlots).Pairwise (· ≤ ·) := by
        rw [cutsOf]
        exact List.pairwise_insertionSort _ _
      have nodup : (cutsOf groups maxSlots).Nodup := by
        rw [perm.nodup_iff]
        exact ((perm_holesOf groups).nodup_iff.mpr List.nodup_range).sublist (List.take_sublist _ _)
      refine List.pairwise_append.mpr ⟨?_, List.pairwise_singleton _ _, fun cut member other here => ?_⟩
      · exact (sorted.and nodup).imp fun both => Nat.lt_of_le_of_ne both.1 both.2
      · rw [List.mem_singleton.mp here]
        have among := (perm_holesOf groups).mem_iff.mp (List.mem_of_mem_take (perm.mem_iff.mp member))
        rw [last_eq'] at among
        exact List.mem_range.mp among
    · intro leftOut among leftOut_few
      rw [(perm.map (hole groups)).sum_eq]
      refine sum_le_sum_take (pairwise_holesOf groups) _ leftOut (fun i member => ?_) (by omega)
      rw [(perm_holesOf groups).mem_iff, last_eq', List.mem_range]
      exact Finset.mem_range.mp (among member)

/-- Every hole that is not cut counts. -/
theorem sum_hole_lt
    (separated : Separated groups)
    (last_eq : last + 1 = groups.length)
    (ascending : (cuts ++ [last]).Pairwise (· < ·))
    (few : cuts.length < last) :
    (cuts.map (hole groups)).sum < ((List.range last).map (hole groups)).sum := by
  obtain ⟨sorted, -, below⟩ := List.pairwise_append.mp ascending
  have nodup : cuts.Nodup := sorted.imp Nat.ne_of_lt
  have inside : cuts.toFinset ⊆ (List.range last).toFinset := by
    intro cut member
    rw [List.mem_toFinset] at member ⊢
    exact List.mem_range.mpr (below cut member last (List.mem_singleton.mpr rfl))
  have fewer : cuts.toFinset.card < (List.range last).toFinset.card := by
    rwa [List.toFinset_card_of_nodup nodup, List.toFinset_card_of_nodup List.nodup_range,
      List.length_range]
  obtain ⟨i, among, uncut⟩ := Finset.exists_mem_notMem_of_card_lt_card fewer
  have positive : 0 < hole groups i := by
    rw [List.mem_toFinset, List.mem_range] at among
    have apart := (row_groups separated).apart i (by omega)
    rw [hole_eq, gap]
    omega
  rw [← List.sum_toFinset _ nodup, ← List.sum_toFinset _ List.nodup_range]
  exact Finset.sum_lt_sum_of_subset inside among uncut positive fun _ _ _ => Nat.zero_le _

end Signals
end TriCoreDap
