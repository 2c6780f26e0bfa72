import TriCoreDap.Signals.Slots

/-!
# What the watch slots cover

The ranges of `plan_slots` are a least cover of the value signals, and the figure
it gives for the bytes that it watches in vain.
-/

namespace TriCoreDap
namespace Signals

variable {signals : List Signal} {maxSlots addr : Nat} {s : Signal}

/-- The addresses of the signals that are watched. -/
def watched (signals : List Signal) : List (Nat × Nat) :=
  (signals.filter fun s => s.Watched).map fun s => (s.addr, s.size)

theorem perm_spansOf (signals : List Signal) :
    (spansOf signals).Perm ((signals.filter fun s => s.Watched).map Signal.span) :=
  List.perm_insertionSort _ _

theorem mem_spansOf {span : Span} :
    span ∈ spansOf signals ↔ ∃ s ∈ signals, s.Watched ∧ span = s.span := by
  rw [(perm_spansOf signals).mem_iff]
  simp [eq_comm, and_assoc]

instance : IsTrans Span Span.le := ⟨fun first second third less less' => by
  simp only [Span.le] at *
  rcases less with less | ⟨same, less⟩
  · omega
  · rcases less' with less' | ⟨same', less'⟩
    · omega
    · rcases less with less | ⟨equal, less⟩
      · omega
      · rcases less' with less' | ⟨equal', less'⟩
        · omega
        · exact Or.inr ⟨same.trans same', Or.inr ⟨equal.trans equal', less.trans less'⟩⟩⟩

instance : Std.Total Span.le := ⟨fun first second => by
  have ids := le_total first.id second.id
  simp only [Span.le]
  rcases Nat.lt_trichotomy first.lo second.lo with less | same | more
  · exact Or.inl (Or.inl less)
  · rcases Nat.lt_trichotomy first.hi second.hi with less | equal | more
    · exact Or.inl (Or.inr ⟨same, Or.inl less⟩)
    · rcases ids with ids | ids
      · exact Or.inl (Or.inr ⟨same, Or.inr ⟨equal, ids⟩⟩)
      · exact Or.inr (Or.inr ⟨same.symm, Or.inr ⟨equal.symm, ids⟩⟩)
    · exact Or.inr (Or.inr ⟨same.symm, Or.inl more⟩)
  · exact Or.inr (Or.inl more)⟩

theorem ordered_spansOf (signals : List Signal) : Ordered (spansOf signals) where
  sorted := by
    refine (List.pairwise_insertionSort Span.le _).imp fun less => ?_
    rcases less with less | same
    · exact less.le
    · exact same.1.le
  positive span member := by
    obtain ⟨s, -, taken, rfl⟩ := mem_spansOf.mp member
    exact Nat.lt_add_of_pos_right taken.2

/-- A signal that is watched gives its span. -/
theorem mem_bytesOf_watched :
    addr ∈ bytesOf (watched signals) ↔ ∃ span ∈ spansOf signals, span.lo ≤ addr ∧ addr < span.hi := by
  rw [mem_bytesOf, watched]
  constructor
  · rintro ⟨interval, member, bounds⟩
    obtain ⟨s, taken, rfl⟩ := List.mem_map.mp member
    obtain ⟨present, taken⟩ := List.mem_filter.mp taken
    exact ⟨s.span, mem_spansOf.mpr ⟨s, present, of_decide_eq_true taken, rfl⟩, bounds⟩
  · rintro ⟨span, member, bounds⟩
    obtain ⟨s, present, taken, rfl⟩ := mem_spansOf.mp member
    refine ⟨(s.addr, s.size), List.mem_map.mpr ⟨s, ?_, rfl⟩, bounds⟩
    exact List.mem_filter.mpr ⟨present, decide_eq_true taken⟩

/-! ## The plan -/

/-- The plan's ranges and ids, with the groups that they come from. -/
theorem planSlots_eq (signals : List Signal) (maxSlots : Nat) :
    let chosen := chosenOf (groupsOf (spansOf signals)) maxSlots
    (planSlots signals maxSlots).ranges = chosen.map (fun group => (group.lo, group.hi - group.lo)) ∧
      (planSlots signals maxSlots).signals = chosen.map Group.ids ∧
        (planSlots signals maxSlots).extraBytes =
          totalSize (planSlots signals maxSlots).ranges - totalSize (watched signals) := by
  have used : ((spansOf signals).map fun span => span.hi - span.lo).sum =
      totalSize (watched signals) := by
    rw [((perm_spansOf signals).map _).sum_eq, totalSize, watched, List.map_map, List.map_map]
    congr 1
    refine List.map_congr_left fun s _ => ?_
    exact Nat.add_sub_cancel_left s.addr s.size
  rw [planSlots, used]
  split_ifs with none
  · rw [none]
    exact ⟨rfl, rfl, by simp [totalSize]⟩
  · exact ⟨rfl, rfl, rfl⟩

/-- A plan and the groups it is made of: none, or some that are cut at the
largest holes. -/
theorem chosenOf_cases (signals : List Signal) (slots : 1 ≤ maxSlots) :
    (spansOf signals = [] ∧ chosenOf (groupsOf (spansOf signals)) maxSlots = []) ∨
      ∃ last cuts parts, last + 1 = (groupsOf (spansOf signals)).length ∧
        BestCut (groupsOf (spansOf signals)) (chosenOf (groupsOf (spansOf signals)) maxSlots)
          maxSlots last cuts ∧
        Parts (groupsOf (spansOf signals)) (chosenOf (groupsOf (spansOf signals)) maxSlots)
          parts := by
  have ordered := ordered_spansOf signals
  rcases Nat.eq_zero_or_pos (groupsOf (spansOf signals)).length with none | some
  · refine Or.inl ⟨?_, ?_⟩
    · rw [List.eq_nil_iff_forall_not_mem]
      intro span member
      obtain ⟨group, present, -⟩ := exists_group ordered member
      rw [List.eq_nil_of_length_eq_zero none] at present
      exact List.not_mem_nil present
    · rw [chosenOf, if_pos (by omega), List.eq_nil_of_length_eq_zero none]
  · have last_eq : (groupsOf (spansOf signals)).length - 1 + 1 =
        (groupsOf (spansOf signals)).length := by omega
    obtain ⟨cuts, best⟩ := bestCut_chosenOf slots last_eq
    obtain ⟨parts, cut⟩ := parts_runsOf 0 cuts best.ascending (fun _ _ => Nat.zero_le _) last_eq
    rw [List.drop_zero, ← best.chosen_eq] at cut
    exact Or.inr ⟨_, cuts, parts, last_eq, best, cut⟩

theorem separated_chosenOf (signals : List Signal) (slots : 1 ≤ maxSlots) :
    Separated (chosenOf (groupsOf (spansOf signals)) maxSlots) := by
  rcases chosenOf_cases signals slots with ⟨-, none⟩ | ⟨last, cuts, parts, -, -, cut⟩
  · rw [none]
    exact ⟨List.Pairwise.nil, by simp⟩
  · exact cut.separated (separated_groupsOf (ordered_spansOf signals))

/-- No address is in two of the groups. -/
theorem Separated.disjoint {groups : List Group} (separated : Separated groups) :
    (groups.map fun group => (group.lo, group.hi - group.lo)).Pairwise AddressDisjoint := by
  rw [List.pairwise_map]
  refine separated.apart.imp_of_mem fun {first second} here _ apart => ?_
  have positive := separated.positive first here
  rw [AddressDisjoint, Finset.disjoint_left]
  simp only [Finset.mem_Ico]
  omega

theorem length_runsOf (groups : List Group) (start : Nat) (ends : List Nat) :
    (runsOf groups start ends).length = ends.length := by
  induction ends generalizing start with
  | nil => rfl
  | cons last rest inductionHypothesis => rw [runsOf, List.length_cons, inductionHypothesis,
      List.length_cons]

/-- Every signal that is watched lies in one of the ranges. -/
theorem exists_chosen (slots : 1 ≤ maxSlots) (member : s ∈ signals) (taken : s.Watched) :
    ∃ group ∈ chosenOf (groupsOf (spansOf signals)) maxSlots,
      s.span.Within group.lo group.hi := by
  have ordered := ordered_spansOf signals
  have present : s.span ∈ spansOf signals := mem_spansOf.mpr ⟨s, member, taken, rfl⟩
  obtain ⟨group, inside, low, high⟩ := exists_group ordered present
  rcases chosenOf_cases signals slots with ⟨none, -⟩ | ⟨last, cuts, parts, -, -, cut⟩
  · rw [none] at present
    exact absurd present List.not_mem_nil
  · obtain ⟨range, chosen, low', high'⟩ := cut.exists_within (separated_groupsOf ordered) inside
    exact ⟨range, chosen, low'.trans low, high.trans high'⟩

/-- The signals of a range are those that lie in it. -/
theorem ids_chosenOf
    {group : Group}
    (slots : 1 ≤ maxSlots)
    (member : group ∈ chosenOf (groupsOf (spansOf signals)) maxSlots) :
    group.ids.Perm ((signals.filter fun s =>
      s.Watched ∧ s.span.Within group.lo group.hi).map Signal.id) := by
  rcases chosenOf_cases signals slots with ⟨-, none⟩ | ⟨last, cuts, parts, -, -, cut⟩
  · rw [none] at member
    exact absurd member List.not_mem_nil
  · obtain ⟨before, run, later, split, nonempty, rfl⟩ := cut.exists_run member
    rw [ids_joinRun (ordered_spansOf signals) split nonempty]
    refine (((perm_spansOf signals).filter _).map Span.id).trans (List.Perm.of_eq ?_)
    rw [List.filter_map, List.map_map, List.filter_filter]
    refine congrArg₂ List.map rfl (List.filter_congr fun s _ => ?_)
    simp [Bool.and_comm]

/-- The watched addresses are those of the groups. -/
theorem mem_watched_iff_group :
    addr ∈ bytesOf (watched signals) ↔
      ∃ group ∈ groupsOf (spansOf signals), group.lo ≤ addr ∧ addr < group.hi := by
  have ordered := ordered_spansOf signals
  rw [mem_bytesOf_watched]
  constructor
  · rintro ⟨span, member, low, high⟩
    obtain ⟨group, present, low', high'⟩ := exists_group ordered member
    exact ⟨group, present, low'.trans low, high.trans_le high'⟩
  · rintro ⟨group, present, low, high⟩
    exact exists_span_of_group ordered present low high

theorem totalSize_ranges (signals : List Signal) (maxSlots : Nat) :
    totalSize (planSlots signals maxSlots).ranges =
      ((chosenOf (groupsOf (spansOf signals)) maxSlots).map fun group =>
        group.hi - group.lo).sum := by
  rw [(planSlots_eq signals maxSlots).1, totalSize, List.map_map]
  rfl

/-- No cover by as few intervals is smaller. -/
theorem totalSize_le
    {intervals : List (Nat × Nat)}
    (slots : 1 ≤ maxSlots)
    (few : intervals.length ≤ maxSlots)
    (covers : bytesOf (watched signals) ⊆ bytesOf intervals) :
    totalSize (planSlots signals maxSlots).ranges ≤ totalSize intervals := by
  rw [totalSize_ranges]
  rcases chosenOf_cases signals slots with ⟨-, none⟩ | ⟨last, cuts, parts, last_eq, best, -⟩
  · rw [none]
    exact Nat.zero_le _
  · have separated := separated_groupsOf (ordered_spansOf signals)
    have row := row_groups separated
    rw [← last_eq] at row
    have each (i : Nat) (inside : i ≤ last) (addr : Nat)
        (low : loAt (groupsOf (spansOf signals)) i ≤ addr)
        (high : addr < hiAt (groupsOf (spansOf signals)) i) : addr ∈ bytesOf intervals := by
      have present : i < (groupsOf (spansOf signals)).length := by omega
      rw [loAt, List.getD_eq_getElem _ _ present] at low
      rw [hiAt, List.getD_eq_getElem _ _ present] at high
      exact covers (mem_watched_iff_group.mpr ⟨_, List.getElem_mem present, low, high⟩)
    obtain ⟨leftOut, among, leftOut_few, bound⟩ := row.exists_left_out each
    have holes := best.largest leftOut among (leftOut_few.trans_le few)
    have total := sum_runsOf separated 0 cuts best.ascending (fun _ _ => Nat.zero_le _) last_eq
    rw [← best.chosen_eq] at total
    simp only [hole_eq] at holes total
    omega

/-- A range holds all bytes of a signal. -/
def Signal.Inside (s : Signal) (range : Nat × Nat) : Prop :=
  range.1 ≤ s.addr ∧ s.stop ≤ range.1 + range.2

instance (s : Signal) (range : Nat × Nat) : Decidable (s.Inside range) :=
  inferInstanceAs (Decidable (_ ∧ _))

/-- At most as many ranges as there are slots, that no address is in two of, each
with the signals in it, and with all bytes of each signal in one of them; no
other such ranges are smaller together. -/
structure LeastCover (signals : List Signal) (maxSlots : Nat) (plan : SlotPlan) : Prop where
  few : plan.ranges.length ≤ maxSlots
  apart : plan.ranges.Pairwise AddressDisjoint
  covers : ∀ s ∈ signals, s.Watched → ∃ range ∈ plan.ranges, s.Inside range
  lists : List.Forall₂ (fun range ids => ids.Perm
    ((signals.filter fun s => s.Watched ∧ s.Inside range).map Signal.id)) plan.ranges plan.signals
  least : ∀ intervals : List (Nat × Nat), intervals.length ≤ maxSlots →
    bytesOf (watched signals) ⊆ bytesOf intervals →
      totalSize plan.ranges ≤ totalSize intervals

theorem planSlots_least
    (signals : List Signal)
    (slots : 1 ≤ maxSlots) : LeastCover signals maxSlots (planSlots signals maxSlots) := by
  have separated := separated_chosenOf signals slots
  have inside (group : Group) (member : group ∈ chosenOf (groupsOf (spansOf signals)) maxSlots)
      (s : Signal) : s.Inside (group.lo, group.hi - group.lo) ↔ s.span.Within group.lo group.hi := by
    have positive := separated.positive group member
    rw [Signal.Inside, Span.Within, Signal.span]
    dsimp only
    omega
  obtain ⟨ranges_eq, signals_eq, -⟩ := planSlots_eq signals maxSlots
  constructor
  · rw [ranges_eq, List.length_map]
    rcases chosenOf_cases signals slots with ⟨-, none⟩ | ⟨last, cuts, parts, -, best, -⟩
    · rw [none]
      exact Nat.zero_le _
    · rw [best.chosen_eq, length_runsOf, List.length_append, List.length_singleton]
      exact best.few
  · rw [ranges_eq]
    exact separated.disjoint
  · intro s member taken
    obtain ⟨group, chosen, within⟩ := exists_chosen slots member taken
    refine ⟨_, ranges_eq ▸ List.mem_map.mpr ⟨group, chosen, rfl⟩, ?_⟩
    exact (inside group chosen s).mpr within
  · rw [ranges_eq, signals_eq, List.forall₂_map_left_iff, List.forall₂_map_right_iff,
      List.forall₂_same]
    intro group member
    simp only [inside group member]
    exact ids_chosenOf slots member
  · exact fun intervals few covers => totalSize_le slots few covers

/-- A selection of one signal without any byte is in no range. -/
theorem zero_size_unlisted :
    ¬∀ (signals : List Signal) (maxSlots : Nat), 1 ≤ maxSlots →
      (∃ s ∈ signals, s.kind = .value) → ∀ s ∈ signals, s.kind = .value →
        ∃ ids ∈ (planSlots signals maxSlots).signals, s.id ∈ ids := by
  intro listed
  obtain ⟨ids, member, -⟩ := listed [rawSignal "raw:0x00000010:0" 16 0 false] 2 (by decide)
    ⟨_, List.mem_singleton.mpr rfl, rfl⟩ _ (List.mem_singleton.mpr rfl) rfl
  exact List.not_mem_nil member

/-- Two signals apart, with one slot. -/
theorem planSlots_least_two :
    1 ≤ 1 ∧ LeastCover [rawSignal "low" 16 4 false, rawSignal "high" 32 4 false] 1
      (planSlots [rawSignal "low" 16 4 false, rawSignal "high" 32 4 false] 1) :=
  ⟨le_rfl, planSlots_least _ le_rfl⟩

/-! ## Bytes watched in vain -/

/-- The addresses in the plan's ranges that no selected signal covers. -/
def uncovered (signals : List Signal) (plan : SlotPlan) : Finset Nat :=
  bytesOf plan.ranges \ bytesOf (watched signals)

/-- The addresses of signals without one before. -/
def runStarts (signals : List Signal) : Finset Nat :=
  (bytesOf (watched signals)).filter fun addr =>
    addr = 0 ∨ addr - 1 ∉ bytesOf (watched signals)

theorem runStarts_eq (signals : List Signal) :
    runStarts signals = ((groupsOf (spansOf signals)).map Group.lo).toFinset := by
  have separated := separated_groupsOf (ordered_spansOf signals)
  ext addr
  rw [runStarts, Finset.mem_filter, List.mem_toFinset, List.mem_map, mem_watched_iff_group,
    mem_watched_iff_group]
  constructor
  · rintro ⟨⟨group, member, low, high⟩, first⟩
    refine ⟨group, member, ?_⟩
    by_contra different
    rcases first with zero | alone
    · omega
    · exact alone ⟨group, member, by omega, by omega⟩
  · rintro ⟨group, member, rfl⟩
    have positive := separated.positive group member
    refine ⟨⟨group, member, le_rfl, positive⟩, ?_⟩
    by_contra inner
    push Not at inner
    obtain ⟨nonzero, other, member', low, high⟩ := inner
    rcases same_or_of_pairwise separated.apart member member' with rfl | before | after
    · omega
    · omega
    · omega

theorem card_runStarts (signals : List Signal) :
    (runStarts signals).card = (groupsOf (spansOf signals)).length := by
  have separated := separated_groupsOf (ordered_spansOf signals)
  have nodup : ((groupsOf (spansOf signals)).map Group.lo).Nodup := by
    rw [List.Nodup, List.pairwise_map]
    refine separated.apart.imp_of_mem fun {first second} here _ apart => ?_
    have positive := separated.positive first here
    omega
  rw [runStarts_eq, List.toFinset_card_of_nodup nodup, List.length_map]

/-- The groups have each watched address once. -/
theorem card_watched (signals : List Signal) :
    (bytesOf (watched signals)).card =
      ((groupsOf (spansOf signals)).map fun group => group.hi - group.lo).sum := by
  have separated := separated_groupsOf (ordered_spansOf signals)
  let intervals := (groupsOf (spansOf signals)).map fun group => (group.lo, group.hi - group.lo)
  have same : bytesOf (watched signals) = bytesOf intervals := by
    ext addr
    rw [mem_watched_iff_group, mem_bytesOf]
    simp only [intervals, List.mem_map, exists_exists_and_eq_and]
    refine exists_congr fun group => and_congr_right fun member => ?_
    have positive := separated.positive group member
    omega
  rw [same, (card_bytesOf_eq_iff intervals).mpr separated.disjoint, totalSize, List.map_map]
  rfl

/-- Ranges that are more than the slots are joined over a hole at least. -/
theorem totalSize_eq_card_iff (signals : List Signal) (slots : 1 ≤ maxSlots) :
    totalSize (planSlots signals maxSlots).ranges = (bytesOf (watched signals)).card ↔
      (runStarts signals).card ≤ maxSlots := by
  rw [card_runStarts, card_watched, totalSize_ranges]
  constructor
  · intro same
    by_contra more
    rcases chosenOf_cases signals slots with ⟨none, -⟩ | ⟨last, cuts, parts, last_eq, best, -⟩
    · rw [none] at more
      exact more (Nat.zero_le _)
    · have separated := separated_groupsOf (ordered_spansOf signals)
      have row := row_groups separated
      have total := sum_runsOf separated 0 cuts best.ascending (fun _ _ => Nat.zero_le _) last_eq
      have whole := sum_runsOf separated 0 (List.range last)
        (by rw [← List.range_succ]; exact List.pairwise_lt_range) (fun _ _ => Nat.zero_le _) last_eq
      have every := runsOf_range' (groupsOf (spansOf signals)) 0 _ (Nat.zero_add _)
      rw [← List.range_eq_range', ← last_eq, List.range_succ, List.drop_zero] at every
      rw [← best.chosen_eq, same] at total
      rw [every] at whole
      have few := best.few
      have less := sum_hole_lt separated last_eq best.ascending (by omega)
      omega
  · intro few
    rw [chosenOf, if_pos few]

/-- The figure is right if and only if no address is in two of the signals or
their runs are no more than the slots. -/
theorem extraBytes_eq_iff (signals : List Signal) (slots : 1 ≤ maxSlots) :
    (planSlots signals maxSlots).extraBytes =
        (uncovered signals (planSlots signals maxSlots)).card ↔
      (watched signals).Pairwise AddressDisjoint ∨ (runStarts signals).card ≤ maxSlots := by
  have least := planSlots_least signals slots
  have covers : bytesOf (watched signals) ⊆ bytesOf (planSlots signals maxSlots).ranges := by
    intro addr member
    obtain ⟨span, present, low, high⟩ := mem_bytesOf_watched.mp member
    obtain ⟨s, selected, taken, rfl⟩ := mem_spansOf.mp present
    obtain ⟨range, chosen, low', high'⟩ := least.covers s selected taken
    exact mem_bytesOf.mpr ⟨range, chosen, low'.trans low, high.trans_le high'⟩
  have total := (card_bytesOf_eq_iff _).mpr least.apart
  have count := Finset.card_sdiff_of_subset covers
  have inside := Finset.card_le_card covers
  have bound := card_bytesOf_le (watched signals)
  rw [← card_bytesOf_eq_iff, ← totalSize_eq_card_iff signals slots,
    (planSlots_eq signals maxSlots).2.2, uncovered, count]
  omega

/-- Two signals of four bytes that have two bytes in common, and two of one byte. -/
def overlapping : List Signal :=
  [rawSignal "a" 16 4 false, rawSignal "b" 18 4 false, rawSignal "c" 32 1 false,
    rawSignal "d" 64 1 false]

/-- The common bytes are taken off twice: 8 bytes are announced where 10 are
watched in vain. -/
theorem extraBytes_overlapping :
    (planSlots overlapping 2).extraBytes = 8 ∧
      (uncovered overlapping (planSlots overlapping 2)).card = 10 := by
  decide +kernel

theorem extraBytes_eq_iff_overlapping :
    1 ≤ 2 ∧ ((planSlots overlapping 2).extraBytes =
        (uncovered overlapping (planSlots overlapping 2)).card ↔
      (watched overlapping).Pairwise AddressDisjoint ∨ (runStarts overlapping).card ≤ 2) :=
  ⟨by decide, extraBytes_eq_iff overlapping (by decide)⟩

end Signals
end TriCoreDap
