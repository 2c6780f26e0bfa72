import TriCoreDap.Signals.Overlay
import TriCoreDap.Signals.Parallel

/-!
# Held values

Where every access that touches a selected signal comes with its value, the last sample
of a signal is what the shadow memory has for it.
-/

namespace TriCoreDap
namespace Signals

open Decode (Row Kind)

variable {floats : Floats}

/-- The held value: that of the last sample up to then. -/
def heldAt (series : List (floats.Real × floats.Real)) (time : floats.Real) : Option floats.Real :=
  ((series.filter fun sample => floats.upTo sample.1 time).getLast?).map Prod.snd

theorem heldAt_append (first second : List (floats.Real × floats.Real)) (time : floats.Real) :
    heldAt (first ++ second) time = (heldAt second time).or (heldAt first time) := by
  rw [heldAt, List.filter_append, List.getLast?_append, heldAt, heldAt]
  cases (second.filter fun sample => floats.upTo sample.1 time).getLast? <;> rfl

/-- The value of the last sample. -/
def lastValue (series : List (floats.Real × floats.Real)) : Option floats.Real :=
  series.getLast?.map Prod.snd

/-- Once all samples are past, the last one is held. -/
theorem heldAt_eq
    {series : List (floats.Real × floats.Real)}
    {time : floats.Real}
    (past : ∀ sample ∈ series, floats.upTo sample.1 time) : heldAt series time = lastValue series := by
  rw [heldAt, List.filter_eq_self.mpr past, lastValue]

/-! ## Bytes of a signal -/

/-- Whether bytes can be decoded depends on how many they are. -/
theorem decode_isSome
    (s : Signal)
    {raw raw' : List Byte}
    (same : raw.length = raw'.length) :
    (s.decode floats raw).isSome = (s.decode floats raw').isSome := by
  rw [Signal.decode, Signal.decode]
  cases s.node with
  | none => rfl
  | some node =>
      simp only [decodeLeaf, same]
      split_ifs <;> rfl

theorem Range.length_of_read
    {range : Range}
    {raw : List Byte}
    (contains : range.Contains addr size)
    (found : range.read addr size = some raw) : raw.length = size := by
  obtain ⟨low, top⟩ := contains
  rw [stop] at top
  rw [read] at found
  split_ifs at found
  obtain rfl := Option.some.inj found
  rw [length_slice (by omega)]
  omega

/-- What is known stays known. -/
theorem Range.known_of_write
    {range : Range}
    (contains : range.Contains addr' size)
    (addr : Nat) (raw : List Byte)
    (known : range.read addr' size ≠ none) : (range.write addr raw).read addr' size ≠ none := by
  obtain ⟨low, top⟩ := contains
  rw [stop] at top
  have lengths := range.length_known
  rw [read] at known ⊢
  rw [write_base]
  split_ifs at known with unknown
  · exact absurd rfl known
  · rw [if_neg]
    · exact Option.some_ne_none _
    intro member
    obtain ⟨index, found⟩ := List.mem_iff_getElem?.mp member
    rw [getElem?_slice] at found
    split_ifs at found with inside
    rw [getElem?_write_known _ _ _ _ (by omega)] at found
    split_ifs at found
    · cases found
    · apply unknown
      apply List.mem_iff_getElem?.mpr ⟨index, _⟩
      rw [getElem?_slice, if_pos inside]
      exact found

namespace Shadow

variable {shadow : Shadow} {addr addr' size : Nat} {raw : List Byte}

theorem length_of_read (found : shadow.read addr size = some raw) : raw.length = size := by
  obtain ⟨range, first, here⟩ := Option.bind_eq_some_iff.mp found
  exact Range.length_of_read (by simpa using List.find?_some first) here

theorem known_of_write
    (addr : Nat) (raw : List Byte)
    (known : shadow.read addr' size ≠ none) : (shadow.write addr raw).read addr' size ≠ none := by
  rw [read_write]
  rw [read] at known
  cases found : shadow.find? fun range => decide (range.Contains addr' size) with
  | none =>
      rw [found] at known
      exact absurd rfl known
  | some range =>
      rw [found] at known
      exact Range.known_of_write (by simpa using List.find?_some found) addr raw known

end Shadow

/-! ## Samples from the memory -/

namespace Extractor

variable {ex : Extractor floats} {t : floats.Real}

/-- A signal's value as the memory has it. -/
def current (ex : Extractor floats) (s : Signal) : Option floats.Real :=
  ((ex.shadow.read s.addr s.size).bind (s.decode floats)).map Value.toFloat

/-- A value that the memory has is still there after a store, maybe another one. -/
theorem current_of_write
    (s : Signal)
    (addr : Nat) (raw : List Byte)
    (gone : current { ex with shadow := ex.shadow.write addr raw } s = none) :
    ex.current s = none := by
  by_contra some
  obtain ⟨v, here⟩ := Option.ne_none_iff_exists'.mp some
  obtain ⟨value, bound, -⟩ := Option.map_eq_some_iff.mp here
  obtain ⟨before, read, decoded⟩ := Option.bind_eq_some_iff.mp bound
  have known : ex.shadow.read s.addr s.size ≠ none := by
    rw [read]
    exact Option.some_ne_none _
  obtain ⟨after, read'⟩ :=
    Option.ne_none_iff_exists'.mp (Shadow.known_of_write addr raw known)
  have same : after.length = before.length :=
    (Shadow.length_of_read read').trans (Shadow.length_of_read read).symm
  have decodes : (s.decode floats after).isSome = (s.decode floats before).isSome :=
    decode_isSome s same
  rw [decoded] at decodes
  obtain ⟨value', decoded'⟩ := Option.isSome_iff_exists.mp decodes
  rw [current, read', Option.bind_some, decoded'] at gone
  cases gone

/-- Samples of signals with different ids, each from the memory. -/
theorem foldl_sampleMemory
    (hit : List Signal)
    (distinct : (hit.map Signal.id).Nodup)
    (ex : Extractor floats) :
    (hit.foldl (sampleMemory t) ex).shadow = ex.shadow ∧
      (∀ s ∈ hit, (hit.foldl (sampleMemory t) ex).store.series s.id =
        ex.store.series s.id ++ (ex.current s).toList.map (t, ·)) ∧
      ∀ sid, sid ∉ hit.map Signal.id →
        (hit.foldl (sampleMemory t) ex).store.series sid = ex.store.series sid := by
  have one (ex : Extractor floats) (s : Signal) : (sampleMemory t ex s).shadow = ex.shadow ∧
      (sampleMemory t ex s).store.series s.id =
        ex.store.series s.id ++ (ex.current s).toList.map (t, ·) ∧
      ∀ sid, sid ≠ s.id → (sampleMemory t ex s).store.series sid = ex.store.series sid := by
    rw [sampleMemory, current]
    cases (ex.shadow.read s.addr s.size).bind (s.decode floats) with
    | none => exact ⟨rfl, (List.append_nil _).symm, fun _ _ => rfl⟩
    | some v =>
        exact ⟨rfl, Function.update_self _ _ _, fun sid other => Function.update_of_ne other _ _⟩
  induction hit generalizing ex with
  | nil => exact ⟨rfl, fun s member => absurd member List.not_mem_nil, fun _ _ => rfl⟩
  | cons first rest inductionHypothesis =>
      rw [List.map_cons, List.nodup_cons] at distinct
      obtain ⟨fresh, distinct⟩ := distinct
      obtain ⟨shadow, own, others⟩ := one ex first
      obtain ⟨shadow', own', others'⟩ := inductionHypothesis distinct (sampleMemory t ex first)
      have current_eq (s : Signal) : (sampleMemory t ex first).current s = ex.current s := by
        rw [current, shadow, current]
      refine ⟨shadow'.trans shadow, fun s member => ?_, fun sid outside => ?_⟩
      · rcases List.mem_cons.mp member with rfl | member
        · exact (others' _ fresh).trans own
        · have unlike : s.id ≠ first.id :=
            fun same => fresh (same ▸ List.mem_map_of_mem member)
          rw [List.foldl_cons, own' s member, others _ unlike, current_eq]
      · rw [List.map_cons, List.mem_cons, not_or] at outside
        exact (others' _ outside.2).trans (others _ outside.1)

/-- The initial samples are samples from the memory. -/
theorem initialSamples_eq (seeded : ex.seeded = true) (begun : ex.t0 ≠ none) :
    ex.initialSamples = ex.values.foldl (sampleMemory ex.initialT) ex := by
  have one (ex : Extractor floats) (s : Signal) :
      ex.initialSample s = sampleMemory ex.initialT ex s ∧
        (ex.initialSample s).initialT = ex.initialT := by
    rw [initialSample, sampleMemory]
    cases (ex.shadow.read s.addr s.size).bind (s.decode floats) <;> exact ⟨rfl, rfl⟩
  have all (signals : List Signal) (ex : Extractor floats) :
      signals.foldl initialSample ex = signals.foldl (sampleMemory ex.initialT) ex := by
    induction signals generalizing ex with
    | nil => rfl
    | cons s rest inductionHypothesis =>
        obtain ⟨same, initialT⟩ := one ex s
        rw [List.foldl_cons, List.foldl_cons, inductionHypothesis, initialT, same]
  rw [initialSamples, if_neg]
  · exact all _ _
  · rintro (unseeded | unset)
    · rw [seeded] at unseeded
      cases unseeded
    · exact begun unset

end Extractor

/-! ## The last samples -/

/-- The extractor has the selection. -/
structure Selects (signals : List Signal) (ex : Extractor floats) : Prop where
  values : ∀ s, s ∈ ex.values ↔ s ∈ valuesOf signals
  length : ex.values.length = (valuesOf signals).length
  hits : ∀ slot s, ex.hits.lookup slot = some s → s ∈ signals ∧ s.kind = .hits ∧ s.slot = slot
  only : ex.shadow.Only ex.values

/-- The samples are past, and the last one of each value signal is what the memory has. -/
structure Tracks (limit : floats.Real) (ex : Extractor floats) : Prop where
  past : ∀ sid, ∀ sample ∈ ex.store.series sid, floats.upTo sample.1 limit
  last : ∀ s ∈ ex.values, lastValue (ex.store.series s.id) = ex.current s
  others : ∀ sid, sid ∉ ex.values.map Signal.id → ex.store.series sid = []

variable {ex : Extractor floats} {limit t : floats.Real} {signals : List Signal}

/-- Samples from the memory, behind those of an older memory. -/
theorem Tracks.sampled
    {before : Extractor floats}
    (past : ∀ sid, ∀ sample ∈ before.store.series sid, floats.upTo sample.1 limit)
    (others : ∀ sid, sid ∉ before.values.map Signal.id → before.store.series sid = [])
    (distinct : (before.values.map Signal.id).Nodup)
    {hit : List Signal}
    (sublist : hit.Sublist before.values)
    (at_t : floats.upTo t limit)
    (sampled : ∀ s ∈ hit, before.current s = none → before.store.series s.id = [])
    (unsampled : ∀ s ∈ before.values, s ∉ hit →
      lastValue (before.store.series s.id) = before.current s) :
    Tracks limit (hit.foldl (Extractor.sampleMemory t) before) := by
  have hit_distinct : (hit.map Signal.id).Nodup := distinct.sublist (sublist.map _)
  obtain ⟨shadow, own, rest⟩ := Extractor.foldl_sampleMemory (t := t) hit hit_distinct before
  have selection : Extractor.SameSelection before (hit.foldl (Extractor.sampleMemory t) before) :=
    Extractor.SameSelection.foldl (Extractor.sampleMemory_selection t) _ _
  set after := hit.foldl (Extractor.sampleMemory t) before
  have current_eq (s : Signal) : after.current s = before.current s := by
    rw [Extractor.current, shadow, Extractor.current]
  refine ⟨fun sid => ?_, fun s member => ?_, fun sid outside => ?_⟩
  · by_cases inside : sid ∈ hit.map Signal.id
    · obtain ⟨s, member, rfl⟩ := List.mem_map.mp inside
      rw [own s member]
      intro sample split
      rcases List.mem_append.mp split with earlier | newest
      · exact past _ sample earlier
      · obtain ⟨v, -, rfl⟩ := List.mem_map.mp newest
        exact at_t
    · rw [rest sid inside]
      exact past sid
  · rw [selection.values] at member
    rw [current_eq]
    by_cases inside : s ∈ hit
    · rw [own s inside]
      cases found : before.current s with
      | none =>
          rw [sampled s inside found]
          rfl
      | some v =>
          rw [lastValue, Option.toList_some, List.map_cons, List.map_nil, List.getLast?_append]
          rfl
    · have unlike : s.id ∉ hit.map Signal.id := by
        intro among
        obtain ⟨other, of_hit, same⟩ := List.mem_map.mp among
        exact inside (List.inj_on_of_nodup_map distinct (sublist.subset of_hit) member same ▸ of_hit)
      rw [rest _ unlike]
      exact unsampled s member inside
  · rw [selection.values] at outside
    rw [rest sid fun among => outside ((sublist.map _).subset among)]
    exact others sid outside

/-! ## Rows -/

/-- The bytes that an access is about. -/
def accessSize (row : Row) : Nat := if row.size = 0 then 4 else row.size

def IsAccess (row : Row) : Prop := row.kind = .write ∨ row.kind = .read

/-- An access with an address touches a selected signal. -/
def Touches (signals : List Signal) (row : Row) : Prop :=
  IsAccess row ∧ 0 ≤ row.addr ∧
    ∃ s ∈ valuesOf signals, s.addr < row.addr.toNat + accessSize row ∧ row.addr.toNat < s.stop

/-- A watch-point hit of a slot. -/
def HitsSlot (row : Row) (slot : Nat) : Prop :=
  row.kind = .wps ∧ row.wp = slot ∨ row.kind = .wpm ∧ 0 ≤ row.wp ∧ row.wp.toNat.testBit slot

/-- What a timed row tells of the selection is in the values that it stores. -/
structure Plain (signals : List Signal) (row : Row) : Prop where
  stores : Touches signals row → 0 ≤ row.value
  values : IsAccess row → row.addr < 0 → 0 ≤ row.value → (valuesOf signals).length ≠ 1
  hits : ∀ s ∈ signals, s.kind = .hits → ¬HitsSlot row s.slot

variable {row : Row}

/-- Nothing of it is about hits. -/
theorem Selects.no_hit
    (selects : Selects signals ex)
    (plain : Plain signals row)
    (hit : row.kind = .wps) : ex.takeHit row.wp t = ex := by
  rw [Extractor.takeHit]
  by_cases known : 0 ≤ row.wp
  · rw [if_pos known]
    cases found : ex.hits.lookup row.wp.toNat with
    | none => rfl
    | some s =>
        obtain ⟨member, kind, slot⟩ := selects.hits _ _ found
        refine absurd (Or.inl ⟨hit, ?_⟩) (plain.hits s member kind)
        rw [slot]
        exact (Int.toNat_of_nonneg known).symm
  · rw [if_neg known]

theorem Selects.no_hits
    (selects : Selects signals ex)
    (plain : Plain signals row)
    (hit : row.kind = .wpm) : ex.takeHits row.wp t = ex := by
  rw [Extractor.takeHits]
  split_ifs with known
  · have missed : ∀ entry ∈ ex.hits.entries, ¬row.wp.toNat.testBit entry.1 := by
      intro entry member set
      obtain ⟨selected, kind, slot⟩ := selects.hits entry.1 entry.2
        (AList.mem_lookup_iff.mpr member)
      exact plain.hits entry.2 selected kind (Or.inr ⟨hit, known, slot.symm ▸ set⟩)
    have none (entries : List (Sigma fun _ : Nat => Signal))
        (missed : ∀ entry ∈ entries, ¬row.wp.toNat.testBit entry.1) :
        entries.foldl (fun (ex : Extractor floats) entry =>
          if row.wp.toNat.testBit entry.1 then ex.sample entry.2.id t (floats.ofInt 1)
          else ex) ex = ex := by
      induction entries with
      | nil => rfl
      | cons entry rest inductionHypothesis =>
          rw [List.foldl_cons, if_neg (missed entry List.mem_cons_self)]
          exact inductionHypothesis fun other member => missed other (List.mem_cons_of_mem _ member)
    exact none _ missed
  · rfl

theorem Selects.no_value
    (selects : Selects signals ex)
    (plain : Plain signals row)
    (access : IsAccess row)
    (dataOnly : row.addr < 0) : ex.takeValue row.value row.size t = ex.countUnmatched := by
  rw [Extractor.takeValue, Extractor.single]
  have length := selects.length
  cases values : ex.values with
  | nil => rfl
  | cons s rest =>
      cases rest with
      | cons _ _ => rfl
      | nil =>
          dsimp only
          rw [if_pos]
          by_contra known
          rw [values] at length
          exact plain.values access dataOnly (not_lt.mp known) length.symm

theorem Selects.touches_iff
    (selects : Selects signals ex)
    (access : IsAccess row)
    (addressed : 0 ≤ row.addr) :
    Touches signals row ↔
      ex.touched row.addr.toNat (row.addr.toNat + accessSize row) ≠ [] := by
  constructor
  · rintro ⟨-, -, s, member, below, above⟩
    exact List.ne_nil_of_mem
      (Extractor.mem_touched.mpr ⟨(selects.values s).mpr member, below, above⟩)
  · intro some
    obtain ⟨s, member⟩ := List.exists_mem_of_ne_nil _ some
    obtain ⟨inside, below, above⟩ := Extractor.mem_touched.mp member
    exact ⟨access, addressed, s, (selects.values s).mp inside, below, above⟩

/-- What a timed plain row does: it stores its value and samples what it touches, or
changes nothing but counts and the end of time. -/
theorem Selects.takeTimed
    (selects : Selects signals ex)
    (plain : Plain signals row) :
    (Touches signals row ∧ ∃ tEnd,
      ex.takeTimed row = (ex.touched row.addr.toNat (row.addr.toNat + accessSize row)).foldl
        (Extractor.sampleMemory (ex.seconds row.cycles))
        { ex with
          store := { ex.store with tEnd := tEnd }
          shadow := ex.shadow.write row.addr.toNat (toBytes (accessSize row) row.value.toNat) }) ∨
      ¬Touches signals row ∧ ∃ stats tEnd,
        ex.takeTimed row = { ex with stats := stats, store := { ex.store with tEnd := tEnd } } := by
  set tEnd := if floats.later (ex.seconds row.cycles) ex.store.tEnd then ex.seconds row.cycles
    else ex.store.tEnd with tEnd_def
  set ended : Extractor floats := { ex with store := { ex.store with tEnd := tEnd } } with ended_def
  have ended_selects : Selects signals ended :=
    ⟨selects.values, selects.length, selects.hits, selects.only⟩
  have other (no : ¬IsAccess row) : ¬Touches signals row := fun touches => no touches.1
  have access (isAccess : IsAccess row) :
      (Touches signals row ∧ ∃ tEnd, ended.takeAccess row (ex.seconds row.cycles) =
        (ex.touched row.addr.toNat (row.addr.toNat + accessSize row)).foldl
          (Extractor.sampleMemory (ex.seconds row.cycles))
          { ex with
            store := { ex.store with tEnd := tEnd }
            shadow := ex.shadow.write row.addr.toNat (toBytes (accessSize row) row.value.toNat) }) ∨
      ¬Touches signals row ∧ ∃ stats tEnd, ended.takeAccess row (ex.seconds row.cycles) =
        { ex with stats := stats, store := { ex.store with tEnd := tEnd } } := by
    rw [Extractor.takeAccess]
    by_cases dataOnly : row.addr < 0
    · rw [if_pos dataOnly, ended_selects.no_value plain isAccess dataOnly]
      exact Or.inr ⟨fun touches => absurd dataOnly (not_lt.mpr touches.2.1), _, tEnd, rfl⟩
    · rw [if_neg dataOnly, Extractor.takeStore]
      have iff := selects.touches_iff isAccess (not_lt.mp dataOnly)
      by_cases touches : Touches signals row
      · refine Or.inl ⟨touches, tEnd, ?_⟩
        have some : ended.touched row.addr.toNat
            (row.addr.toNat + if row.size = 0 then 4 else row.size) ≠ [] := iff.mp touches
        rw [if_neg some, if_neg (not_lt.mpr (plain.stores touches))]
        rfl
      · refine Or.inr ⟨touches, ended.countUnmatched.stats, tEnd, ?_⟩
        have none : ended.touched row.addr.toNat
            (row.addr.toNat + if row.size = 0 then 4 else row.size) = [] :=
          not_not.mp fun some => touches (iff.mpr some)
        rw [if_pos none]
        rfl
  rw [Extractor.takeTimed]
  cases kind : row.kind with
  | write => exact access (Or.inl kind)
  | read => exact access (Or.inr kind)
  | wps =>
      refine Or.inr ⟨other (by rw [IsAccess, kind]; decide), ex.stats, tEnd, ?_⟩
      exact ended_selects.no_hit plain kind
  | wpm =>
      refine Or.inr ⟨other (by rw [IsAccess, kind]; decide), ex.stats, tEnd, ?_⟩
      exact ended_selects.no_hits plain kind
  | evc => exact Or.inr ⟨other (by rw [IsAccess, kind]; decide), ex.stats, tEnd, rfl⟩
  | lost => exact Or.inr ⟨other (by rw [IsAccess, kind]; decide), ex.stats, tEnd, rfl⟩
  | gap => exact Or.inr ⟨other (by rw [IsAccess, kind]; decide), ex.stats, tEnd, rfl⟩

/-- The last samples do not change. -/
theorem Tracks.same
    {ex' : Extractor floats}
    (tracks : Tracks limit ex)
    (values : ex'.values = ex.values)
    (shadow : ex'.shadow = ex.shadow)
    (series : ex'.store.series = ex.store.series) : Tracks limit ex' := by
  refine ⟨?_, ?_, ?_⟩
  · rw [series]
    exact tracks.past
  · rw [values, series]
    intro s member
    rw [tracks.last s member, Extractor.current, Extractor.current, shadow]
  · rw [values, series]
    exact tracks.others

/-- A store of a value is sampled from the memory, where all of its signals are. -/
theorem Tracks.stored
    (tracks : Tracks limit ex)
    (distinct : (ex.values.map Signal.id).Nodup)
    (at_t : floats.upTo t limit)
    (tEnd : floats.Real)
    (addr : Nat) (raw : List Byte) :
    Tracks limit ((ex.touched addr (addr + raw.length)).foldl (Extractor.sampleMemory t)
      { ex with store := { ex.store with tEnd := tEnd }, shadow := ex.shadow.write addr raw }) := by
  set before : Extractor floats :=
    { ex with store := { ex.store with tEnd := tEnd }, shadow := ex.shadow.write addr raw }
  have past : ∀ sid, ∀ sample ∈ before.store.series sid, floats.upTo sample.1 limit := tracks.past
  have sublist : (ex.touched addr (addr + raw.length)).Sublist before.values := List.filter_sublist
  apply Tracks.sampled past tracks.others distinct sublist at_t
  · intro s member gone
    have before : ex.current s = none := Extractor.current_of_write s addr raw gone
    have last := tracks.last s (Extractor.mem_touched.mp member).1
    rw [before, lastValue, Option.map_eq_none_iff, List.getLast?_eq_none_iff] at last
    exact last
  · intro s member missed
    have apart : addr + raw.length ≤ s.addr ∨ s.addr + s.size ≤ addr := by
      by_contra touching
      rw [not_or, not_le, not_le] at touching
      exact missed (Extractor.mem_touched.mpr ⟨member, touching.1, touching.2⟩)
    refine (tracks.last s member).trans ?_
    rw [Extractor.current, Extractor.current]
    exact congrArg (fun read => (Option.bind read (s.decode floats)).map Value.toFloat)
      (Shadow.read_write_apart apart).symm

/-- A row that is plain if it is timed. -/
theorem Tracks.take
    (tracks : Tracks limit ex)
    (selects : Selects signals ex)
    (distinct : (ex.values.map Signal.id).Nodup)
    (begun : ex.t0 ≠ none)
    (plain : 0 ≤ row.cycles → Plain signals row)
    (at_t : 0 ≤ row.cycles → floats.upTo (ex.seconds row.cycles) limit) :
    Tracks limit (ex.take row) ∧ Selects signals (ex.take row) ∧
      (0 ≤ row.cycles ∧ Touches signals row → (ex.take row).shadow =
        ex.shadow.write row.addr.toNat (toBytes (accessSize row) row.value.toNat)) ∧
      (¬(0 ≤ row.cycles ∧ Touches signals row) → (ex.take row).shadow = ex.shadow) := by
  have selection := Extractor.take_selection begun row
  have selected {shadow : Shadow} (same : (ex.take row).shadow = shadow)
      (only : shadow.Only ex.values) : Selects signals (ex.take row) := by
    refine ⟨?_, ?_, ?_, ?_⟩
    · rw [selection.values]
      exact selects.values
    · rw [selection.values]
      exact selects.length
    · rw [selection.hits]
      exact selects.hits
    · rw [selection.values, same]
      exact only
  by_cases timed : TimedEvent row
  · have counted : Selects signals ex.countEvent :=
      ⟨selects.values, selects.length, selects.hits, selects.only⟩
    rcases counted.takeTimed (plain timed.1) with
      ⟨touches, tEnd, taken⟩ | ⟨untouched, stats, tEnd, taken⟩
    · have taken := (Extractor.take_timed begun timed).trans taken
      have length : (toBytes (accessSize row) row.value.toNat).length = accessSize row :=
        toBytes_length _ _
      have counted_tracks : Tracks limit ex.countEvent := tracks.same rfl rfl rfl
      have stored := counted_tracks.stored distinct
        (at_t timed.1) tEnd row.addr.toNat (toBytes (accessSize row) row.value.toNat)
      rw [length] at stored
      have shadow : (ex.take row).shadow =
          ex.shadow.write row.addr.toNat (toBytes (accessSize row) row.value.toNat) := by
        rw [taken]
        exact (Extractor.foldl_sampleMemory _ (distinct.sublist (List.filter_sublist.map _)) _).1
      refine ⟨taken ▸ stored, selected shadow ?_, fun _ => shadow,
        fun neither => absurd ⟨timed.1, touches⟩ neither⟩
      rw [Shadow.write_eq_put]
      exact selects.only.put _
    · have taken := (Extractor.take_timed begun timed).trans taken
      have shadow : (ex.take row).shadow = ex.shadow := by rw [taken]; rfl
      refine ⟨?_, selected shadow selects.only, fun both => absurd both.2 untouched,
        fun _ => shadow⟩
      rw [taken]
      exact tracks.same rfl rfl rfl
  · obtain ⟨stats, gaps, taken⟩ := Extractor.take_untimed begun timed
    have shadow : (ex.take row).shadow = ex.shadow := by rw [taken]
    refine ⟨?_, selected shadow selects.only, fun both => ?_, fun _ => shadow⟩
    · rw [taken]
      exact tracks.same rfl rfl rfl
    · obtain ⟨known, access, -⟩ := both
      refine absurd ?_ timed
      rcases access with kind | kind
      · exact ⟨known, by rw [kind]; decide, by rw [kind]; decide⟩
      · exact ⟨known, by rw [kind]; decide, by rw [kind]; decide⟩

end Signals
end TriCoreDap
