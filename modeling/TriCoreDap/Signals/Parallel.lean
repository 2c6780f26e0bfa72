import TriCoreDap.Signals.Batches
import TriCoreDap.Signals.Pipeline

/-!
# Extractors side by side

Two extractors with one selection, one memory and one time zero add the same samples
for the same rows, whatever samples they start with.
-/

namespace TriCoreDap
namespace Signals

open Decode (Row Kind)

variable {floats : Floats}

/-- A row that can give samples. -/
def TimedEvent (row : Row) : Prop := 0 ≤ row.cycles ∧ row.kind ≠ .gap ∧ row.kind ≠ .lost

namespace Extractor

variable {ex : Extractor floats} {row : Row}

def countEvent (ex : Extractor floats) : Extractor floats :=
  { ex with stats := { ex.stats with events := ex.stats.events + 1 } }

/-- The rounds of `feed_rows` without the count, for an extractor where time has begun. -/
theorem take_begun (begun : ex.t0 ≠ none) (row : Row) : ex.take row =
    if row.kind = .gap then
      { ex.countEvent with stats := { ex.countEvent.stats with
        gaps := ex.countEvent.stats.gaps + 1 } }.addGap ex.store.tEnd
    else if row.kind = .lost then
      { ex.countEvent with stats := { ex.countEvent.stats with
        lost := ex.countEvent.stats.lost + row.count.toNat } }.addGap
          (if row.cycles < 0 then ex.store.tEnd else ex.seconds row.cycles)
    else if row.cycles < 0 then
      { ex.countEvent with stats := { ex.countEvent.stats with
        untimed := ex.countEvent.stats.untimed + 1 } }
    else ex.countEvent.takeTimed row := by
  have started : ∀ next, ex.countEvent.start row.cycles = next → ex.take row =
      if row.kind = .gap then
        { ex.countEvent with stats := { ex.countEvent.stats with
          gaps := ex.countEvent.stats.gaps + 1 } }.addGap ex.store.tEnd
      else if row.kind = .lost then
        { next with stats := { next.stats with lost := next.stats.lost + row.count.toNat } }.addGap
          (if row.cycles < 0 then next.store.tEnd else next.seconds row.cycles)
      else if row.cycles < 0 then
        { next with stats := { next.stats with untimed := next.stats.untimed + 1 } }
      else next.takeTimed row := by
    rintro next rfl
    rfl
  exact started _ (if_neg fun first => begun first.1)

/-- A timed event. -/
theorem take_timed (begun : ex.t0 ≠ none) (timed : TimedEvent row) :
    ex.take row = ex.countEvent.takeTimed row := by
  rw [take_begun begun, if_neg timed.2.1, if_neg timed.2.2, if_neg (not_lt.mpr timed.1)]

/-- Other rows change nothing but counts and gaps. -/
theorem take_untimed (begun : ex.t0 ≠ none) (untimed : ¬TimedEvent row) : ∃ stats gaps,
    ex.take row = { ex with stats := stats, store := { ex.store with gaps := gaps } } := by
  rw [take_begun begun]
  split_ifs with gap lost early early
  · exact ⟨_, _, rfl⟩
  · exact ⟨_, _, rfl⟩
  · exact ⟨_, _, rfl⟩
  · exact ⟨_, ex.store.gaps, rfl⟩
  · exact absurd ⟨not_lt.mp early, gap, lost⟩ untimed

theorem take_selection (begun : ex.t0 ≠ none) (row : Row) : SameSelection ex (ex.take row) := by
  by_cases timed : TimedEvent row
  · have counted : SameSelection ex ex.countEvent := ⟨rfl, rfl, rfl, rfl⟩
    rw [take_timed begun timed]
    exact counted.trans (takeTimed_selection _ _)
  · obtain ⟨stats, gaps, same⟩ := take_untimed begun timed
    rw [same]
    exact ⟨rfl, rfl, rfl, rfl⟩

end Extractor

/-- Samples for each series. -/
abbrev Samples (floats : Floats) := String → List (floats.Real × floats.Real)

/-- The extractors are alike, and have the same samples behind those they started with. -/
structure Parallel (pre pre' : Samples floats) (ex ex' : Extractor floats) : Prop where
  values : ex'.values = ex.values
  hits : ex'.hits = ex.hits
  hz : ex'.hz = ex.hz
  t0 : ex'.t0 = ex.t0
  shadow : ex'.shadow = ex.shadow
  series : ∃ more : Samples floats, ∀ sid,
    ex.store.series sid = pre sid ++ more sid ∧ ex'.store.series sid = pre' sid ++ more sid

namespace Parallel

variable {pre pre' : Samples floats} {ex ex' : Extractor floats}

theorem start
    (values : ex'.values = ex.values)
    (hits : ex'.hits = ex.hits)
    (hz : ex'.hz = ex.hz)
    (t0 : ex'.t0 = ex.t0)
    (shadow : ex'.shadow = ex.shadow) : Parallel ex.store.series ex'.store.series ex ex' :=
  ⟨values, hits, hz, t0, shadow, fun _ => [], fun _ =>
    ⟨(List.append_nil _).symm, (List.append_nil _).symm⟩⟩

theorem sample (parallel : Parallel pre pre' ex ex') (sid : String) (t v : floats.Real) :
    Parallel pre pre' (ex.sample sid t v) (ex'.sample sid t v) := by
  obtain ⟨more, series⟩ := parallel.series
  refine ⟨parallel.values, parallel.hits, parallel.hz, parallel.t0, parallel.shadow,
    Function.update more sid (more sid ++ [(t, v)]), fun other => ?_⟩
  obtain ⟨first, second⟩ := series other
  by_cases same : other = sid
  · subst same
    refine ⟨(Function.update_self _ _ _).trans ?_, (Function.update_self _ _ _).trans ?_⟩
    · rw [Function.update_self, first, List.append_assoc]
    · rw [Function.update_self, second, List.append_assoc]
  · refine ⟨(Function.update_of_ne same _ _).trans ?_, (Function.update_of_ne same _ _).trans ?_⟩
    · rw [Function.update_of_ne same, first]
    · rw [Function.update_of_ne same, second]

theorem foldl
    {α : Type}
    {step : Extractor floats → α → Extractor floats}
    (each : ∀ ex ex' x, Parallel pre pre' ex ex' → Parallel pre pre' (step ex x) (step ex' x))
    (xs : List α)
    (parallel : Parallel pre pre' ex ex') :
    Parallel pre pre' (xs.foldl step ex) (xs.foldl step ex') := by
  induction xs generalizing ex ex' with
  | nil => exact parallel
  | cons x rest inductionHypothesis => exact inductionHypothesis (each ex ex' x parallel)

theorem sampleMemory (parallel : Parallel pre pre' ex ex') (t : floats.Real) (s : Signal) :
    Parallel pre pre' (ex.sampleMemory t s) (ex'.sampleMemory t s) := by
  rw [Extractor.sampleMemory, Extractor.sampleMemory, parallel.shadow]
  cases (ex.shadow.read s.addr s.size).bind (s.decode floats) with
  | none => exact parallel
  | some v => exact parallel.sample _ _ _

theorem takeValue
    (parallel : Parallel pre pre' ex ex')
    (value : Int) (size : Nat) (t : floats.Real) :
    Parallel pre pre' (ex.takeValue value size t) (ex'.takeValue value size t) := by
  have counted : Parallel pre pre' ex.countUnmatched ex'.countUnmatched :=
    ⟨parallel.values, parallel.hits, parallel.hz, parallel.t0, parallel.shadow, parallel.series⟩
  rw [Extractor.takeValue, Extractor.takeValue, Extractor.single, Extractor.single, parallel.values]
  cases ex.values with
  | nil => exact counted
  | cons s rest =>
      cases rest with
      | cons _ _ => exact counted
      | nil =>
          dsimp only
          split_ifs
          · exact counted
          · exact parallel.sample _ _ _

theorem takeStore
    (parallel : Parallel pre pre' ex ex')
    (addr : Nat) (value : Int) (size : Nat) (t : floats.Real) :
    Parallel pre pre' (ex.takeStore addr value size t) (ex'.takeStore addr value size t) := by
  have touched : ex'.touched addr (addr + size) = ex.touched addr (addr + size) := by
    rw [Extractor.touched, parallel.values]
    rfl
  rw [Extractor.takeStore, Extractor.takeStore, touched, parallel.shadow]
  split_ifs
  · exact ⟨parallel.values, parallel.hits, parallel.hz, parallel.t0, parallel.shadow,
      parallel.series⟩
  · apply foldl _ _ parallel
    exact fun ex ex' s parallel => parallel.sample _ _ _
  · apply foldl fun ex ex' s parallel => parallel.sampleMemory t s
    exact ⟨parallel.values, parallel.hits, parallel.hz, parallel.t0, rfl, parallel.series⟩

theorem takeHit (parallel : Parallel pre pre' ex ex') (slot : Int) (t : floats.Real) :
    Parallel pre pre' (ex.takeHit slot t) (ex'.takeHit slot t) := by
  rw [Extractor.takeHit, Extractor.takeHit, parallel.hits]
  cases (if 0 ≤ slot then ex.hits.lookup slot.toNat else none) with
  | none => exact parallel
  | some s => exact parallel.sample _ _ _

theorem takeHits (parallel : Parallel pre pre' ex ex') (set : Int) (t : floats.Real) :
    Parallel pre pre' (ex.takeHits set t) (ex'.takeHits set t) := by
  rw [Extractor.takeHits, Extractor.takeHits, parallel.hits]
  split_ifs
  · apply foldl _ _ parallel
    intro ex ex' entry parallel
    split_ifs
    · exact parallel.sample _ _ _
    · exact parallel
  · exact parallel

theorem takeTimed (parallel : Parallel pre pre' ex ex') (row : Row) :
    Parallel pre pre' (ex.takeTimed row) (ex'.takeTimed row) := by
  have seconds : ex'.seconds row.cycles = ex.seconds row.cycles := by
    rw [Extractor.seconds, Extractor.seconds, parallel.hz, parallel.t0]
  have ended (tEnd tEnd' : floats.Real) : Parallel pre pre'
      { ex with store := { ex.store with tEnd := tEnd } }
      { ex' with store := { ex'.store with tEnd := tEnd' } } :=
    ⟨parallel.values, parallel.hits, parallel.hz, parallel.t0, parallel.shadow, parallel.series⟩
  have access (t tEnd tEnd' : floats.Real) : Parallel pre pre'
      (Extractor.takeAccess { ex with store := { ex.store with tEnd := tEnd } } row t)
      (Extractor.takeAccess { ex' with store := { ex'.store with tEnd := tEnd' } } row t) := by
    rw [Extractor.takeAccess, Extractor.takeAccess]
    split_ifs
    · exact (ended tEnd tEnd').takeValue _ _ _
    · exact (ended tEnd tEnd').takeStore _ _ _ _
    · exact (ended tEnd tEnd').takeStore _ _ _ _
  rw [Extractor.takeTimed, Extractor.takeTimed, seconds]
  cases row.kind with
  | write => exact access _ _ _
  | read => exact access _ _ _
  | wps => exact (ended _ _).takeHit _ _
  | wpm => exact (ended _ _).takeHits _ _
  | _ => exact ended _ _

/-- After time zero, the same row adds the same samples. -/
theorem take (parallel : Parallel pre pre' ex ex') (begun : ex.t0 ≠ none) (row : Row) :
    Parallel pre pre' (ex.take row) (ex'.take row) := by
  have counted : Parallel pre pre' ex.countEvent ex'.countEvent :=
    ⟨parallel.values, parallel.hits, parallel.hz, parallel.t0, parallel.shadow, parallel.series⟩
  have begun' : ex'.t0 ≠ none := parallel.t0 ▸ begun
  by_cases timed : TimedEvent row
  · rw [Extractor.take_timed begun timed, Extractor.take_timed begun' timed]
    exact counted.takeTimed row
  · obtain ⟨stats, gaps, same⟩ := Extractor.take_untimed begun timed
    obtain ⟨stats', gaps', same'⟩ := Extractor.take_untimed begun' timed
    rw [same, same']
    exact ⟨parallel.values, parallel.hits, parallel.hz, parallel.t0, parallel.shadow,
      parallel.series⟩

theorem foldl_take
    (parallel : Parallel pre pre' ex ex')
    (begun : ex.t0 ≠ none)
    (rows : List Row) :
    Parallel pre pre' (rows.foldl Extractor.take ex) (rows.foldl Extractor.take ex') := by
  induction rows generalizing ex ex' with
  | nil => exact parallel
  | cons row rest inductionHypothesis =>
      apply inductionHypothesis (parallel.take begun row)
      rw [(Extractor.take_selection begun row).t0]
      exact begun

end Parallel
end Signals
end TriCoreDap
