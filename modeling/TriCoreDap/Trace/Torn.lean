import TriCoreDap.Trace.Refinement

/-!
# No torn paragraph is published

A paragraph handed to `publish` was complete at the poll and had not been
re-entered by the writer at the pointer read after its group, so that all its
words are of one paragraph.
-/

namespace TriCoreDap
namespace Trace

namespace Follow

variable {reader : Reader} {nowPar : Nat → Nat} {fails : Nat → Bool}

/-- What a pass publishes is intact and was complete at the poll. -/
theorem pass_intact
    (indexLt : i < (pass total reader writer nowPar fails).count) :
    nowPar (i / nowEvery) <
        (pass total reader writer nowPar fails).first + i + total ∧
      (pass total reader writer nowPar fails).first + i < writer := by
  unfold pass at indexLt ⊢
  by_cases lapped : total - 1 ≤ writer - reader.next ∧ writer - reader.next ≠ 0
  · simp [lapped] at indexLt
  · simp only [if_neg lapped] at indexLt ⊢
    have ends := ends_walk
      (writer - reader.next - (writer - reader.next + traceMargin - total)) 0
      (Walked.zero
        (intactAt total
          (reader.next + (writer - reader.next + traceMargin - total)) nowPar) fails)
    rw [Nat.zero_add] at ends
    revert indexLt ends
    cases walk (intactAt total
        (reader.next + (writer - reader.next + traceMargin - total)) nowPar) fails
        (writer - reader.next - (writer - reader.next + traceMargin - total)) 0 with
    | complete =>
        intro indexLt walked
        exact ⟨of_decide_eq_true (walked.intact_lt i indexLt), by simp at *; omega⟩
    | failed k =>
        rintro indexLt ⟨bound, walked, -⟩
        exact ⟨of_decide_eq_true (walked.intact_lt i indexLt), by simp at *; omega⟩
    | torn k =>
        rintro indexLt ⟨bound, walked, -⟩
        exact ⟨of_decide_eq_true (walked.intact_lt i indexLt), by simp at *; omega⟩

end Follow

namespace Drain

variable {drain : Drain} {tram : Tram} {timeline : Timeline}

/-- The `uint32_t` variables of the drain hold 32-bit values. -/
structure Bounded (drain : Drain) : Prop where
  pendingLost_lt : drain.pendingLost < 2 ^ 32
  seq_lt : drain.seq < 2 ^ 32
  lost_lt : drain.stats.lost < 2 ^ 32

/-- The `i`-th record a pass adds. -/
theorem Follows.record_eq
    {after before : Drain}
    (follows : after.Follows before tram outcome)
    (published : after.records[before.records.length + i]? = some record) :
    i < outcome.count ∧
      record = recordOf tram before.seq outcome.first (u32 outcome.lost) i := by
  rw [follows.records_eq, List.getElem?_append_right (by omega),
    Nat.add_sub_cancel_left] at published
  obtain ⟨k, member, rfl⟩ := List.getElem?_map .. ▸ published |> Option.map_eq_some_iff.mp
  obtain ⟨bound, rfl⟩ := List.getElem?_eq_some_iff.mp member
  simp only [List.length_range] at bound
  exact ⟨bound, by simp⟩

/-- In every drain pass, whatever the writer does less than a lap ahead of the
reader and less than a lap between two pointer reads, the `i`-th paragraph
handed to `publish` is one whole paragraph of the writer's that the writer had
not re-entered at the pointer read after the paragraph's group. -/
theorem drainTo_publishes_no_torn_paragraph
    (sound : tram.Sound)
    (bounded : drain.Bounded)
    (fits : drain.Fits tram)
    (next_eq : drain.nextPar = next % tram.totalPar)
    (points : tram.Points word start)
    (behind : next ≤ start / wordsPerPar)
    (withinLap : start / wordsPerPar < next + tram.totalPar)
    (paced : timeline.Paced tram start)
    (tail : Nat → Nat)
    (ovr : Nat)
    (published : (drain.drainTo (timeline.link tram tail)
      (word &&& ptrMask) ovr).1.records[drain.records.length + i]? = some record) :
    ∃ a, a < start / wordsPerPar ∧
      timeline.nowTime (i / nowEvery) / wordsPerPar < a + tram.totalPar ∧
      record.words = tram.paragraphWords a := by
  have stands : drain.Stands tram { next := next, pending := drain.pendingLost } :=
    ⟨fits, next_eq, (Nat.mod_eq_of_lt bounded.pendingLost_lt).symm,
      Nat.mod_eq_of_lt bounded.seq_lt, Nat.mod_eq_of_lt bounded.lost_lt⟩
  have follows := drainTo_follows stands sound points ⟨behind, withinLap⟩ paced
    tail ovr
  obtain ⟨indexLt, rfl⟩ := follows.record_eq published
  obtain ⟨notReached, complete⟩ := Follow.pass_intact indexLt
  exact ⟨_, complete, notReached, rfl⟩

/-- A drain of the counting trace memory that has read nothing. -/
def counting : Drain where
  bot := 0
  span := 0x2000
  nextPar := 0
  lastOvrcnt := 0
  pendingLost := 0
  seq := 0
  running := true
  polls := 0
  ringBytes := 0x400000
  ringHead := 0
  published := []
  stats := {}

/-- A pass from `start` on, in which the writer writes 150 words while a paragraph is
read. -/
def advancing (start : Nat) : Timeline where
  paragraphTime i _ := start + 150 * i
  nowTime g := start + 150 * (nowEvery * (g + 1))
  nowWord g := 4 * (start + 150 * (nowEvery * (g + 1)))
  fails _ := false

theorem advancing_paced (start : Nat) : (advancing start).Paced .counting start where
  read_after _ _ := Nat.le_add_right _ _
  read_before i _ := by
    have within : i ≤ nowEvery * (i / nowEvery + 1) := by
      rw [nowEvery]
      omega
    exact Nat.add_le_add_left (Nat.mul_le_mul_left 150 within) start
  now_after := Nat.le_add_right _ _
  now_mono g := by
    simp only [advancing, nowEvery]
    omega
  points g := Tram.counting_points _
  pace_first := by
    simp only [advancing, nowEvery, wordsPerPar_eq, Tram.totalPar_counting]
    omega
  pace g := by
    simp only [advancing, nowEvery, wordsPerPar_eq, Tram.totalPar_counting]
    omega

/-- The fifth record of a pass over the first five paragraphs, which the writer goes on
from in the meantime. -/
theorem drainTo_publishes_no_torn_paragraph_counting :
    ∃ record,
      (counting.drainTo ((advancing 1400).link .counting fun _ => 0)
        (4 * 1400 &&& ptrMask) 0).1.records[0 + 4]? = some record ∧
      ∃ a, a < 1400 / wordsPerPar ∧
        (advancing 1400).nowTime (4 / nowEvery) / wordsPerPar < a + 8 ∧
          record.words = Tram.counting.paragraphWords a := by
  have published : ((counting.drainTo ((advancing 1400).link .counting fun _ => 0)
      (4 * 1400 &&& ptrMask) 0).1.records[0 + 4]?).isSome = true := by
    decide +kernel
  obtain ⟨record, record_eq⟩ := Option.isSome_iff_exists.mp published
  refine ⟨record, record_eq, ?_⟩
  have next_eq : counting.nextPar = 0 % Tram.counting.totalPar := rfl
  exact drainTo_publishes_no_torn_paragraph Tram.counting_sound
    ⟨by decide, by decide, by decide⟩ ⟨rfl, rfl⟩ next_eq
    (Tram.counting_points 1400) (by decide) (by decide) (advancing_paced 1400)
    (fun _ => 0) 0 record_eq

end Drain
end Trace
end TriCoreDap
