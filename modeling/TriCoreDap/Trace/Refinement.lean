import TriCoreDap.Trace.Reading

/-!
# The drain refines the reader on absolute numbers

One pass of `drainTo`, which sees the writer only modulo the buffer, publishes
and loses the paragraphs that `Follow.pass` does, provided the writer is less
than a lap past the next paragraph at the poll and moves by less than the
buffer between two pointer reads.
-/

namespace TriCoreDap
namespace Trace

/-- The drain's variables describe a reader. -/
structure Drain.Stands
    (drain : Drain)
    (tram : Tram)
    (reader : Follow.Reader) : Prop where
  fits : drain.Fits tram
  next_eq : drain.nextPar = reader.next % tram.totalPar
  pending_eq : drain.pendingLost = u32 reader.pending
  seq_lt : u32 drain.seq = drain.seq
  lost_lt : u32 drain.stats.lost = drain.stats.lost

/-- After a pass, the drain stands where the reader does and has published what
the reader has. -/
structure Drain.Follows
    (after before : Drain)
    (tram : Tram)
    (outcome : Follow.Outcome) : Prop where
  stands : after.Stands tram outcome.reader
  seq_eq : after.seq = u32 (before.seq + outcome.count)
  records_eq : after.records = before.records ++
    (List.range outcome.count).map
      (recordOf tram before.seq outcome.first (u32 outcome.lost))
  counted_eq : after.stats.lost = u32 (before.stats.lost + outcome.counted)

namespace Drain

variable {drain : Drain} {tram : Tram} {reader : Follow.Reader}
  {timeline : Timeline} {pass : Pass}

theorem Stands.noteOverruns
    (stands : drain.Stands tram reader) (ovr : Nat) :
    (drain.noteOverruns ovr).Stands tram reader := by
  unfold Drain.noteOverruns
  split
  · exact stands
  · exact ⟨⟨stands.fits.bot_eq, stands.fits.span_eq⟩, stands.next_eq,
      stands.pending_eq, stands.seq_lt, stands.lost_lt⟩

@[simp] theorem records_noteOverruns (drain : Drain) (ovr : Nat) :
    (drain.noteOverruns ovr).records = drain.records := by
  unfold noteOverruns
  split <;> rfl

@[simp] theorem seq_noteOverruns (drain : Drain) (ovr : Nat) :
    (drain.noteOverruns ovr).seq = drain.seq := by
  unfold noteOverruns
  split <;> rfl

@[simp] theorem statsLost_noteOverruns (drain : Drain) (ovr : Nat) :
    (drain.noteOverruns ovr).stats.lost = drain.stats.lost := by
  unfold noteOverruns
  split <;> rfl

/-- The writer is less than a lap past the reader's next paragraph. -/
structure WithinLap (tram : Tram) (reader : Follow.Reader) (writer : Nat) : Prop where
  behind : reader.next ≤ writer
  lap : writer < reader.next + tram.totalPar

theorem Stands.available_eq
    (stands : drain.Stands tram reader)
    (within : WithinLap tram reader writer) :
    (writer % tram.totalPar + drain.totalPar - drain.nextPar) % drain.totalPar =
      writer - reader.next := by
  rw [stands.fits.totalPar_eq, stands.next_eq]
  exact LapBuffer.distance_mod within.behind within.lap

/-- The lap test gives up everything unread. -/
theorem Stands.dropBehind_lapped
    (stands : drain.Stands tram reader)
    (sound : tram.Sound)
    (within : WithinLap tram reader writer)
    (lapped : tram.totalPar - 1 ≤ writer - reader.next ∧
      writer - reader.next ≠ 0) :
    drain.dropBehind (writer % tram.totalPar) =
      ({ drain.countLoss (writer - reader.next) with
         nextPar := writer % tram.totalPar }, 0,
        u32 (drain.pendingLost + (writer - reader.next))) := by
  have enough := sound.enough
  have kept : ¬drain.totalPar < 0 + traceMargin := by
    rw [stands.fits.totalPar_eq]
    omega
  have isLapped : drain.totalPar - 1 ≤ writer - reader.next ∧
      writer - reader.next ≠ 0 := by
    rwa [stands.fits.totalPar_eq]
  simp only [dropBehind, stands.available_eq within, if_pos isLapped, if_neg kept]

/-- The margin drop gives up the paragraphs the writer overwrites next. -/
theorem Stands.dropBehind_kept
    (stands : drain.Stands tram reader)
    (within : WithinLap tram reader writer)
    (kept : ¬(tram.totalPar - 1 ≤ writer - reader.next ∧
      writer - reader.next ≠ 0)) :
    let drop := writer - reader.next + traceMargin - tram.totalPar
    ∃ behind, drain.dropBehind (writer % tram.totalPar) =
        (behind, writer - reader.next - drop, u32 (reader.pending + drop)) ∧
      behind.Fits tram ∧ behind.nextPar = (reader.next + drop) % tram.totalPar ∧
      behind.seq = drain.seq ∧ behind.records = drain.records ∧
      behind.stats.lost = u32 (drain.stats.lost + drop) := by
  have notLapped : ¬(drain.totalPar - 1 ≤ writer - reader.next ∧
      writer - reader.next ≠ 0) := by
    rwa [stands.fits.totalPar_eq]
  simp only [dropBehind, stands.available_eq within, if_neg notLapped]
  rw [stands.fits.totalPar_eq]
  split
  · obtain ⟨drop, drop_eq⟩ :
        ∃ drop, drop = writer - reader.next + traceMargin - tram.totalPar := ⟨_, rfl⟩
    rw [← drop_eq, stands.pending_eq, u32_add_u32_left]
    refine ⟨{ drain.countLoss drop with
      nextPar := (drain.nextPar + drop) % tram.totalPar }, rfl, ?_, ?_, rfl, rfl, rfl⟩
    · exact ⟨stands.fits.bot_eq, stands.fits.span_eq⟩
    · simp [stands.next_eq]
  · next enough =>
      have none : writer - reader.next + traceMargin - tram.totalPar = 0 := by
        omega
      rw [none]
      exact ⟨drain, by simp [stands.pending_eq], stands.fits, stands.next_eq, rfl,
        rfl, stands.lost_lt.symm⟩

/-- The reading loop of a pass that drops `drop` paragraphs for the margin. -/
def reading
    (drain : Drain)
    (tram : Tram)
    (timeline : Timeline)
    (reader : Follow.Reader)
    (writer : Nat) : Reading :=
  let drop := writer - reader.next + traceMargin - tram.totalPar
  { tram, timeline
    first := reader.next + drop
    toRead := writer - reader.next - drop
    lost := u32 (reader.pending + drop)
    old := drain.records
    seq := drain.seq
    counted := u32 (drain.stats.lost + drop) }

/-- A reading loop that published its first `i` paragraphs and gave up no
others. -/
theorem follows_of_at
    {ended : Pass}
    (reached : (drain.reading tram timeline reader writer).At i ended)
    (count_eq : outcome.count = i)
    (first_eq : outcome.first =
      reader.next + (writer - reader.next + traceMargin - tram.totalPar))
    (lost_eq : outcome.lost =
      reader.pending + (writer - reader.next + traceMargin - tram.totalPar))
    (counted_eq : outcome.counted =
      writer - reader.next + traceMargin - tram.totalPar)
    (next_eq : outcome.reader.next = outcome.first + i)
    (pending_eq : outcome.reader.pending = if i = 0 then outcome.lost else 0) :
    Follows { ended.drain with pendingLost := ended.lost } drain tram outcome := by
  refine ⟨⟨⟨reached.fits.bot_eq, reached.fits.span_eq⟩, ?_, ?_, ?_, ?_⟩, ?_, ?_, ?_⟩
  · rw [next_eq, first_eq]
    exact reached.next_eq
  · rw [pending_eq, lost_eq]
    refine reached.lost_eq.trans ?_
    simp only [Reading.lostAt, reading]
    split <;> rfl
  · simp [reached.seq_eq]
  · simp [reached.counted_eq, reading]
  · rw [count_eq]
    exact reached.seq_eq
  · rw [count_eq, first_eq, lost_eq]
    exact reached.records_eq
  · rw [counted_eq]
    exact reached.counted_eq

/-- A reading loop that found its `i`-th paragraph torn. -/
theorem follows_of_tornAt
    {ended : Pass}
    (torn : (drain.reading tram timeline reader writer).TornAt i ended)
    (count_eq : outcome.count = i)
    (first_eq : outcome.first =
      reader.next + (writer - reader.next + traceMargin - tram.totalPar))
    (lost_eq : outcome.lost =
      reader.pending + (writer - reader.next + traceMargin - tram.totalPar))
    (counted_eq : outcome.counted =
      writer - reader.next + traceMargin - tram.totalPar +
        ((drain.reading tram timeline reader writer).toRead - i))
    (next_eq : outcome.reader.next = timeline.nowPar (i / nowEvery))
    (pending_eq : outcome.reader.pending = (if i = 0 then outcome.lost else 0) +
      ((drain.reading tram timeline reader writer).toRead - i)) :
    Follows { ended.drain with pendingLost := ended.lost } drain tram outcome := by
  refine ⟨⟨⟨torn.fits.bot_eq, torn.fits.span_eq⟩, ?_, ?_, ?_, ?_⟩, ?_, ?_, ?_⟩
  · rw [next_eq]
    exact torn.next_eq
  · rw [pending_eq, lost_eq]
    refine torn.lost_eq.trans ?_
    by_cases first : i = 0 <;> simp [Reading.lostAt, first, reading]
  · simp [torn.seq_eq]
  · simp [torn.counted_eq, reading]
  · rw [count_eq]
    exact torn.seq_eq
  · rw [count_eq, first_eq, lost_eq]
    exact torn.records_eq
  · rw [counted_eq, ← Nat.add_assoc, ← u32_add_u32_left]
    exact torn.counted_eq

/-- Once the lap test and the margin drop are done, the reading loop publishes
what the reader does. -/
theorem readChains_follows
    (sound : tram.Sound)
    (start_eq : start / wordsPerPar = writer)
    (within : WithinLap tram reader writer)
    (paced : timeline.Paced tram start)
    (tail : Nat → Nat)
    (position : (drain.reading tram timeline reader writer).At 0 pass)
    (pointer : (drain.reading tram timeline reader writer).Pointer 0 pass)
    (kept : ¬(tram.totalPar - 1 ≤ writer - reader.next ∧
      writer - reader.next ≠ 0)) :
    let toRead := writer - reader.next -
      (writer - reader.next + traceMargin - tram.totalPar)
    let ended := (readChains (timeline.link tram tail) toRead
      (tram.totalPar - toRead) toRead 0 pass).1
    Follows { ended.drain with pendingLost := ended.lost } drain tram
      (Follow.pass tram.totalPar reader writer timeline.nowPar timeline.fails) := by
  have behind := within.behind
  have lap := within.lap
  have enough := sound.enough
  have reads : (drain.reading tram timeline reader writer).Sound start := by
    refine ⟨sound, ?_, paced, ?_⟩
    · simp only [start_eq, Reading.writer, reading]
      omega
    · simp only [reading]
      omega
  obtain ⟨stop, ends, outcome⟩ := reads.readChains tail
    (drain.reading tram timeline reader writer).toRead 0 position pointer
    (Follow.Walked.zero _ _) (fun _ => by simp) (Nat.zero_le _) (by simp)
  have walk_eq : Follow.walk
      (Follow.intactAt tram.totalPar
        (reader.next + (writer - reader.next + traceMargin - tram.totalPar))
        timeline.nowPar) timeline.fails
      (writer - reader.next - (writer - reader.next + traceMargin - tram.totalPar))
      0 = stop := Follow.walk_eq_of_ends ends
  simp only [Follow.pass, if_neg kept, walk_eq]
  cases stop with
  | complete =>
      refine follows_of_at outcome.1 rfl rfl rfl rfl ?_ rfl
      simp only [reading]
      omega
  | failed i => exact follows_of_at outcome.1 rfl rfl rfl rfl rfl rfl
  | torn i => exact follows_of_tornAt outcome.1 rfl rfl rfl rfl rfl rfl

/-- A pass of the drain is a pass of the reader. -/
theorem drainTo_follows
    (stands : drain.Stands tram reader)
    (sound : tram.Sound)
    (points : tram.Points word start)
    (within : WithinLap tram reader (start / wordsPerPar))
    (paced : timeline.Paced tram start)
    (tail : Nat → Nat)
    (ovr : Nat) :
    (drain.drainTo (timeline.link tram tail) (word &&& ptrMask) ovr).1.Follows drain
      tram (Follow.pass tram.totalPar reader (start / wordsPerPar) timeline.nowPar
        timeline.fails) := by
  have noted := stands.noteOverruns ovr
  have nowPar_eq := noted.fits.parOf_points points
  by_cases lapped : tram.totalPar - 1 ≤ start / wordsPerPar - reader.next ∧
      start / wordsPerPar - reader.next ≠ 0
  · simp only [drainTo, nowPar_eq, noted.dropBehind_lapped sound within lapped,
      Follow.pass, if_pos lapped, readChains, if_true]
    refine ⟨⟨⟨noted.fits.bot_eq, noted.fits.span_eq⟩, rfl, ?_, ?_, ?_⟩, ?_, ?_, ?_⟩
    · simp [noted.pending_eq]
    · exact noted.seq_lt
    · simp [countLoss]
    · simpa [countLoss] using stands.seq_lt.symm
    · simpa [countLoss, records] using records_noteOverruns drain ovr
    · simp [countLoss]
  · obtain ⟨behind, behind_eq, fits, next_eq, seq_eq, records_eq, counted_eq⟩ :=
      noted.dropBehind_kept within lapped
    rw [seq_noteOverruns] at seq_eq
    rw [records_noteOverruns] at records_eq
    rw [statsLost_noteOverruns] at counted_eq
    have ahead : reader.next +
        (start / wordsPerPar - reader.next + traceMargin - tram.totalPar) +
        (start / wordsPerPar - reader.next -
          (start / wordsPerPar - reader.next + traceMargin - tram.totalPar)) =
        start / wordsPerPar := by
      have := within.behind
      have := within.lap
      have := sound.enough
      omega
    simp only [drainTo, nowPar_eq, behind_eq, noted.fits.totalPar_eq]
    refine readChains_follows sound rfl within paced tail ?_ ?_ lapped
    · constructor
      · split <;> exact ⟨fits.bot_eq, fits.span_eq⟩
      · rfl
      · rfl
      · split <;> exact next_eq
      · split <;> exact seq_eq.trans stands.seq_lt.symm
      · split <;> exact records_eq.trans (List.append_nil _).symm
      · split <;> exact counted_eq
    · constructor
      · simp [Reading.seenPar]
      · simp only [Reading.seenPar, Reading.writer, reading, if_true, ahead]

end Drain
end Trace
end TriCoreDap
