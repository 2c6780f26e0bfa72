import TriCoreDap.Decode.Gap

/-!
# Dropped paragraphs

After a paragraph was dropped, the decoder is as if it had not been there: no
base is known, and of its messages nothing is left but statistics and, where the
time is not known anyway, the count of ticks.
-/

namespace TriCoreDap
namespace Decode

variable {settings : Settings} {tickMode final gap : Bool} {s s' : Scan}
  {d d' : Decoder settings} {par par' : Paragraph}

/-- Decoders that give the same rows from here on: they differ in statistics,
and in the ticks while the time is not known. -/
structure Decoder.Alike (d d' : Decoder settings) : Prop where
  clock : d.clock.Shifted 0 d'.clock
  bases : d'.bases = d.bases
  prevFirst : d'.prevFirst = d.prevFirst
  interval : d'.interval = d.interval
  intervals : d'.intervals = d.intervals

/-- The paragraph is found torn. -/
def Decoder.FindsTorn (d : Decoder settings) (par : Paragraph) : Prop :=
  let entered := d.entered par.bytes par.gap
  entered.tears (scan settings.tickMode par.final (fromBytes par.bytes) (8 * par.bytes.length)
    entered.clock entered.bases) = true

instance (d : Decoder settings) (par : Paragraph) : Decidable (d.FindsTorn par) :=
  inferInstanceAs (Decidable (_ = true))

theorem Decoder.findsTorn_iff (d : Decoder settings) (par : Paragraph) :
    d.FindsTorn par ↔ (d.scanOf par.bytes par.gap par.final).Dropped := by
  rw [Decoder.FindsTorn, Decoder.tears_iff, scan_eq_foldl, Decoder.scanOf]

/-! ## Decoders that are alike -/

theorem Clock.Shifted.of_unknown
    {clock other : Clock}
    (tsr : other.tsr = clock.tsr)
    (epoch : other.epoch = clock.epoch)
    (unknown : clock.Unknown)
    (otherUnknown : other.Unknown) : clock.Shifted 0 other where
  tsr := tsr
  epoch := by rw [epoch, add_zero]
  tsrOk := otherUnknown.2.trans unknown.2.symm
  base := Or.inl ⟨unknown.1, otherUnknown.1⟩

theorem Clock.Shifted.epoch_eq {clock other : Clock} (shifted : clock.Shifted 0 other) :
    other.epoch = clock.epoch := by
  have epoch := shifted.epoch
  omega

theorem Clock.unknown_reset (clock : Clock) : clock.reset.Unknown :=
  ⟨by simp [Clock.reset], rfl⟩

namespace Decoder

theorem Alike.gapBefore (alike : d.Alike d') (bytes : List Byte) (gap : Bool) :
    d'.gapBefore bytes gap = d.gapBefore bytes gap := by
  have jumped (tsr value : Nat) : d'.jumped tsr value = d.jumped tsr value := by
    rw [Decoder.jumped, alike.interval, Decoder.jumped]
  have lapped : d'.lapped (fromBytes bytes) (8 * bytes.length) =
      d.lapped (fromBytes bytes) (8 * bytes.length) := by
    rw [Decoder.lapped, alike.clock.tsr, alike.clock.tsrOk, alike.intervals, Decoder.lapped]
    simp only [jumped]
  simp only [Decoder.gapBefore, Decoder.enter, lapped]

theorem Alike.entered (alike : d.Alike d') (bytes : List Byte) (gap : Bool) :
    (d.entered bytes gap).Alike (d'.entered bytes gap) := by
  obtain ⟨prevFirst, interval, intervals⟩ := d.entered_measures bytes gap
  obtain ⟨prevFirst', interval', intervals'⟩ := d'.entered_measures bytes gap
  have measures : (d'.entered bytes gap).prevFirst = (d.entered bytes gap).prevFirst ∧
      (d'.entered bytes gap).interval = (d.entered bytes gap).interval ∧
        (d'.entered bytes gap).intervals = (d.entered bytes gap).intervals := by
    rw [prevFirst, prevFirst', interval, interval', intervals, intervals']
    exact ⟨alike.prevFirst, alike.interval, alike.intervals⟩
  cases before : d.gapBefore bytes gap with
  | true =>
      obtain ⟨clock, bases⟩ := entered_gap before
      obtain ⟨clock', bases'⟩ := entered_gap ((alike.gapBefore bytes gap).trans before)
      refine ⟨?_, bases'.trans bases.symm, measures.1, measures.2.1, measures.2.2⟩
      rw [clock, clock']
      exact .of_unknown alike.clock.tsr alike.clock.epoch_eq (Clock.unknown_reset _)
        (Clock.unknown_reset _)
  | false =>
      obtain ⟨clock, bases⟩ := entered_continuing before
      obtain ⟨clock', bases'⟩ := entered_continuing ((alike.gapBefore bytes gap).trans before)
      refine ⟨?_, ?_, measures.1, measures.2.1, measures.2.2⟩
      · rw [clock, clock']
        exact alike.clock
      · rw [bases, bases']
        exact alike.bases

/-- The scans differ in the clock only. -/
theorem Alike.scanOf (alike : d.Alike d') (bytes : List Byte) (gap final : Bool) :
    ∃ clock, d'.scanOf bytes gap final = { d.scanOf bytes gap final with clock := clock } ∧
      (d.scanOf bytes gap final).clock.Shifted 0 clock := by
  have entered := alike.entered bytes gap
  have shifted : (Scan.start (d.entered bytes gap).clock (d.entered bytes gap).bases).clock.Shifted 0
      (d'.entered bytes gap).clock := entered.clock
  obtain ⟨clock, same, shifted⟩ := foldl_shifted settings.tickMode final (parseParagraph bytes)
    shifted
  refine ⟨clock, ?_, shifted⟩
  have start : Scan.start (d'.entered bytes gap).clock (d'.entered bytes gap).bases =
      (Scan.start (d.entered bytes gap).clock (d.entered bytes gap).bases).retimed 0
        (d'.entered bytes gap).clock := by
    rw [entered.bases]
    rfl
  rw [Decoder.scanOf, start, same, Scan.retimed, Row.shift_zero, List.map_id]
  simp only [add_zero, Option.map_id']
  rfl

theorem Alike.measure
    (alike : d.Alike d')
    (gap : Bool)
    (first : Option Int) : (d.measure gap first).Alike (d'.measure gap first) := by
  obtain ⟨clock, bases, prevFirst, interval, intervals⟩ := alike
  cases first with
  | none => exact ⟨clock, bases, prevFirst, interval, intervals⟩
  | some first =>
      simp only [Decoder.measure, prevFirst, interval, intervals]
      cases d.prevFirst with
      | none => exact ⟨clock, bases, rfl, interval, intervals⟩
      | some previous =>
          simp only
          split_ifs
          · exact ⟨clock, bases, rfl, rfl, rfl⟩
          · exact ⟨clock, bases, rfl, interval, intervals⟩

/-- Rewinding forgets the bases and the time. -/
theorem rewind_spec (saved : Decoder settings) (s : Scan) :
    (saved.rewind s).bases = .unknown ∧ (saved.rewind s).clock.Unknown ∧
      (saved.rewind s).clock.tsr = saved.clock.tsr ∧
        (saved.rewind s).clock.epoch = saved.clock.epoch ∧
          (saved.rewind s).prevFirst = none ∧ (saved.rewind s).interval = saved.interval ∧
            (saved.rewind s).intervals = saved.intervals :=
  ⟨rfl, ⟨by simp [Decoder.rewind], rfl⟩, rfl, rfl, rfl, rfl, rfl⟩

theorem Alike.rewind
    (tsr : d'.clock.tsr = d.clock.tsr)
    (epoch : d'.clock.epoch = d.clock.epoch)
    (interval : d'.interval = d.interval)
    (intervals : d'.intervals = d.intervals)
    (s s' : Scan) : (d.rewind s).Alike (d'.rewind s') where
  clock := .of_unknown tsr epoch (d.rewind_spec s).2.1 (d'.rewind_spec s').2.1
  bases := rfl
  prevFirst := rfl
  interval := interval
  intervals := intervals

/-- A paragraph gives the same rows from decoders that are alike, and leaves
them so. -/
theorem Alike.rows (alike : d.Alike d') (bytes : List Byte) (gap final : Bool) :
    (d'.rows bytes gap final).1 = (d.rows bytes gap final).1 ∧
      (d.rows bytes gap final).2.Alike (d'.rows bytes gap final).2 := by
  obtain ⟨clock, scan, shifted⟩ := alike.scanOf bytes gap final
  have entered := alike.entered bytes gap
  have same : (d'.scanOf bytes gap final).Dropped ↔ (d.scanOf bytes gap final).Dropped := by
    rw [scan]
    rfl
  rw [d.rows_eq, d'.rows_eq, alike.gapBefore]
  by_cases dropped : (d.scanOf bytes gap final).Dropped
  · rw [if_pos dropped, if_pos (same.mpr dropped)]
    exact ⟨rfl, .rewind entered.clock.tsr entered.clock.epoch_eq entered.interval
      entered.intervals _ _⟩
  · rw [if_neg dropped, if_neg (mt same.mp dropped), scan]
    refine ⟨rfl, ?_⟩
    apply Alike.measure
    exact ⟨shifted, rfl, entered.prevFirst, entered.interval, entered.intervals⟩

theorem Alike.run (alike : d.Alike d') (paragraphs : List Paragraph) :
    (d'.run paragraphs).1 = (d.run paragraphs).1 := by
  induction paragraphs generalizing d d' with
  | nil => rfl
  | cons par rest inductionHypothesis =>
      obtain ⟨rows, next⟩ := alike.rows par.bytes par.gap par.final
      simp only [Decoder.run, rows, inductionHypothesis next]

/-! ## After a dropped paragraph -/

/-- The last TSR and its epoch are those of before the paragraph. -/
theorem entered_tsr (d : Decoder settings) (bytes : List Byte) (gap : Bool) :
    (d.entered bytes gap).clock.tsr = d.clock.tsr ∧
      (d.entered bytes gap).clock.epoch = d.clock.epoch := by
  cases before : d.gapBefore bytes gap with
  | true =>
      rw [(entered_gap before).1]
      exact ⟨rfl, rfl⟩
  | false =>
      rw [(entered_continuing before).1]
      exact ⟨rfl, rfl⟩

theorem rows_of_torn (torn : d.FindsTorn par) :
    d.rows par.bytes par.gap par.final =
      (gapRows (d.gapBefore par.bytes par.gap) ++ [gapRow],
        (d.entered par.bytes par.gap).rewind (d.scanOf par.bytes par.gap par.final)) := by
  rw [d.rows_eq, if_pos ((d.findsTorn_iff par).mp torn)]

theorem alike_of_torn
    (tsr : d'.clock.tsr = d.clock.tsr)
    (epoch : d'.clock.epoch = d.clock.epoch)
    (interval : d'.interval = d.interval)
    (intervals : d'.intervals = d.intervals)
    (torn : d.FindsTorn par)
    (torn' : d'.FindsTorn par') :
    (d.rows par.bytes par.gap par.final).2.Alike (d'.rows par'.bytes par'.gap par'.final).2 := by
  obtain ⟨sameTsr, sameEpoch⟩ := d.entered_tsr par.bytes par.gap
  obtain ⟨sameTsr', sameEpoch'⟩ := d'.entered_tsr par'.bytes par'.gap
  obtain ⟨-, sameInterval, sameIntervals⟩ := d.entered_measures par.bytes par.gap
  obtain ⟨-, sameInterval', sameIntervals'⟩ := d'.entered_measures par'.bytes par'.gap
  rw [rows_of_torn torn, rows_of_torn torn']
  apply Alike.rewind
  · rw [sameTsr, sameTsr', tsr]
  · rw [sameEpoch, sameEpoch', epoch]
  · rw [sameInterval, sameInterval', interval]
  · rw [sameIntervals, sameIntervals', intervals]

end Decoder

/-- A torn paragraph gives gap rows only and leaves no base and no time known.
What is decoded later does not depend on it, nor on any base learned before it:
decoders with the same last TSR and the same paragraph interval that each find a
paragraph torn go on alike. -/
theorem torn_leaves_no_trace
    (sameTsr : d'.clock.tsr = d.clock.tsr)
    (sameEpoch : d'.clock.epoch = d.clock.epoch)
    (sameInterval : d'.interval = d.interval)
    (sameIntervals : d'.intervals = d.intervals)
    (torn : d.FindsTorn par)
    (torn' : d'.FindsTorn par')
    (later : List Paragraph) :
    (∀ row ∈ (d.rows par.bytes par.gap par.final).1, row = gapRow) ∧
      ((d'.rows par'.bytes par'.gap par'.final).2.run later).1 =
        ((d.rows par.bytes par.gap par.final).2.run later).1 ∧
      (d.rows par.bytes par.gap par.final).2.bases = .unknown ∧
        (d.rows par.bytes par.gap par.final).2.clock.tsrOk = false ∧
          (d.rows par.bytes par.gap par.final).2.clock.base = -1 := by
  refine ⟨?_, ?_, ?_⟩
  · rw [Decoder.rows_of_torn torn, gapRows]
    intro row member
    split_ifs at member
    · simpa using member
    · simpa using member
  · have alike := Decoder.alike_of_torn sameTsr sameEpoch sameInterval sameIntervals torn torn'
    exact alike.run later
  · rw [Decoder.rows_of_torn torn]
    exact ⟨rfl, rfl, rfl⟩

/-- A paragraph that was still being written, and one with an unknown unit. -/
theorem torn_leaves_no_trace_unfinished :
    (((Decoder.new wholeCycles).rows [0xFF, 0xFF] false false).2.run
        [⟨stampedParagraph 7, false, true⟩]).1 =
      (((Decoder.new wholeCycles).rows [0xD2, 0x00] false true).2.run
        [⟨stampedParagraph 7, false, true⟩]).1 := by
  have unknownUnit : (Decoder.new wholeCycles).FindsTorn ⟨[0xD2, 0x00], false, true⟩ := by
    decide +kernel
  have unfinished : (Decoder.new wholeCycles).FindsTorn ⟨[0xFF, 0xFF], false, false⟩ := by
    decide +kernel
  exact (torn_leaves_no_trace rfl rfl rfl rfl unknownUnit unfinished
    [⟨stampedParagraph 7, false, true⟩]).2.1

end Decode
end TriCoreDap
