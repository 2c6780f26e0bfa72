import TriCoreDap.Trace.Tram
import TriCoreDap.Trace.Follow

/-!
# The reading loop, paragraph by paragraph

The reading loop of `drainTo` runs over chains, groups and paragraphs and knows
the writer only modulo the buffer.  Here it is followed on absolute paragraph
numbers: `Reading.At` says what holds once the first `i` paragraphs are
published, `Reading.TornAt` what holds when the `i`-th was found overwritten.
-/

namespace TriCoreDap
namespace Trace

/-- The records handed to `publish_flags`. -/
def Drain.records (drain : Drain) : List Record :=
  drain.published.map (·.record)

/-- The `i`-th record of a pass that starts with paragraph `first` and with the
sequence number `seq`, `lost` paragraphs being lost before the first. -/
def recordOf (tram : Tram) (seq first lost i : Nat) : Record where
  magic := Trace.magic
  seq := u32 (seq + i)
  tramOffset := u32 (tram.bot + (first + i) % tram.totalPar * paragraph)
  length := paragraph
  flags := if i = 0 ∧ lost ≠ 0 then flagGap else 0
  lost := if i = 0 then lost else 0
  words := tram.paragraphWords (first + i)

/-- What stays fixed during the reading loop of a pass: paragraph `first` is
read first and is preceded by the loss `lost`. -/
structure Reading where
  tram : Tram
  timeline : Timeline
  first : Nat
  toRead : Nat
  lost : Nat
  old : List Record
  seq : Nat
  counted : Nat

namespace Reading

/-- The paragraph the writer was in at the poll. -/
def writer (reading : Reading) : Nat := reading.first + reading.toRead

def lostAt (reading : Reading) (i : Nat) : Nat :=
  if i = 0 then reading.lost else 0

/-- The record of the `i`-th paragraph. -/
def record (reading : Reading) (i : Nat) : Record :=
  recordOf reading.tram reading.seq reading.first reading.lost i

/-- The words read in the place of the `i`-th paragraph. -/
def readWords (reading : Reading) (i : Nat) : List Word :=
  (List.range wordsPerPar).map fun j =>
    reading.tram.word (reading.timeline.paragraphTime i j)
      ((reading.first + i) % reading.tram.totalPar * wordsPerPar + j)

def intact (reading : Reading) (i : Nat) : Bool :=
  Follow.intactAt reading.tram.totalPar reading.first reading.timeline.nowPar i

/-- Where the writer was last seen before the `i`-th paragraph's group. -/
def seenPar (reading : Reading) (i : Nat) : Nat :=
  if i = 0 then reading.writer
  else reading.timeline.nowPar ((i - 1) / nowEvery)

/-- The first `i` paragraphs have been published. -/
structure At (reading : Reading) (i : Nat) (pass : Pass) : Prop where
  fits : pass.drain.Fits reading.tram
  i_eq : pass.i = i
  lost_eq : pass.lost = reading.lostAt i
  next_eq : pass.drain.nextPar = (reading.first + i) % reading.tram.totalPar
  seq_eq : pass.drain.seq = u32 (reading.seq + i)
  records_eq : pass.drain.records =
    reading.old ++ (List.range i).map reading.record
  counted_eq : pass.drain.stats.lost = reading.counted

/-- The first `i` paragraphs have been published and the rest given up. -/
structure TornAt (reading : Reading) (i : Nat) (pass : Pass) : Prop where
  fits : pass.drain.Fits reading.tram
  i_eq : pass.i = reading.toRead
  lost_eq : pass.lost = u32 (reading.lostAt i + (reading.toRead - i))
  next_eq : pass.drain.nextPar =
    reading.timeline.nowPar (i / nowEvery) % reading.tram.totalPar
  seq_eq : pass.drain.seq = u32 (reading.seq + i)
  records_eq : pass.drain.records =
    reading.old ++ (List.range i).map reading.record
  counted_eq : pass.drain.stats.lost =
    u32 (reading.counted + (reading.toRead - i))

/-- The pass knows the writer's place as of the last pointer read. -/
structure Pointer (reading : Reading) (i : Nat) (pass : Pass) : Prop where
  moved_eq : pass.moved = reading.seenPar i - reading.writer
  prevPar_eq : pass.prevPar = reading.seenPar i % reading.tram.totalPar

/-- The assumptions on the writer: it starts behind no paragraph that is read,
and its steps between two pointer reads are shorter than the buffer. -/
structure Sound (reading : Reading) (start : Nat) : Prop where
  tram : reading.tram.Sound
  start_eq : start / wordsPerPar = reading.writer
  paced : reading.timeline.Paced reading.tram start
  toRead_le : reading.toRead ≤ reading.tram.totalPar

variable {reading : Reading} {pass : Pass}

theorem lostAt_succ (i : Nat) : reading.lostAt (i + 1) = 0 := by
  simp [lostAt]

@[simp] theorem length_readWords (i : Nat) :
    (reading.readWords i).length = wordsPerPar := by
  simp [readWords]

/-- An intact paragraph's bytes are all its own. -/
theorem Sound.readWords_of_intact
    (sound : reading.Sound start)
    (indexLt : i < reading.toRead)
    (isIntact : reading.intact i = true) :
    reading.readWords i = reading.tram.paragraphWords (reading.first + i) := by
  have bound : reading.timeline.nowPar (i / nowEvery) <
      reading.first + i + reading.tram.totalPar := by
    simpa [intact, Follow.intactAt] using isIntact
  apply List.map_congr_left
  intro j member
  have indexBound : j < wordsPerPar := List.mem_range.mp member
  apply Tram.word_of_within_lap indexBound
  · have after := sound.paced.read_after i j
    have complete : (reading.first + i + 1) * wordsPerPar ≤ start := by
      have writerPar := sound.start_eq
      have lower : reading.writer * wordsPerPar ≤ start := by
        rw [← writerPar]
        exact Nat.div_mul_le_self start wordsPerPar
      have step : (reading.first + i + 1) * wordsPerPar ≤
          reading.writer * wordsPerPar := by
        apply Nat.mul_le_mul_right
        simp only [writer]
        omega
      omega
    rw [Nat.add_mul] at complete
    omega
  · have before := sound.paced.read_before i j
    exact lt_of_le_of_lt (Nat.div_le_div_right before) bound

theorem Sound.nowPar_mono
    (sound : reading.Sound start)
    (le : g ≤ g') :
    reading.timeline.nowPar g ≤ reading.timeline.nowPar g' := by
  induction le with
  | refl => exact Nat.le_refl _
  | step _ inductionHypothesis =>
      exact inductionHypothesis.trans
        (Nat.div_le_div_right (sound.paced.now_mono _))

theorem Sound.writer_le_nowPar
    (sound : reading.Sound start) (g : Nat) :
    reading.writer ≤ reading.timeline.nowPar g := by
  have first : reading.writer ≤ reading.timeline.nowPar 0 := by
    rw [← sound.start_eq]
    exact Nat.div_le_div_right sound.paced.now_after
  exact first.trans (sound.nowPar_mono (Nat.zero_le g))

theorem Sound.writer_le_seenPar
    (sound : reading.Sound start) (i : Nat) :
    reading.writer ≤ reading.seenPar i := by
  unfold seenPar
  split
  · exact Nat.le_refl _
  · exact sound.writer_le_nowPar _

/-- From one pointer read to the next the writer moves forward by less than
the buffer. -/
theorem Sound.seenPar_step
    (sound : reading.Sound start)
    (groupStart : i % nowEvery = 0) :
    reading.seenPar i ≤ reading.timeline.nowPar (i / nowEvery) ∧
      reading.timeline.nowPar (i / nowEvery) <
        reading.seenPar i + reading.tram.totalPar := by
  unfold seenPar
  split
  · next start_eq =>
      subst start_eq
      refine ⟨sound.writer_le_nowPar _, ?_⟩
      have pace := sound.paced.pace_first
      rw [sound.start_eq] at pace
      exact pace
  · next notStart =>
      obtain ⟨g, group_eq⟩ : ∃ g, i / nowEvery = g + 1 := by
        refine ⟨i / nowEvery - 1, ?_⟩
        simp only [nowEvery] at *
        omega
      have before : (i - 1) / nowEvery = g := by
        simp only [nowEvery] at *
        omega
      rw [before, group_eq]
      exact ⟨sound.nowPar_mono (Nat.le_succ g), sound.paced.pace g⟩

theorem seenPar_group
    (groupStart : i % nowEvery = 0)
    (positive : 0 < len)
    (len_le : len ≤ nowEvery) :
    reading.seenPar (i + len) = reading.timeline.nowPar (i / nowEvery) := by
  have notStart : i + len ≠ 0 := by omega
  simp only [seenPar, notStart, if_false]
  congr 1
  simp only [nowEvery] at *
  omega

/-- Publishing the next paragraph. -/
theorem At.publish
    (position : reading.At i pass)
    (tail : Nat → Nat) :
    reading.At (i + 1)
      { pass with
        drain :=
          { pass.drain.publish tail pass.drain.nextPar
              (reading.tram.paragraphWords (reading.first + i)) pass.lost with
            nextPar := (pass.drain.nextPar + 1) % pass.drain.totalPar }
        lost := 0
        i := pass.i + 1 } := by
  have header_eq : pass.drain.header pass.drain.nextPar
      (reading.tram.paragraphWords (reading.first + i)) pass.lost 0 =
        reading.record i := by
    by_cases first : i = 0 <;> by_cases none : reading.lost = 0 <;>
      simp [Drain.header, record, recordOf, lostAt, position.seq_eq,
        position.fits.bot_eq, position.next_eq, position.lost_eq, first, none]
  constructor
  · exact ⟨position.fits.bot_eq, position.fits.span_eq⟩
  · simp [position.i_eq]
  · simp [lostAt_succ]
  · simp [position.next_eq, position.fits.totalPar_eq, Nat.add_assoc]
  · simp only [Drain.publish, Drain.publishFlags, position.seq_eq, u32]
    omega
  · have old_eq := position.records_eq
    simp only [Drain.records] at old_eq
    simp only [Drain.records, Drain.publish, Drain.publishFlags, header_eq,
      List.map_append, old_eq, List.map_cons, List.map_nil, List.range_succ,
      List.append_assoc]
  · simp only [Drain.publish, Drain.publishFlags]
    split <;> exact position.counted_eq

/-- Giving up at a paragraph the writer has reached. -/
theorem At.giveUp
    (position : reading.At i pass)
    (wPar_eq : wPar =
      reading.timeline.nowPar (i / nowEvery) % reading.tram.totalPar) :
    reading.TornAt i
      { pass with
        lost := u32 (pass.lost + (reading.toRead - pass.i))
        drain :=
          { pass.drain.countLoss (reading.toRead - pass.i) with nextPar := wPar }
        i := reading.toRead } where
  fits := ⟨position.fits.bot_eq, position.fits.span_eq⟩
  i_eq := rfl
  lost_eq := by rw [position.lost_eq, position.i_eq]
  next_eq := wPar_eq
  seq_eq := position.seq_eq
  records_eq := position.records_eq
  counted_eq := by
    simp [Drain.countLoss, position.counted_eq, position.i_eq]

/-- The torn test, on absolute numbers. -/
theorem Sound.torn_iff
    (sound : reading.Sound start)
    (moved_eq : moved = reading.timeline.nowPar (i / nowEvery) - reading.writer) :
    reading.tram.totalPar - reading.toRead + i ≤ moved ↔
      reading.intact i = false := by
  have ahead := sound.writer_le_nowPar (i / nowEvery)
  have bound := sound.toRead_le
  simp only [intact, Follow.intactAt, decide_eq_false_iff_not, moved_eq, writer] at *
  omega

/-- The paragraphs `i .. limit - 1` were judged: either one of them was torn
and ended the pass, or all are published. -/
def Judged (reading : Reading) (i limit : Nat) (pass : Pass) : Prop :=
  (∃ j, i ≤ j ∧ j < limit ∧
      (∀ k, i ≤ k → k < j → reading.intact k = true) ∧
      reading.intact j = false ∧ reading.TornAt j pass) ∨
    ((∀ k, i ≤ k → k < limit → reading.intact k = true) ∧
      reading.At limit pass)

/-- Judging paragraphs leaves the writer's last known place alone. -/
theorem judgeGroup_pointer
    (tail : Nat → Nat)
    (toRead margin wPar : Nat)
    (group : List (List Word))
    (pass : Pass) :
    (judgeGroup tail toRead margin wPar group pass).moved = pass.moved ∧
      (judgeGroup tail toRead margin wPar group pass).prevPar = pass.prevPar := by
  induction group generalizing pass with
  | nil => exact ⟨rfl, rfl⟩
  | cons words rest inductionHypothesis =>
      simp only [judgeGroup]
      split
      · exact ⟨rfl, rfl⟩
      · exact inductionHypothesis _

/-- Judging `len` paragraphs of one group by the `g`-th pointer read. -/
theorem Sound.judgeGroup
    (sound : reading.Sound start)
    (tail : Nat → Nat)
    (len : Nat)
    (position : reading.At i pass)
    (inside : i + len ≤ reading.toRead)
    (sameGroup : ∀ k, i ≤ k → k < i + len → k / nowEvery = g)
    (moved_eq : pass.moved = reading.timeline.nowPar g - reading.writer) :
    reading.Judged i (i + len)
      (judgeGroup tail reading.toRead
        (reading.tram.totalPar - reading.toRead)
        (reading.timeline.nowPar g % reading.tram.totalPar)
        ((List.range len).map fun n => reading.readWords (i + n)) pass) := by
  induction len generalizing i pass with
  | zero =>
      refine Or.inr ⟨fun k lower upper => ?_, position⟩
      omega
  | succ len inductionHypothesis =>
      have group_eq : i / nowEvery = g := sameGroup i (by omega) (by omega)
      have torn_iff : reading.tram.totalPar - reading.toRead + i ≤ pass.moved ↔
          reading.intact i = false := sound.torn_iff (by rw [moved_eq, group_eq])
      rw [List.range_succ_eq_map, List.map_cons, Trace.judgeGroup, position.i_eq]
      split
      · next torn =>
          have notIntact := torn_iff.mp torn
          refine Or.inl ⟨i, Nat.le_refl i, by omega, fun k lower upper => ?_,
            notIntact, ?_⟩
          · omega
          · have wPar_eq : reading.timeline.nowPar g % reading.tram.totalPar =
                reading.timeline.nowPar (i / nowEvery) % reading.tram.totalPar := by
              rw [group_eq]
            have gaveUp := position.giveUp wPar_eq
            rwa [position.i_eq] at gaveUp
      · next notTorn =>
          have isIntact : reading.intact i = true := by
            by_contra notIntact
            exact notTorn (torn_iff.mpr (by simpa using notIntact))
          have published := position.publish tail
          rw [← sound.readWords_of_intact (by omega) isIntact,
            position.i_eq] at published
          have rest := inductionHypothesis published (by omega)
            (fun k lower upper => sameGroup k (by omega) (by omega)) moved_eq
          have shift : (List.map (fun n => reading.readWords (i + n))
              (List.map Nat.succ (List.range len))) =
              (List.range len).map fun n => reading.readWords (i + 1 + n) := by
            rw [List.map_map]
            apply List.map_congr_left
            intro n _
            simp [Nat.add_assoc, Nat.add_comm 1 n]
          rw [shift, show i + (len + 1) = i + 1 + len by omega, Nat.add_zero]
          rcases rest with ⟨j, lower, upper, before, notIntact, torn⟩ |
              ⟨before, reached⟩
          · refine Or.inl ⟨j, by omega, upper, fun k lowerK upperK => ?_,
              notIntact, torn⟩
            rcases Nat.eq_or_lt_of_le lowerK with equal | above
            · exact equal ▸ isIntact
            · exact before k above upperK
          · refine Or.inr ⟨fun k lowerK upperK => ?_, reached⟩
            rcases Nat.eq_or_lt_of_le lowerK with equal | above
            · exact equal ▸ isIntact
            · exact before k above upperK

/-! ## The words of a chain -/

theorem paragraphsOf_succ
    (size : piece.length = wordsPerPar) :
    paragraphsOf (group + 1) (piece ++ more) =
      piece :: paragraphsOf group more := by
  unfold paragraphsOf
  rw [List.range_succ_eq_map, List.map_cons, List.map_map]
  refine congrArg₂ List.cons ?_ (List.map_congr_left fun n _ => ?_)
  · rw [Nat.zero_mul, List.drop_zero, ← size, List.take_left]
  · show ((piece ++ more).drop ((n + 1) * wordsPerPar)).take wordsPerPar = _
    rw [Nat.succ_mul, Nat.add_comm, ← List.drop_drop, ← size, List.drop_left]

/-- Paragraph-sized pieces at the front of a word list come back whole. -/
theorem paragraphsOf_flatten
    (pieces : List (List Word))
    (rest : List Word)
    (sizes : ∀ piece ∈ pieces, piece.length = wordsPerPar) :
    paragraphsOf pieces.length (pieces.flatten ++ rest) = pieces := by
  induction pieces with
  | nil => rfl
  | cons piece pieces inductionHypothesis =>
      rw [List.length_cons, List.flatten_cons, List.append_assoc,
        paragraphsOf_succ (sizes piece (by simp)),
        inductionHypothesis fun other member => sizes other (by simp [member])]

theorem length_flatten_of_sizes
    (pieces : List (List Word))
    (sizes : ∀ piece ∈ pieces, piece.length = wordsPerPar) :
    pieces.flatten.length = pieces.length * wordsPerPar := by
  induction pieces with
  | nil => simp
  | cons piece pieces inductionHypothesis =>
      rw [List.flatten_cons, List.length_append, sizes piece (by simp),
        inductionHypothesis fun other member => sizes other (by simp [member]),
        List.length_cons, Nat.succ_mul, Nat.add_comm]

/-- The paragraphs read from the `i`-th on. -/
def groupWords (reading : Reading) (i group : Nat) : List (List Word) :=
  (List.range group).map fun n => reading.readWords (i + n)

theorem groupWords_succ (i group : Nat) :
    reading.groupWords i (group + 1) =
      reading.readWords i :: reading.groupWords (i + 1) group := by
  rw [groupWords, List.range_succ_eq_map, List.map_cons, List.map_map]
  refine congrArg₂ List.cons rfl (List.map_congr_left fun n _ => ?_)
  show reading.readWords (i + (n + 1)) = reading.readWords (i + 1 + n)
  rw [Nat.add_assoc, Nat.add_comm 1 n]

/-- The answer to the block read of one paragraph. -/
theorem Sound.serve_paragraph
    (sound : reading.Sound start)
    (drain : Drain)
    (fits : drain.Fits reading.tram)
    (rest : List BlockReq) :
    reading.timeline.serve reading.tram i g
        ({ addr := u32 (tramBase + drain.bot +
              (reading.first + i) % reading.tram.totalPar * paragraph)
           count := wordsPerPar } :: rest) =
      reading.readWords i ++
        reading.timeline.serve reading.tram (i + 1) g rest := by
  have parLt := Nat.mod_lt (reading.first + i) sound.tram.totalPar_pos
  rw [fits.bot_eq]
  simp only [Timeline.serve, Tram.blockWords,
    Tram.cellOf_paragraph sound.tram parLt]
  rfl

theorem serve_fifonow (tram : Tram) (timeline : Timeline) (rest : List BlockReq) :
    timeline.serve tram i g ({ addr := fifonow, count := 1 } :: rest) =
      timeline.nowWord g :: timeline.serve tram i (g + 1) rest := by
  simp [Timeline.serve]

/-- The requests of a chain, from the paragraph with offset `batch - left`
on. -/
theorem chainReqs_succ (drain : Drain) (batch left par : Nat) :
    drain.chainReqs batch (left + 1) par =
      { addr := u32 (tramBase + drain.bot + par * paragraph)
        count := wordsPerPar } ::
      ((if (batch - (left + 1) + 1) % nowEvery = 0 ∨
            batch - (left + 1) + 1 = batch then
          [{ addr := fifonow, count := 1 }]
        else []) ++
        drain.chainReqs batch left ((par + 1) % drain.totalPar)) := rfl

/-- The words of a chain start with a group's paragraphs and the pointer read
after them. -/
theorem Sound.serve_group
    (sound : reading.Sound start)
    (drain : Drain)
    (fits : drain.Fits reading.tram)
    (len batch left i g : Nat)
    (left_le : left ≤ batch)
    (notLast : len ≠ 0)
    (len_le : len ≤ left)
    (groupEnd : (batch - left + len) % nowEvery = 0 ∨ len = left)
    (inside : (batch - left + len - 1) / nowEvery = (batch - left) / nowEvery) :
    reading.timeline.serve reading.tram i g
        (drain.chainReqs batch left
          ((reading.first + i) % reading.tram.totalPar)) =
      (reading.groupWords i len).flatten ++
        reading.timeline.nowWord g ::
          reading.timeline.serve reading.tram (i + len) (g + 1)
            (drain.chainReqs batch (left - len)
              ((reading.first + (i + len)) % reading.tram.totalPar)) := by
  have next_eq (k : Nat) :
      ((reading.first + k) % reading.tram.totalPar + 1) % drain.totalPar =
        (reading.first + (k + 1)) % reading.tram.totalPar := by
    rw [fits.totalPar_eq, LapBuffer.succ_mod_mod, Nat.add_assoc]
  induction len generalizing left i with
  | zero => exact absurd rfl notLast
  | succ len inductionHypothesis =>
      obtain ⟨rest, rfl⟩ : ∃ rest, left = rest + 1 := ⟨left - 1, by omega⟩
      rw [chainReqs_succ, sound.serve_paragraph drain fits, groupWords_succ,
        List.flatten_cons, List.append_assoc, next_eq]
      congr 1
      by_cases last : len = 0
      · subst last
        have ended : (batch - (rest + 1) + 1) % nowEvery = 0 ∨
            batch - (rest + 1) + 1 = batch := by
          rcases groupEnd with full | all
          · exact Or.inl (by simpa using full)
          · exact Or.inr (by omega)
        rw [if_pos ended]
        simp [serve_fifonow, groupWords]
      · have notEnded : ¬((batch - (rest + 1) + 1) % nowEvery = 0 ∨
            batch - (rest + 1) + 1 = batch) := by
          simp only [nowEvery] at *
          omega
        rw [if_neg notEnded, List.nil_append,
          inductionHypothesis rest (i + 1) (by omega) last (by omega)
            (by simp only [nowEvery] at *; omega)
            (by simp only [nowEvery] at *; omega)]
        simp only [Nat.add_sub_add_right, Nat.add_assoc, Nat.add_comm 1 len]

/-- The accumulated movement stays far from the end of a `uint32_t`. -/
theorem Sound.moved_lt
    (sound : reading.Sound start)
    (groupStart : i % nowEvery = 0)
    (before : ∀ k, k < i → reading.intact k = true)
    (i_le : i ≤ reading.toRead) :
    reading.timeline.nowPar (i / nowEvery) - reading.writer < 2 ^ 32 := by
  have step := sound.seenPar_step groupStart
  have small : reading.tram.totalPar ≤ 2 ^ 22 := by
    have whole := sound.tram.whole
    have span_le := sound.tram.span_le
    simp only [paragraph_eq] at whole
    omega
  have seen : reading.seenPar i < reading.writer + reading.tram.totalPar := by
    unfold seenPar
    split
    · have := sound.tram.totalPar_pos
      omega
    · next notStart =>
        have isIntact := before (i - 1) (by omega)
        simp only [intact, Follow.intactAt, decide_eq_true_eq] at isIntact
        simp only [writer] at *
        omega
  omega

/-- The pointer read after a group brings the movement up to date. -/
theorem Sound.moved_step
    (sound : reading.Sound start)
    (position : reading.At i pass)
    (pointer : reading.Pointer i pass)
    (groupStart : i % nowEvery = 0)
    (before : ∀ k, k < i → reading.intact k = true)
    (i_le : i ≤ reading.toRead) :
    u32 (pass.moved +
        (reading.timeline.nowPar (i / nowEvery) % reading.tram.totalPar +
          pass.drain.totalPar - pass.prevPar) % pass.drain.totalPar) =
      reading.timeline.nowPar (i / nowEvery) - reading.writer := by
  obtain ⟨forward, short⟩ := sound.seenPar_step groupStart
  have dist := LapBuffer.distance_mod forward short
  have bound := sound.moved_lt groupStart before i_le
  have ahead := sound.writer_le_seenPar i
  rw [LapBuffer.distance] at dist
  rw [pointer.moved_eq, pointer.prevPar_eq, position.fits.totalPar_eq, dist, u32,
    Nat.mod_eq_of_lt (by omega)]
  omega

/-- Taking a group off the front of a chain's words. -/
theorem words_of_group
    (reading : Reading)
    (i group : Nat)
    (w : Word)
    (rest : List Word) :
    let words := (reading.groupWords i group).flatten ++ w :: rest
    paragraphsOf group words = reading.groupWords i group ∧
      words.getD (group * wordsPerPar) 0 = w ∧
      words.drop (group * wordsPerPar + 1) = rest := by
  have sizes : ∀ piece ∈ reading.groupWords i group,
      piece.length = wordsPerPar := by
    intro piece member
    obtain ⟨n, _, rfl⟩ := List.mem_map.mp member
    exact length_readWords _
  have count : (reading.groupWords i group).length = group := by
    simp [groupWords]
  have flatLength := length_flatten_of_sizes _ sizes
  have pieces := paragraphsOf_flatten _ (w :: rest) sizes
  rw [count] at flatLength pieces
  refine ⟨pieces, ?_, ?_⟩
  · simp [List.getD, flatLength]
  · rw [← flatLength, List.drop_length_add_append]
    rfl

/-- One round of the loop over a chain's groups. -/
theorem Sound.judgeChain_succ
    (sound : reading.Sound start)
    (tail : Nat → Nat)
    (fuel : Nat)
    (position : reading.At i pass)
    (pointer : reading.Pointer i pass)
    (before : ∀ k, k < i → reading.intact k = true)
    (groupStart : i % nowEvery = 0)
    (left_pos : left ≠ 0)
    (inside : i + left ≤ reading.toRead)
    (rest : List Word) :
    judgeChain tail reading.toRead (reading.tram.totalPar - reading.toRead)
        (fuel + 1) left
        ((reading.groupWords i (min left nowEvery)).flatten ++
          reading.timeline.nowWord (i / nowEvery) :: rest) pass =
      judgeChain tail reading.toRead (reading.tram.totalPar - reading.toRead)
        fuel (left - min left nowEvery) rest
        (Trace.judgeGroup tail reading.toRead
          (reading.tram.totalPar - reading.toRead)
          (reading.timeline.nowPar (i / nowEvery) % reading.tram.totalPar)
          (reading.groupWords i (min left nowEvery))
          { pass with
            moved := reading.timeline.nowPar (i / nowEvery) - reading.writer
            prevPar := reading.timeline.nowPar (i / nowEvery) %
              reading.tram.totalPar }) := by
  have notDone : ¬(left = 0 ∨ reading.toRead ≤ pass.i) := by
    rw [position.i_eq]
    omega
  obtain ⟨pieces, pointerWord, restWords⟩ := words_of_group reading i
    (min left nowEvery) (reading.timeline.nowWord (i / nowEvery)) rest
  have wPar_eq : pass.drain.parOf
      (reading.timeline.nowWord (i / nowEvery) &&& ptrMask) =
        reading.timeline.nowPar (i / nowEvery) % reading.tram.totalPar :=
    position.fits.parOf_points (sound.paced.points (i / nowEvery))
  rw [judgeChain, if_neg notDone]
  simp only [pieces, pointerWord, restWords, wPar_eq,
    sound.moved_step position pointer groupStart before (by omega)]

theorem Judged.extend
    (reached : ∀ k, i ≤ k → k < j → reading.intact k = true)
    (le : i ≤ j)
    (judged : reading.Judged j limit pass) :
    reading.Judged i limit pass := by
  have join (k upper : Nat) (below : ∀ k, j ≤ k → k < upper →
      reading.intact k = true) (lowerK : i ≤ k) (upperK : k < upper) :
      reading.intact k = true := by
    rcases Nat.lt_or_ge k j with less | more
    · exact reached k lowerK less
    · exact below k more upperK
  rcases judged with ⟨t, lower, upper, below, notIntact, torn⟩ | ⟨below, position⟩
  · exact Or.inl ⟨t, by omega, upper, fun k => join k t below, notIntact, torn⟩
  · exact Or.inr ⟨fun k => join k limit below, position⟩

/-- Once a paragraph was found torn, the rest of the chain is passed over. -/
theorem judgeChain_of_torn
    (torn : reading.TornAt j pass)
    (tail : Nat → Nat)
    (margin fuel left : Nat)
    (words : List Word) :
    judgeChain tail reading.toRead margin fuel left words pass = pass := by
  cases fuel with
  | zero => rfl
  | succ fuel => rw [judgeChain, if_pos (Or.inr torn.i_eq.ge)]

/-- Going through the words of a chain, whose last `left` paragraphs start with
the `i`-th of the pass. -/
theorem Sound.judgeChain
    (sound : reading.Sound start)
    (tail : Nat → Nat)
    (drain : Drain)
    (fits : drain.Fits reading.tram)
    (fuel batch left : Nat)
    (position : reading.At i pass)
    (pointer : reading.Pointer i pass)
    (before : ∀ k, k < i → reading.intact k = true)
    (left_le : left ≤ batch)
    (left_fuel : left ≤ fuel)
    (aligned : left ≠ 0 → i % nowEvery = 0 ∧ (batch - left) % nowEvery = 0)
    (inside : i + left ≤ reading.toRead) :
    let judged := Trace.judgeChain tail reading.toRead
      (reading.tram.totalPar - reading.toRead) fuel left
      (reading.timeline.serve reading.tram i (i / nowEvery)
        (drain.chainReqs batch left
          ((reading.first + i) % reading.tram.totalPar))) pass
    reading.Judged i (i + left) judged ∧
      ((∀ k, i ≤ k → k < i + left → reading.intact k = true) →
        reading.Pointer (i + left) judged) := by
  induction fuel generalizing left i pass with
  | zero =>
      obtain rfl : left = 0 := by omega
      exact ⟨Or.inr ⟨fun k lower upper => by omega, position⟩, fun _ => pointer⟩
  | succ fuel inductionHypothesis =>
      by_cases done : left = 0
      · subst done
        simp only [Trace.judgeChain, true_or, if_true]
        exact ⟨Or.inr ⟨fun k lower upper => by omega, position⟩, fun _ => pointer⟩
      obtain ⟨groupStart, offsetStart⟩ := aligned done
      have words_eq := sound.serve_group drain fits (min left nowEvery) batch left i
        (i / nowEvery) left_le (by simp only [nowEvery]; omega) (Nat.min_le_left _ _)
        (by simp only [nowEvery] at *; omega)
        (by simp only [nowEvery] at *; omega)
      rw [words_eq, sound.judgeChain_succ tail fuel position pointer before
        groupStart done inside]
      obtain ⟨group, group_eq⟩ : ∃ group, group = min left nowEvery := ⟨_, rfl⟩
      rw [← group_eq]
      have group_pos : 0 < group := by simp only [nowEvery] at *; omega
      have group_le : group ≤ left := by omega
      have group_small : group ≤ nowEvery := by omega
      have seen : reading.At i
          { pass with
            moved := reading.timeline.nowPar (i / nowEvery) - reading.writer
            prevPar := reading.timeline.nowPar (i / nowEvery) %
              reading.tram.totalPar } :=
        ⟨position.fits, position.i_eq, position.lost_eq, position.next_eq,
          position.seq_eq, position.records_eq, position.counted_eq⟩
      have judged := sound.judgeGroup (g := i / nowEvery) tail group seen (by omega)
        (fun k lower upper => by simp only [nowEvery] at *; omega) rfl
      rcases judged with ⟨j, lower, upper, below, notIntact, torn⟩ |
          ⟨below, reached⟩
      · rw [groupWords, judgeChain_of_torn torn]
        refine ⟨Or.inl ⟨j, lower, by omega, below, notIntact, torn⟩,
          fun allIntact => ?_⟩
        have := allIntact j lower (by omega)
        simp [notIntact] at this
      · have seen : reading.seenPar (i + group) =
            reading.timeline.nowPar (i / nowEvery) :=
          seenPar_group groupStart group_pos group_small
        have pointer' := judgeGroup_pointer tail reading.toRead
          (reading.tram.totalPar - reading.toRead)
          (reading.timeline.nowPar (i / nowEvery) % reading.tram.totalPar)
          (reading.groupWords i group)
          { pass with
            moved := reading.timeline.nowPar (i / nowEvery) - reading.writer
            prevPar := reading.timeline.nowPar (i / nowEvery) %
              reading.tram.totalPar }
        have rest := inductionHypothesis (left - group) reached
          ⟨by rw [seen]; exact pointer'.1, by rw [seen]; exact pointer'.2⟩
          (fun k bound => by
            rcases Nat.lt_or_ge k i with less | more
            · exact before k less
            · exact below k more bound)
          (by omega) (by omega)
          (fun more => by simp only [nowEvery] at *; omega)
          (by omega)
        have words_next : reading.timeline.serve reading.tram (i + group)
            (i / nowEvery + 1) (drain.chainReqs batch (left - group)
              ((reading.first + (i + group)) % reading.tram.totalPar)) =
            reading.timeline.serve reading.tram (i + group)
              ((i + group) / nowEvery) (drain.chainReqs batch (left - group)
                ((reading.first + (i + group)) % reading.tram.totalPar)) := by
          by_cases ended : left - group = 0
          · rw [ended]
            rfl
          · have : (i + group) / nowEvery = i / nowEvery + 1 := by
              simp only [nowEvery] at *
              omega
            rw [this]
        rw [show i + group + (left - group) = i + left by omega] at rest
        rw [words_next]
        exact ⟨rest.1.extend below (by omega), fun allIntact =>
          rest.2 fun k lower upper => allIntact k (by omega) upper⟩

/-- How the reading loop of a pass ended. -/
def Ended (reading : Reading) (ended : Pass × Bool) : Follow.Stop → Prop
  | .complete => reading.At reading.toRead ended.1 ∧ ended.2 = true
  | .failed i => reading.At i ended.1 ∧ ended.2 = false
  | .torn i => reading.TornAt i ended.1 ∧ ended.2 = true

theorem At.ofStats
    (position : reading.At i pass)
    (stats : Stats)
    (lost_eq : stats.lost = pass.drain.stats.lost) :
    reading.At i { pass with drain := { pass.drain with stats := stats } } where
  fits := ⟨position.fits.bot_eq, position.fits.span_eq⟩
  i_eq := position.i_eq
  lost_eq := position.lost_eq
  next_eq := position.next_eq
  seq_eq := position.seq_eq
  records_eq := position.records_eq
  counted_eq := lost_eq.trans position.counted_eq

theorem readChains_of_torn
    (torn : reading.TornAt j pass)
    (link : Link)
    (margin fuel chain : Nat) :
    readChains link reading.toRead margin fuel chain pass = (pass, true) := by
  cases fuel with
  | zero => rfl
  | succ fuel => rw [readChains, if_pos torn.i_eq.ge]

/-- The reading loop, from the start of a chain on. -/
theorem Sound.readChains
    (sound : reading.Sound start)
    (tail : Nat → Nat)
    (fuel chain : Nat)
    (position : reading.At i pass)
    (pointer : reading.Pointer i pass)
    (walked : Follow.Walked reading.intact reading.timeline.fails i)
    (chainStart : i < reading.toRead → i = chain * chainPars)
    (i_le : i ≤ reading.toRead)
    (enough : reading.toRead ≤ i + fuel) :
    ∃ stop, Follow.Ends reading.intact reading.timeline.fails reading.toRead stop ∧
      reading.Ended
        (readChains (reading.timeline.link reading.tram tail) reading.toRead
          (reading.tram.totalPar - reading.toRead) fuel chain pass) stop := by
  induction fuel generalizing i chain pass with
  | zero =>
      obtain rfl : i = reading.toRead := by omega
      exact ⟨.complete, walked, position, rfl⟩
  | succ fuel inductionHypothesis =>
      rw [Trace.readChains]
      obtain rfl : pass.i = i := position.i_eq
      by_cases done : reading.toRead ≤ pass.i
      · have i_eq : pass.i = reading.toRead := by omega
        rw [if_pos done]
        rw [i_eq] at walked position
        exact ⟨.complete, walked, position, rfl⟩
      rw [if_neg done]
      have start_eq := chainStart (by omega)
      have isStart : pass.i % chainPars = 0 := by rw [start_eq, Nat.mul_mod_left]
      have chain_eq : pass.i / chainPars = chain := by
        rw [start_eq]
        exact Nat.mul_div_cancel chain (by decide)
      obtain ⟨batch, batch_eq⟩ :
        ∃ batch, batch = min (reading.toRead - pass.i) chainPars := ⟨_, rfl⟩
      simp only [← batch_eq]
      cases fails : reading.timeline.fails chain with
      | true =>
          rw [Timeline.blockreadMany_of_fails fails]
          exact ⟨.failed pass.i, ⟨by omega, walked, isStart, by rw [chain_eq, fails]⟩,
            position.ofStats
              { pass.drain.stats with
                readErrors := u32 (pass.drain.stats.readErrors + 1) } rfl, rfl⟩
      | false =>
          rw [Timeline.blockreadMany_of_reads fails]
          have group_eq : chain * (chainPars / nowEvery) = pass.i / nowEvery := by
            simp only [chainPars, nowEvery] at *
            omega
          simp only [← start_eq, group_eq]
          have judged := sound.judgeChain tail pass.drain position.fits batch batch
            batch (position.ofStats
              { pass.drain.stats with
                readParagraphs := u32 (pass.drain.stats.readParagraphs + batch) }
              rfl)
            ⟨pointer.moved_eq, pointer.prevPar_eq⟩ walked.intact_lt
            (Nat.le_refl _) (Nat.le_refl _)
            (fun _ => by simp only [chainPars, nowEvery] at *; omega) (by omega)
          rw [← position.next_eq] at judged
          have chains (k : Nat) (lower : pass.i ≤ k) (upper : k < pass.i + batch)
              (kStart : k % chainPars = 0) :
              reading.timeline.fails (k / chainPars) = false := by
            have : k / chainPars = chain := by
              simp only [chainPars] at *
              omega
            rw [this, fails]
          have extend (limit : Nat) (limit_le : limit ≤ pass.i + batch)
              (isIntact : ∀ k, pass.i ≤ k → k < limit → reading.intact k = true) :
              Follow.Walked reading.intact reading.timeline.fails limit := by
            constructor
            · intro k bound
              rcases Nat.lt_or_ge k pass.i with less | more
              · exact walked.intact_lt k less
              · exact isIntact k more bound
            · intro k bound kStart
              rcases Nat.lt_or_ge k pass.i with less | more
              · exact walked.chains_lt k less kStart
              · exact chains k more (by omega) kStart
          obtain ⟨outcome, seen⟩ := judged
          rcases outcome with ⟨j, lower, upper, below, notIntact, torn⟩ |
              ⟨below, reached⟩
          · refine ⟨.torn j, ⟨by omega, extend j (by omega) below,
              chains j lower upper, notIntact⟩, ?_⟩
            exact (congrArg (reading.Ended · (.torn j))
              (readChains_of_torn torn _ _ fuel (chain + 1))).mpr ⟨torn, rfl⟩
          · exact inductionHypothesis (chain + 1) reached (seen below)
              (extend (pass.i + batch) (Nat.le_refl _) below)
              (fun more => by simp only [chainPars] at *; omega)
              (by omega) (by simp only [chainPars] at *; omega)

end Reading
end Trace
end TriCoreDap
