import Mathlib.Data.List.Chain
import TriCoreDap.Trace.Session

/-!
# Loss is flagged while the reader keeps up

A ledger relates the records published so far to the reader: which paragraph
comes after the last record, and how the paragraphs between it and the reader's
next one are accounted for as pending loss.  Every poll keeps the ledger as
long as the writer is less than a lap past the reader's next paragraph; the
last record is in order when `dap_trace_finish` leaves nothing behind.
-/

namespace TriCoreDap
namespace Trace
namespace Session

variable {session : Session} {drain : Drain} {reader : Follow.Reader}
  {timeline : Timeline} {poll : Poll}

/-- The records published so far, the last of which holds paragraph
`done - 1`. -/
structure Ledger
    (session : Session)
    (reader : Follow.Reader)
    (done : Nat)
    (records : List Record) : Prop where
  flagged : records.Pairwise session.Flagged
  seq_lt : ∀ record ∈ records, record.seq < records.length
  last : ∀ record ∈ records, record.seq + 1 = records.length →
    ∃ a, session.Holds record a ∧ a + 1 = done
  pending_le : done + reader.pending ≤ reader.next
  resumed : reader.pending = 0 → reader.next = done
  length_le : session.beginPar + records.length ≤ done

theorem recordOf_holds (seq first lost i : Nat) :
    session.Holds (recordOf session.tram seq first lost i) (first + i) := by
  have notFinal : (recordOf session.tram seq first lost i).isFinal = false := by
    simp only [Record.isFinal, recordOf]
    split <;> rfl
  rw [Holds, notFinal]
  rfl

theorem recordOf_gap
    (tram : Tram)
    (seq first lost : Nat)
    (noGap : (recordOf tram seq first lost 0).gap = false) : lost = 0 := by
  by_contra some
  simp [Record.gap, recordOf, some, flagGap] at noGap

/-- The records of one pass are in order among themselves. -/
theorem pairwise_recordOf
    (seq first lost count : Nat)
    (short : seq + count ≤ 2 ^ 32) :
    ((List.range count).map
      (recordOf session.tram seq first lost)).Pairwise session.Flagged := by
  rw [List.pairwise_map]
  refine List.Pairwise.imp_of_mem ?_ List.pairwise_lt_range
  intro i k iMember kMember before following _
  have kLt := List.mem_range.mp kMember
  simp only [recordOf, u32_of_lt (show seq + i < 2 ^ 32 by omega),
    u32_of_lt (show seq + k < 2 ^ 32 by omega),
    u32_of_lt (show seq + i + 1 < 2 ^ 32 by omega)] at following
  obtain rfl : k = i + 1 := by omega
  exact ⟨first + i, recordOf_holds .., recordOf_holds ..⟩

/-- A pass that keeps the account keeps the ledger. -/
theorem Ledger.append
    (ledger : session.Ledger reader done records)
    (account : Follow.Account reader outcome)
    (nextLt : reader.next < session.beginPar + 2 ^ 32)
    (short : outcome.reader.next < session.beginPar + 2 ^ 32) :
    ∃ done', session.Ledger outcome.reader done'
      (records ++ (List.range outcome.count).map
        (recordOf session.tram records.length outcome.first (u32 outcome.lost))) := by
  have pendingLe := ledger.pending_le
  have lengthLe := ledger.length_le
  rcases Nat.eq_zero_or_pos outcome.count with none | some
  · obtain ⟨pendingLe', resumed⟩ := account.idle none
    refine ⟨done, ?_⟩
    simp only [none, List.range_zero, List.map_nil, List.append_nil]
    refine ⟨ledger.flagged, ledger.seq_lt, ledger.last, by omega, ?_, lengthLe⟩
    intro cleared
    obtain ⟨before, stayed⟩ := resumed cleared
    rw [stayed, ledger.resumed before]
  · obtain ⟨pendingLe', resumed⟩ := account.busy some
    have first_ge := account.first_ge
    have lost_eq := account.lost_eq some
    have total : records.length + outcome.count ≤ 2 ^ 32 := by omega
    refine ⟨outcome.first + outcome.count, ?_, ?_, ?_, pendingLe', resumed, ?_⟩
    · refine List.pairwise_append.mpr
        ⟨ledger.flagged, pairwise_recordOf _ _ _ _ total, ?_⟩
      intro record old next new following noGap
      obtain ⟨i, member, rfl⟩ := List.mem_map.mp new
      have seqLt := ledger.seq_lt record old
      have indexLt := List.mem_range.mp member
      simp only [recordOf, u32_of_lt (show records.length + i < 2 ^ 32 by omega),
        u32_of_lt (show record.seq + 1 < 2 ^ 32 by omega)] at following
      obtain rfl : i = 0 := by omega
      have noLoss := recordOf_gap _ _ _ _ noGap
      rw [u32_of_lt (by omega)] at noLoss
      obtain ⟨a, holds, done_eq⟩ := ledger.last record old (by omega)
      refine ⟨a, holds, ?_⟩
      have pending : reader.pending = 0 := by omega
      have adjacent : a + 1 = outcome.first + 0 := by
        rw [done_eq, ← ledger.resumed pending]
        omega
      rw [adjacent]
      exact recordOf_holds ..
    · intro record member
      rw [List.length_append, List.length_map, List.length_range]
      rcases List.mem_append.mp member with old | new
      · have := ledger.seq_lt record old
        omega
      · obtain ⟨i, index, rfl⟩ := List.mem_map.mp new
        have indexLt := List.mem_range.mp index
        simp only [recordOf, u32_of_lt (show records.length + i < 2 ^ 32 by omega)]
        omega
    · intro record member isLast
      rw [List.length_append, List.length_map, List.length_range] at isLast
      rcases List.mem_append.mp member with old | new
      · have := ledger.seq_lt record old
        omega
      · obtain ⟨i, index, rfl⟩ := List.mem_map.mp new
        have indexLt := List.mem_range.mp index
        simp only [recordOf,
          u32_of_lt (show records.length + i < 2 ^ 32 by omega)] at isLast
        exact ⟨outcome.first + i, recordOf_holds .., by omega⟩
    · rw [List.length_append, List.length_map, List.length_range]
      omega

/-- The drain stands where the reader does and the ledger describes what it has
published. -/
structure Tracks
    (session : Session)
    (reader : Follow.Reader)
    (drain : Drain) : Prop where
  stands : drain.Stands session.tram reader
  running : drain.running = true
  seq_eq : drain.seq = drain.records.length
  next_lt : reader.next < session.beginPar + 2 ^ 32
  ledger : ∃ done, session.Ledger reader done drain.records

/-- A pass of the drain keeps track of the reader. -/
theorem Tracks.drainTo
    (tracks : session.Tracks reader drain)
    (sound : session.tram.Sound)
    (points : session.tram.Points word time)
    (paced : timeline.Paced session.tram time)
    (within : Drain.WithinLap session.tram reader (time / wordsPerPar))
    (writerLt : time / wordsPerPar < session.beginPar + 2 ^ 32)
    (nowLt : ∀ g, timeline.nowPar g < session.beginPar + 2 ^ 32)
    (ovr : Nat) :
    let passed :=
      (drain.drainTo (timeline.link session.tram session.tail) (word &&& ptrMask) ovr).1
    let reader' := (Follow.pass session.tram.totalPar reader (time / wordsPerPar)
      timeline.nowPar timeline.fails).reader
    passed.Stands session.tram reader' ∧ passed.seq = passed.records.length ∧
      reader'.next < session.beginPar + 2 ^ 32 ∧
        ∃ done, session.Ledger reader' done passed.records := by
  obtain ⟨done, ledger⟩ := tracks.ledger
  have follows := Drain.drainTo_follows tracks.stands sound points within paced
    session.tail ovr
  have account := Follow.account_pass timeline.fails within.behind sound.enough
    within.lap (fun g => paced.start_le_nowPar g)
  have short := Follow.pass_next_lt timeline.fails within.behind sound.enough
    writerLt nowLt
  obtain ⟨done', ledger'⟩ := ledger.append account tracks.next_lt short
  have records_eq := follows.records_eq
  rw [tracks.seq_eq] at records_eq
  rw [← records_eq] at ledger'
  refine ⟨follows.stands, ?_, short, done', ledger'⟩
  have lengthLe := ledger'.length_le
  have pendingLe := ledger'.pending_le
  rw [follows.seq_eq, tracks.seq_eq]
  have length_eq := congrArg List.length records_eq
  rw [List.length_append, List.length_map, List.length_range] at length_eq
  rw [← length_eq, u32_of_lt (by omega)]

/-- A poll keeps track of the reader. -/
theorem Tracks.step
    (tracks : session.Tracks reader drain)
    (sound : session.tram.Sound)
    (points : ∀ word, poll.word = some word → session.tram.Points word poll.time)
    (paced : poll.timeline.Paced session.tram poll.time)
    (kept : poll.word.isSome = true →
      Drain.WithinLap session.tram reader (poll.time / wordsPerPar) ∧
        poll.time / wordsPerPar < session.beginPar + 2 ^ 32 ∧
          ∀ g, poll.timeline.nowPar g < session.beginPar + 2 ^ 32) :
    session.Tracks (reader.afterPoll session.tram poll) (session.step drain poll) := by
  obtain ⟨done, ledger⟩ := tracks.ledger
  unfold Session.step Follow.Reader.afterPoll
  cases word_eq : poll.word with
  | none =>
      rw [Drain.poll_none tracks.running]
      exact ⟨⟨⟨tracks.stands.fits.bot_eq, tracks.stands.fits.span_eq⟩,
        tracks.stands.next_eq, tracks.stands.pending_eq, tracks.stands.seq_lt,
        tracks.stands.lost_lt⟩, tracks.running, tracks.seq_eq, tracks.next_lt,
        done, ledger⟩
  | some word =>
      rw [Drain.poll_some tracks.running]
      obtain ⟨within, writerLt, nowLt⟩ := kept (by simp [word_eq])
      have counted : session.Tracks reader
          { drain with polls := u32 (drain.polls + 1) } :=
        ⟨⟨⟨tracks.stands.fits.bot_eq, tracks.stands.fits.span_eq⟩,
          tracks.stands.next_eq, tracks.stands.pending_eq, tracks.stands.seq_lt,
          tracks.stands.lost_lt⟩, tracks.running, tracks.seq_eq, tracks.next_lt,
          done, ledger⟩
      obtain ⟨stands, seq_eq, next_lt, ledger'⟩ := counted.drainTo sound
        (points word word_eq) paced within writerLt nowLt
        (if drain.polls % ovrcntEvery = 0 then poll.ovr.getD drain.lastOvrcnt
          else drain.lastOvrcnt)
      exact ⟨stands, (Drain.running_drainTo ..).trans tracks.running, seq_eq, next_lt,
        ledger'⟩

/-- A run of polls keeps track of the reader. -/
theorem Tracks.foldl
    {polls : List Poll}
    (tracks : session.Tracks reader drain)
    (sound : session.tram.Sound)
    (points : ∀ poll ∈ polls, ∀ word, poll.word = some word →
      session.tram.Points word poll.time)
    (paced : ∀ poll ∈ polls, poll.timeline.Paced session.tram poll.time)
    (kept : Follow.KeptUp session.tram (session.beginPar + 2 ^ 32) reader polls) :
    session.Tracks (polls.foldl (Follow.Reader.afterPoll session.tram) reader)
      (polls.foldl session.step drain) := by
  induction polls generalizing reader drain with
  | nil => exact tracks
  | cons poll rest inductionHypothesis =>
      have stepped := tracks.step sound (points poll List.mem_cons_self)
        (paced poll List.mem_cons_self) kept.1
      exact inductionHypothesis stepped
        (fun later member => points later (List.mem_cons_of_mem _ member))
        (fun later member => paced later (List.mem_cons_of_mem _ member)) kept.2

/-- The reader as `trace_begin` leaves it. -/
def beginReader (session : Session) : Follow.Reader :=
  { next := session.beginPar, pending := 0 }

/-- The reader when `dap_trace_finish` is called. -/
def finishReader (session : Session) : Follow.Reader :=
  session.polls.foldl (Follow.Reader.afterPoll session.tram) session.beginReader

/-- `trace_begin` accepts the buffer and starts from nothing. -/
theorem started_eq
    (sound : session.Sound) :
    session.started =
      { session.before with
        bot := session.tram.bot
        span := session.tram.span
        nextPar := ({ session.before with
          bot := session.tram.bot
          span := session.tram.span } : Drain).parOf session.beginWord
        lastOvrcnt := session.beginOvr
        pendingLost := 0
        seq := 0
        published := []
        stats := {}
        running := true } := by
  have whole := sound.tram.whole
  have enough := sound.tram.enough
  have spanLt := sound.span_lt
  have wide : 1 < session.tram.span := by
    rw [whole, paragraph_eq]
    simp only [traceMargin] at enough
    omega
  have span_eq : u32 (session.tram.bot + session.tram.span - 1 - session.tram.bot + 1) =
      session.tram.span := by
    rw [show session.tram.bot + session.tram.span - 1 - session.tram.bot + 1 =
      session.tram.span by omega, u32_of_lt spanLt]
  have accepted : ¬(session.tram.bot + session.tram.span - 1 ≤ session.tram.bot ∨
      session.tram.span % paragraph ≠ 0) := by
    rintro (empty | part)
    · omega
    · exact part (by rw [whole, Nat.mul_mod_left])
  simp only [started, Drain.traceBegin, span_eq, if_neg accepted]

/-- `trace_begin` starts the reader at the writer's paragraph. -/
theorem tracks_started
    (sound : session.Sound) :
    session.Tracks session.beginReader session.started := by
  rw [started_eq sound]
  refine ⟨⟨⟨rfl, rfl⟩, sound.begins, rfl, rfl, rfl⟩, rfl, rfl, ?_, session.beginPar, ?_⟩
  · simp [beginReader]
  · exact ⟨List.Pairwise.nil, by simp [Drain.records], by simp [Drain.records],
      Nat.le_refl _, fun _ => rfl, Nat.le_refl _⟩

/-- The session's polls keep up with the writer and `dap_trace_finish` leaves
nothing behind. -/
structure KeepsUp (session : Session) : Prop where
  polls : Follow.KeptUp session.tram (session.beginPar + 2 ^ 32)
    session.beginReader session.polls
  within : session.finish.word.isSome = true →
    Drain.WithinLap session.tram session.finishReader session.finishPar
  short : session.finishPar < session.beginPar + 2 ^ 32 ∧
    ∀ g, session.finish.timeline.nowPar g < session.beginPar + 2 ^ 32
  catchesUp : session.finish.word.isSome = true → session.finish.lastFails = false →
    Follow.CatchesUp session.tram.totalPar session.finishReader session.finishPar
      session.finish.timeline.nowPar session.finish.timeline.fails
  lastWithin : ∀ j,
    session.finish.lastTime j / wordsPerPar <
      session.finishPar + session.tram.totalPar

/-- The words of the last record that were written before the pointer was
read. -/
theorem last_words
    (sound : session.Sound)
    (lastWithin : ∀ j, session.finish.lastTime j / wordsPerPar <
      session.finishPar + session.tram.totalPar)
    (indexLt : j < wordsPerPar)
    (written : session.finishPar * wordsPerPar + j < session.finish.time) :
    (session.tram.blockWords session.finish.lastTime
      { addr := u32 (tramBase + session.tram.bot +
          session.finishPar % session.tram.totalPar * paragraph)
        count := wordsPerPar })[j]? =
      some (session.tram.source (session.finishPar * wordsPerPar + j)) := by
  have parLt := Nat.mod_lt session.finishPar sound.tram.totalPar_pos
  rw [Tram.blockWords, List.getElem?_map, List.getElem?_range indexLt,
    Option.map_some, Tram.cellOf_paragraph sound.tram parLt]
  rw [Tram.word_of_within_lap indexLt
    (lt_of_lt_of_le written (sound.last_after j)) (lastWithin j)]

/-- The last record holds the paragraph the writer is in. -/
theorem holds_final
    {passed : Drain}
    (words_eq : ∀ j, j < wordsPerPar →
      session.finishPar * wordsPerPar + j < session.finish.time →
        words[j]? = some (session.tram.source (session.finishPar * wordsPerPar + j))) :
    session.Holds (passed.header par words 0 flagFinal) session.finishPar := by
  have isFinal : (passed.header par words 0 flagFinal).isFinal = true := by
    show Nat.testBit (0 ||| flagFinal) 1 = true
    decide
  rw [Holds, if_pos isFinal]
  exact ⟨rfl, words_eq⟩

/-- The last record comes after the paragraph before the writer's. -/
theorem Ledger.append_final
    {passed : Drain}
    (ledger : session.Ledger { next := session.finishPar, pending := 0 } done
      passed.records)
    (seq_eq : passed.seq = passed.records.length)
    (short : session.finishPar < session.beginPar + 2 ^ 32)
    (words_eq : ∀ j, j < wordsPerPar →
      session.finishPar * wordsPerPar + j < session.finish.time →
        words[j]? = some (session.tram.source (session.finishPar * wordsPerPar + j))) :
    (passed.records ++ [({ passed with running := false } : Drain).header par words 0
      flagFinal]).Pairwise session.Flagged := by
  refine List.pairwise_append.mpr ⟨ledger.flagged, List.pairwise_singleton _ _, ?_⟩
  intro record old next new following _
  obtain rfl := List.mem_singleton.mp new
  have seqLt := ledger.seq_lt record old
  have lengthLe := ledger.length_le
  have done_eq := ledger.resumed rfl
  simp only at done_eq
  simp only [Drain.header, seq_eq,
    u32_of_lt (show record.seq + 1 < 2 ^ 32 by omega)] at following
  obtain ⟨a, holds, adjacent⟩ := ledger.last record old following.symm
  refine ⟨a, holds, ?_⟩
  rw [adjacent, ← done_eq]
  exact holds_final words_eq

/-- The last record follows all the others. -/
theorem finished_flagged
    (sound : session.Sound)
    (keeps : session.KeepsUp) :
    session.finished.records.Pairwise session.Flagged := by
  have drained : session.Tracks session.finishReader session.drained :=
    (tracks_started sound).foldl sound.tram sound.points sound.paced keeps.polls
  obtain ⟨done, ledger⟩ := drained.ledger
  have spanPos : session.drained.span ≠ 0 := by
    rw [drained.stands.fits.span_eq, sound.tram.whole, paragraph_eq]
    have := sound.tram.totalPar_pos
    omega
  rw [finished]
  cases word_eq : session.finish.word with
  | none =>
      simp only [Drain.traceFinish, if_neg spanPos]
      exact ledger.flagged
  | some word =>
      have within := keeps.within (by simp [word_eq])
      have points := sound.finish_points word word_eq
      have again : session.Tracks session.finishReader
          { session.drained with running := true } :=
        ⟨⟨⟨drained.stands.fits.bot_eq, drained.stands.fits.span_eq⟩,
          drained.stands.next_eq, drained.stands.pending_eq, drained.stands.seq_lt,
          drained.stands.lost_lt⟩, rfl, drained.seq_eq, drained.next_lt, done, ledger⟩
      obtain ⟨stands, seq_eq, next_lt, done', ledger'⟩ := again.drainTo sound.tram
        points sound.finish_paced within keeps.short.1 keeps.short.2
        session.drained.lastOvrcnt
      rw [Drain.traceFinish_of_passed spanPos rfl]
      generalize (Drain.drainTo _ { session.drained with running := true } _ _).1 =
        passed at stands seq_eq ledger' ⊢
      rw [stands.fits.parOf_points points]
      cases fails_eq : session.finish.lastFails with
      | true =>
          simp only [last, fails_eq, if_true]
          exact ledger'.flagged
      | false =>
          have caught := (keeps.catchesUp (by simp [word_eq]) fails_eq).reader_eq
            within.behind sound.tram.enough
          simp only [finishPar] at caught
          rw [caught] at ledger'
          simp only [last, fails_eq, Bool.false_eq_true, if_false]
          rw [Drain.records_publishFlags]
          rw [List.flatMap_singleton]
          refine ledger'.append_final seq_eq keeps.short.1 fun j indexLt written => ?_
          rw [stands.fits.bot_eq]
          exact last_words sound keeps.lastWithin indexLt written

/-- In every session whose polls find the writer less than a lap past the next
paragraph and whose last pass leaves nothing behind, loss is flagged. -/
theorem loss_flagged_of_keepsUp
    (sound : session.Sound)
    (keeps : session.KeepsUp) : session.LossFlagged := by
  have sorted := finished_flagged sound keeps
  have sublist : session.ring.Sublist session.finished.records :=
    (List.filter_sublist).map _
  exact (sorted.sublist sublist).isChain

/-! ## Sessions whose reads take no time -/

/-- A session on the counting trace memory, with an idle consumer and a ring of
4 MB. -/
def instant (beginTime : Nat) (pollTimes : List Nat) (finishTime : Nat) : Session where
  tram := .counting
  before :=
    { bot := 0, span := 0, nextPar := 0, lastOvrcnt := 0, pendingLost := 0, seq := 0
      running := false, polls := 0, ringBytes := 0x400000, ringHead := 0
      published := [], stats := {} }
  beginTime := beginTime
  beginWord := 4 * beginTime % 0x2000
  beginOvr := 0
  tail _ := 0
  polls := pollTimes.map fun time =>
    { time := time, word := some (4 * time), ovr := some 0, timeline := .still time }
  finish :=
    { time := finishTime, word := some (4 * finishTime), timeline := .still finishTime
      lastTime := fun _ => finishTime, lastFails := false }

variable {start stop : Nat} {times : List Nat}

theorem instant_sound : (instant start times stop).Sound where
  tram := Tram.counting_sound
  top_lt := by
    show 0 + 0x2000 ≤ 2 ^ 32
    decide
  span_lt := by
    show 0x2000 < 2 ^ 32
    decide
  begins := by
    show sub32 (4 * start % 0x2000) 0 % 0x2000 / paragraph =
      start / wordsPerPar % Tram.counting.totalPar
    simp only [sub32, u32, paragraph_eq, wordsPerPar_eq, Tram.totalPar_counting]
    omega
  points := by
    intro poll member word word_eq
    obtain ⟨time, -, rfl⟩ := List.mem_map.mp member
    obtain rfl := Option.some.inj word_eq
    exact Tram.counting_points time
  paced := by
    intro poll member
    obtain ⟨time, -, rfl⟩ := List.mem_map.mp member
    exact Timeline.still_paced Tram.counting_sound (Tram.counting_points time)
  finish_points := by
    intro word word_eq
    obtain rfl := Option.some.inj word_eq
    exact Tram.counting_points stop
  finish_paced :=
    Timeline.still_paced Tram.counting_sound (Tram.counting_points stop)
  last_after _ := Nat.le_refl _

/-- The run of `instant 0 [256] 2048`: between the poll and the end of the trace
the writer advances by seven paragraphs, all of which are lost. -/
theorem loss_not_flagged_at_finish :
    (instant 0 [256] 2048).Sound ∧ (instant 0 [256] 2048).Steady ∧
      ¬(instant 0 [256] 2048).LossFlagged := by
  refine ⟨instant_sound, by simp [Steady, instant, Tram.totalPar_counting, wordsPerPar_eq], ?_⟩
  have published : (instant 0 [256] 2048).ring.map
      (fun record => (record.seq, record.gap, record.isFinal, record.words[0]?)) =
        [(0, false, false, some 0), (1, false, true, some 0)] := by
    decide +kernel
  obtain ⟨first, rest, ring_eq, first_eq, rest_eq⟩ := List.map_eq_cons_iff.mp published
  obtain ⟨last, more, rfl, last_eq, -⟩ := List.map_eq_cons_iff.mp rest_eq
  simp only [Prod.mk.injEq] at first_eq last_eq
  obtain ⟨firstSeq, -, firstFinal, firstWord⟩ := first_eq
  obtain ⟨lastSeq, lastGap, lastFinal, -⟩ := last_eq
  intro flagged
  rw [LossFlagged, ring_eq, List.isChain_cons_cons] at flagged
  obtain ⟨a, before, after⟩ := flagged.1 (by rw [lastSeq, firstSeq]; decide) lastGap
  rw [Holds, firstFinal] at before
  rw [Holds, if_pos lastFinal] at after
  have words_eq : first.words = Tram.counting.paragraphWords a := before
  have atZero : a * wordsPerPar + 0 = 0 := by
    rw [words_eq, Tram.paragraphWords, List.getElem?_map,
      List.getElem?_range (by decide)] at firstWord
    exact Option.some.inj firstWord
  have final : a + 1 = 8 := after.1
  rw [wordsPerPar_eq] at atZero
  omega

/-- Seven paragraphs are lost between two polls. -/
theorem loss_flagged_instant :
    (instant 0 [256, 2048, 2304] 2400).ring.map
        (fun record => (record.seq, record.gap, record.lost)) =
      [(0, false, 0), (1, true, 7), (2, false, 0)] ∧
    (instant 0 [256, 2048, 2304] 2400).LossFlagged := by
  refine ⟨by decide +kernel, ?_⟩
  have reader_eq : (instant 0 [256, 2048, 2304] 2400).finishReader =
      { next := 9, pending := 0 } := by
    decide +kernel
  have finishPar_eq : (instant 0 [256, 2048, 2304] 2400).finishPar = 9 := by decide
  have totalPar_eq : (instant 0 [256, 2048, 2304] 2400).tram.totalPar = 8 := by decide
  have short (time : Nat) (small : time / wordsPerPar < 2 ^ 32) :
      ∀ g, (Timeline.still time).nowPar g < 0 / wordsPerPar + 2 ^ 32 := by
    intro _
    rw [Nat.zero_div, Nat.zero_add]
    exact small
  refine loss_flagged_of_keepsUp instant_sound ⟨?_, ?_, ?_, ?_, ?_⟩
  · exact ⟨fun _ => ⟨⟨by decide, by decide⟩, by decide, short 256 (by decide)⟩,
      fun _ => ⟨⟨by decide +kernel, by decide +kernel⟩, by decide, short 2048 (by decide)⟩,
      fun _ => ⟨⟨by decide +kernel, by decide +kernel⟩, by decide, short 2304 (by decide)⟩,
      trivial⟩
  · rw [reader_eq, finishPar_eq]
    exact fun _ => ⟨by decide, by decide⟩
  · exact ⟨by decide, short 2400 (by decide)⟩
  · rw [reader_eq, finishPar_eq, totalPar_eq]
    intro _ _
    exact ⟨fun _ => rfl, by decide, fun i inPass => absurd inPass (Nat.not_lt_zero i),
      fun _ _ => rfl⟩
  · intro _
    rw [finishPar_eq]
    show 2400 / wordsPerPar < 9 + Tram.counting.totalPar
    decide

end Session
end Trace
end TriCoreDap
