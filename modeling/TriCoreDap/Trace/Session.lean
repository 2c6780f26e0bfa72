import TriCoreDap.Trace.Refinement

/-!
# Sessions of the trace drain

A session is `trace_begin`, any number of polls and `dap_trace_finish`, over
any progress of the writer, any failed reads and any consumer.  The records it
puts into the ring are compared with the order the writer produced the
paragraphs in.
-/

namespace TriCoreDap
namespace Trace

/-- What a poll of the drain task meets: the writer's time at its read of
`FIFONOW`, the answers of the two registers and the reads that follow. -/
structure Poll where
  time : Nat
  word : Option Word
  ovr : Option Word
  timeline : Timeline

/-- What `dap_trace_finish` meets; word `j` of the paragraph the pointer is in
is read at `lastTime j`, unless that read fails. -/
structure Finish where
  time : Nat
  word : Option Word
  timeline : Timeline
  lastTime : Nat → Nat
  lastFails : Bool

/-- A session of the drain on a trace memory, with all that it meets. -/
structure Session where
  tram : Tram
  before : Drain
  beginTime : Nat
  beginWord : Word
  beginOvr : Word
  tail : Nat → Nat
  polls : List Poll
  finish : Finish

namespace Session

def started (session : Session) : Drain :=
  (session.before.traceBegin (some session.tram.bot)
    (some (session.tram.bot + session.tram.span - 1)) (some session.beginWord)
    (some session.beginOvr)).1

def step (session : Session) (drain : Drain) (poll : Poll) : Drain :=
  (drain.poll (poll.timeline.link session.tram session.tail) poll.word poll.ovr).1

def drained (session : Session) : Drain :=
  session.polls.foldl session.step session.started

/-- The answer to the last block read. -/
def last (session : Session) (reqs : List BlockReq) : Option (List Word) :=
  if session.finish.lastFails then none
  else some (reqs.flatMap (session.tram.blockWords session.finish.lastTime))

def finished (session : Session) : Drain :=
  (session.drained.traceFinish
    (session.finish.timeline.link session.tram session.tail) session.finish.word
    session.last).1

/-- The records put into the ring, one after the other. -/
def ring (session : Session) : List Record :=
  (session.finished.published.filter (·.inRing)).map (·.record)

def beginPar (session : Session) : Nat := session.beginTime / wordsPerPar

/-- The paragraph the writer is in when `dap_trace_finish` reads `FIFONOW`. -/
def finishPar (session : Session) : Nat := session.finish.time / wordsPerPar

/-- The record holds the writer's paragraph `a`; the last record holds what the
writer has written of it. -/
def Holds (session : Session) (record : Record) (a : Nat) : Prop :=
  if record.isFinal then
    a = session.finishPar ∧
      ∀ j, j < wordsPerPar → a * wordsPerPar + j < session.finish.time →
        record.words[j]? = some (session.tram.source (a * wordsPerPar + j))
  else record.words = session.tram.paragraphWords a

/-- A record without the gap flag whose sequence number is the next one holds
the paragraph after its predecessor's. -/
def Flagged (session : Session) (record next : Record) : Prop :=
  next.seq = u32 (record.seq + 1) → next.gap = false →
    ∃ a, session.Holds record a ∧ session.Holds next (a + 1)

/-- Trace loss is always flagged. -/
def LossFlagged (session : Session) : Prop :=
  session.ring.IsChain session.Flagged

/-- The registers answer the writer's place and the passes keep the pace: from
one `FIFONOW` read of a pass to the next the writer advances by less than the
buffer. -/
structure Sound (session : Session) : Prop where
  tram : session.tram.Sound
  top_lt : session.tram.bot + session.tram.span ≤ 2 ^ 32
  span_lt : session.tram.span < 2 ^ 32
  begins : sub32 session.beginWord session.tram.bot % session.tram.span / paragraph =
    session.beginPar % session.tram.totalPar
  points : ∀ poll ∈ session.polls, ∀ word, poll.word = some word →
    session.tram.Points word poll.time
  paced : ∀ poll ∈ session.polls, poll.timeline.Paced session.tram poll.time
  finish_points : ∀ word, session.finish.word = some word →
    session.tram.Points word session.finish.time
  finish_paced : session.finish.timeline.Paced session.tram session.finish.time
  last_after : ∀ j, session.finish.time ≤ session.finish.lastTime j

/-- Between the `FIFONOW` reads of one poll and the next, too, the writer
advances by less than the buffer. -/
def Steady (session : Session) : Prop :=
  List.IsChain
    (fun earlier later => earlier ≤ later ∧
      later / wordsPerPar < earlier / wordsPerPar + session.tram.totalPar)
    (session.beginTime :: session.polls.map (·.time) ++ [session.finish.time])

end Session

/-! ## The drain task keeps running -/

namespace Drain

theorem running_judgeGroup
    (tail : Nat → Nat)
    (toRead margin wPar : Nat)
    (group : List (List Word))
    (pass : Pass) :
    (judgeGroup tail toRead margin wPar group pass).drain.running =
      pass.drain.running := by
  induction group generalizing pass with
  | nil => rfl
  | cons words rest inductionHypothesis =>
      rw [judgeGroup]
      split
      · rfl
      · exact inductionHypothesis _

theorem running_judgeChain
    (tail : Nat → Nat)
    (toRead margin fuel left : Nat)
    (words : List Word)
    (pass : Pass) :
    (judgeChain tail toRead margin fuel left words pass).drain.running =
      pass.drain.running := by
  induction fuel generalizing left words pass with
  | zero => rfl
  | succ fuel inductionHypothesis =>
      rw [judgeChain]
      split
      · rfl
      · exact (inductionHypothesis ..).trans (running_judgeGroup ..)

theorem running_readChains
    (link : Link)
    (toRead margin fuel chain : Nat)
    (pass : Pass) :
    (readChains link toRead margin fuel chain pass).1.drain.running =
      pass.drain.running := by
  induction fuel generalizing chain pass with
  | zero => rfl
  | succ fuel inductionHypothesis =>
      simp only [readChains]
      split
      · rfl
      · cases link.blockreadMany chain _ with
        | none => rfl
        | some words =>
            exact (inductionHypothesis ..).trans (running_judgeChain ..)

theorem running_drainTo
    (link : Link)
    (drain : Drain)
    (now ovr : Nat) :
    (drain.drainTo link now ovr).1.running = drain.running := by
  have noted : (drain.noteOverruns ovr).running = drain.running := by
    rw [noteOverruns]
    split <;> rfl
  have behind (nowPar : Nat) :
      ((drain.noteOverruns ovr).dropBehind nowPar).1.running = drain.running := by
    simp only [dropBehind]
    split <;> split <;> exact noted
  simp only [drainTo, running_readChains]
  split <;> exact behind _

variable {drain : Drain}

theorem poll_none (running : drain.running = true) :
    drain.poll link none ovr =
      ({ drain with
         stats :=
           { drain.stats with
             readErrors := u32 (drain.stats.readErrors + 1) } }, .timeout) := by
  simp [poll, running]

theorem poll_some (running : drain.running = true) :
    drain.poll link (some word) ovr =
      drainTo link { drain with polls := u32 (drain.polls + 1) } (word &&& ptrMask)
        (if drain.polls % ovrcntEvery = 0 then ovr.getD drain.lastOvrcnt
          else drain.lastOvrcnt) := by
  simp [poll, running]

theorem records_publishFlags (drain : Drain) :
    (drain.publishFlags tail par words lost extra).records =
      drain.records ++ [drain.header par words lost extra] := by
  simp [publishFlags, records]

@[simp] theorem pendingLost_publishFlags (drain : Drain) :
    (drain.publishFlags tail par words lost extra).pendingLost = drain.pendingLost := rfl

@[simp] theorem statsLost_publishFlags (drain : Drain) :
    (drain.publishFlags tail par words lost extra).stats.lost = drain.stats.lost := by
  simp only [publishFlags]
  split <;> rfl

/-- `dap_trace_finish` once its drain pass is known. -/
theorem traceFinish_of_passed
    {passed : Drain}
    {last : List BlockReq → Option (List Word)}
    (spanPos : drain.span ≠ 0)
    (passed_eq : (drainTo link { drain with running := true } (word &&& ptrMask)
      drain.lastOvrcnt).1 = passed) :
    (traceFinish link drain (some word) last).1 =
      match last [{ addr := u32 (tramBase + passed.bot +
                      passed.parOf (word &&& ptrMask) * paragraph)
                    count := wordsPerPar }] with
      | none => { passed with running := false }
      | some words =>
          ({ passed with running := false } : Drain).publishFlags link.tail
            (passed.parOf (word &&& ptrMask)) words 0 flagFinal := by
  subst passed_eq
  simp only [traceFinish, if_neg spanPos]
  split <;> simp_all [parOf]

end Drain

/-! ## The reader of a session -/

theorem Timeline.Paced.start_le_nowPar
    {timeline : Timeline}
    (paced : timeline.Paced tram start)
    (g : Nat) : start / wordsPerPar ≤ timeline.nowPar g := by
  apply Nat.div_le_div_right
  induction g with
  | zero => exact paced.now_after
  | succ g inductionHypothesis => exact inductionHypothesis.trans (paced.now_mono g)

namespace Follow

/-- Where a poll leaves the reader. -/
def Reader.afterPoll (tram : Tram) (reader : Reader) (poll : Poll) : Reader :=
  match poll.word with
  | none => reader
  | some _ =>
      (pass tram.totalPar reader (poll.time / wordsPerPar) poll.timeline.nowPar
        poll.timeline.fails).reader

/-- Every poll that reads `FIFONOW` finds the writer less than a lap past the
reader's next paragraph, and no later than paragraph `limit`. -/
def KeptUp (tram : Tram) (limit : Nat) : Reader → List Poll → Prop
  | _, [] => True
  | reader, poll :: rest =>
      (poll.word.isSome = true →
        Drain.WithinLap tram reader (poll.time / wordsPerPar) ∧
          poll.time / wordsPerPar < limit ∧ ∀ g, poll.timeline.nowPar g < limit) ∧
        KeptUp tram limit (reader.afterPoll tram poll) rest

/-- How many paragraphs a pass drops to keep its margin. -/
def dropped (total : Nat) (reader : Reader) (writer : Nat) : Nat :=
  writer - reader.next + traceMargin - total

/-- How many paragraphs a pass reads. -/
def toRead (total : Nat) (reader : Reader) (writer : Nat) : Nat :=
  writer - reader.next - dropped total reader writer

/-- Nothing is left behind by a pass: nothing was waiting and no loss pending,
or the reader is not lapped and all that the margin leaves is read intact. -/
structure CatchesUp
    (total : Nat)
    (reader : Reader)
    (writer : Nat)
    (nowPar : Nat → Nat)
    (fails : Nat → Bool) : Prop where
  idle : writer = reader.next → reader.pending = 0
  notLapped : writer ≠ reader.next →
    writer - reader.next < total - 1 ∧ traceMargin < total
  intact : ∀ i, i < toRead total reader writer →
    nowPar (i / nowEvery) < reader.next + dropped total reader writer + i + total
  answered : ∀ chain, chain * chainPars < toRead total reader writer →
    fails chain = false

/-- What a pass does to the account of read and lost paragraphs. -/
structure Account (reader : Reader) (outcome : Outcome) : Prop where
  first_ge : reader.next ≤ outcome.first
  lost_eq : 0 < outcome.count →
    outcome.lost = reader.pending + (outcome.first - reader.next)
  busy : 0 < outcome.count →
    outcome.first + outcome.count + outcome.reader.pending ≤ outcome.reader.next ∧
      (outcome.reader.pending = 0 →
        outcome.reader.next = outcome.first + outcome.count)
  idle : outcome.count = 0 →
    reader.next + outcome.reader.pending ≤ reader.pending + outcome.reader.next ∧
      (outcome.reader.pending = 0 →
        reader.pending = 0 ∧ outcome.reader.next = reader.next)

variable {tram : Tram} {reader : Reader} {nowPar : Nat → Nat} {fails : Nat → Bool}

/-- Every pass keeps the account. -/
theorem account_pass
    (fails : Nat → Bool)
    (behind : reader.next ≤ writer)
    (enough : traceMargin ≤ total)
    (lap : writer < reader.next + total)
    (ahead : ∀ g, writer ≤ nowPar g) :
    Account reader (pass total reader writer nowPar fails) := by
  unfold pass
  by_cases lapped : total - 1 ≤ writer - reader.next ∧ writer - reader.next ≠ 0
  · simp only [if_pos lapped]
    constructor <;> simp <;> omega
  · simp only [if_neg lapped]
    have ends := ends_walk
      (writer - reader.next - (writer - reader.next + traceMargin - total)) 0
      (Walked.zero
        (intactAt total
          (reader.next + (writer - reader.next + traceMargin - total)) nowPar) fails)
    rw [Nat.zero_add] at ends
    revert ends
    cases walk (intactAt total
        (reader.next + (writer - reader.next + traceMargin - total)) nowPar) fails
        (writer - reader.next - (writer - reader.next + traceMargin - total)) 0 with
    | complete =>
        intro _
        constructor <;> grind
    | failed i =>
        rintro ⟨bound, -, -⟩
        constructor <;> grind
    | torn i =>
        rintro ⟨bound, -, -⟩
        have reached := ahead (i / nowEvery)
        constructor <;> grind

/-- A pass leaves the reader at paragraphs the writer was seen in. -/
theorem pass_next_lt
    (fails : Nat → Bool)
    (behind : reader.next ≤ writer)
    (enough : traceMargin ≤ total)
    (writerLt : writer < limit)
    (nowLt : ∀ g, nowPar g < limit) :
    (pass total reader writer nowPar fails).reader.next < limit := by
  unfold pass
  by_cases lapped : total - 1 ≤ writer - reader.next ∧ writer - reader.next ≠ 0
  · simpa only [if_pos lapped] using writerLt
  · simp only [if_neg lapped]
    have ends := ends_walk
      (writer - reader.next - (writer - reader.next + traceMargin - total)) 0
      (Walked.zero
        (intactAt total
          (reader.next + (writer - reader.next + traceMargin - total)) nowPar) fails)
    rw [Nat.zero_add] at ends
    revert ends
    cases walk (intactAt total
        (reader.next + (writer - reader.next + traceMargin - total)) nowPar) fails
        (writer - reader.next - (writer - reader.next + traceMargin - total)) 0 with
    | complete =>
        intro _
        exact writerLt
    | failed i =>
        rintro ⟨bound, -, -⟩
        show reader.next + (writer - reader.next + traceMargin - total) + i < limit
        omega
    | torn i =>
        intro _
        exact nowLt _

/-- A pass that catches up leaves the reader at the writer's paragraph with no
loss pending. -/
theorem CatchesUp.reader_eq
    (catches : CatchesUp total reader writer nowPar fails)
    (behind : reader.next ≤ writer)
    (enough : traceMargin ≤ total) :
    (pass total reader writer nowPar fails).reader =
      { next := writer, pending := 0 } := by
  have kept : ¬(total - 1 ≤ writer - reader.next ∧ writer - reader.next ≠ 0) := by
    rintro ⟨lapped, waiting⟩
    have := catches.notLapped (by omega)
    omega
  have ends : Ends
      (intactAt total
        (reader.next + (writer - reader.next + traceMargin - total)) nowPar) fails
      (writer - reader.next - (writer - reader.next + traceMargin - total))
      .complete := by
    constructor
    · intro i bound
      exact decide_eq_true (catches.intact i bound)
    · intro i bound start
      apply catches.answered
      simp only [toRead, dropped, chainPars] at *
      omega
  simp only [pass, if_neg kept, walk_eq_of_ends ends]
  split
  · next nothing =>
      have caught : writer = reader.next := by
        by_contra waiting
        have := catches.notLapped waiting
        omega
      have := catches.idle caught
      simp only [Reader.mk.injEq, true_and]
      omega
  · rfl

end Follow
end Trace
end TriCoreDap
