import TriCoreDap.Library.Word

/-!
# The trace drain

The drain of `dap_trace.c`: it follows the write pointer of the trace FIFO,
reads the complete 1 kB paragraphs in chains of block reads and puts each into
the record ring, with the number of paragraphs lost before it.

The link to the target and the consumer of the ring are
the parameter `Link`: what the block reads answer, and how far the consumer's
tail has moved whenever the drain looks at it.
-/

namespace TriCoreDap
namespace Trace

def fifonow : Nat := 0xFB718200
def tramBase : Nat := 0xB8000000
/-- Bytes of a paragraph, the framing unit. -/
def paragraph : Nat := 0x400
def wordsPerPar : Nat := paragraph / 4
/-- Paragraphs per chained read. -/
def chainPars : Nat := 8
/-- `FIFONOW` is read after every this many paragraphs of a chain. -/
def nowEvery : Nat := 4
def ptrMask : Nat := 0x1FE0
/-- Paragraphs kept between the writer and the oldest one read. -/
def traceMargin : Nat := 3
/-- `FIFOOVRCNT` is read every this many polls. -/
def ovrcntEvery : Nat := 16

def magic : Nat := 0x50525444
def flagGap : Nat := 1
def flagFinal : Nat := 2
/-- `sizeof(dap_trace_record_t)`. -/
def headerBytes : Nat := 20

/-- One record of the drained stream: `dap_trace_record_t` and its payload. -/
structure Record where
  magic : Nat
  seq : Nat
  tramOffset : Nat
  length : Nat
  flags : Nat
  lost : Nat
  words : List Word
  deriving DecidableEq, Repr

/-- Paragraphs were lost before this record. -/
def Record.gap (record : Record) : Bool := record.flags.testBit 0

/-- The last record of a session, which may end early. -/
def Record.isFinal (record : Record) : Bool := record.flags.testBit 1

/-- A record handed to `publish_flags`, and whether it went into the ring. -/
structure Publication where
  record : Record
  inRing : Bool
  deriving DecidableEq, Repr

/-- The counters of `dap_trace_stats_t` that the drain keeps, without the
times and the ring's fill. -/
structure Stats where
  paragraphs : Nat := 0
  lost : Nat := 0
  laps : Nat := 0
  overruns : Nat := 0
  readErrors : Nat := 0
  bytes : Nat := 0
  queueDropped : Nat := 0
  readParagraphs : Nat := 0
  passes : Nat := 0
  deriving DecidableEq, Repr

/-- The drain's static variables.  `published` is the history of the records
handed to `publish_flags` since the trace began; the bytes put into the ring
are those of its `inRing` members. -/
structure Drain where
  bot : Nat
  span : Nat
  nextPar : Nat
  lastOvrcnt : Nat
  pendingLost : Nat
  seq : Nat
  running : Bool
  polls : Nat
  ringBytes : Nat
  ringHead : Nat
  published : List Publication
  stats : Stats
  deriving DecidableEq, Repr

/-- One read of a `dap_probe_blockread_many` batch. -/
structure BlockReq where
  addr : Nat
  count : Nat
  deriving DecidableEq, Repr

/-- `esp_err_t`, as far as the drain returns it. -/
inductive EspErr
  | ok
  | timeout
  | notFound
  | invalidState
  deriving DecidableEq, Repr

/-- What a pass sees of the outside: the answer to its `k`-th chain of block
reads, and the consumer's tail when the `n`-th record is published. -/
structure Link where
  blockreadMany : Nat → List BlockReq → Option (List Word)
  tail : Nat → Nat

namespace Drain

def totalPar (drain : Drain) : Nat := drain.span / paragraph

/-- The paragraph a pointer value lies in. -/
def parOf (drain : Drain) (pointer : Nat) : Nat :=
  sub32 pointer drain.bot % drain.span / paragraph

def ringUsed (drain : Drain) (tail : Nat) : Nat :=
  if tail ≤ drain.ringHead then drain.ringHead - tail
  else drain.ringBytes - tail + drain.ringHead

def ringFree (drain : Drain) (tail : Nat) : Nat :=
  drain.ringBytes - 1 - drain.ringUsed tail

def header
    (drain : Drain)
    (parIndex : Nat)
    (words : List Word)
    (lost extra : Nat) : Record where
  magic := Trace.magic
  seq := drain.seq
  tramOffset := u32 (drain.bot + parIndex * paragraph)
  length := paragraph
  flags := (if lost = 0 then 0 else flagGap) ||| extra
  lost := lost
  words := words

/-- Publish one paragraph, or drop it whole if the ring is full. -/
def publishFlags
    (tail : Nat → Nat)
    (drain : Drain)
    (parIndex : Nat)
    (words : List Word)
    (lost extra : Nat) : Drain :=
  let record := drain.header parIndex words lost extra
  let fits := decide
    (headerBytes + paragraph ≤ drain.ringFree (tail drain.published.length))
  { drain with
    seq := u32 (drain.seq + 1)
    published := drain.published ++ [⟨record, fits⟩]
    ringHead :=
      if fits then (drain.ringHead + headerBytes + paragraph) % drain.ringBytes
      else drain.ringHead
    stats :=
      if fits then
        { drain.stats with
          paragraphs := u32 (drain.stats.paragraphs + 1)
          bytes := u32 (drain.stats.bytes + paragraph) }
      else
        { drain.stats with
          queueDropped := u32 (drain.stats.queueDropped + paragraph) } }

def publish
    (tail : Nat → Nat)
    (drain : Drain)
    (parIndex : Nat)
    (words : List Word)
    (lost : Nat) : Drain :=
  drain.publishFlags tail parIndex words lost 0

/-- Count `n` paragraphs as overwritten before they could be read. -/
def countLoss (drain : Drain) (n : Nat) : Drain :=
  { drain with
    stats :=
      { drain.stats with
        laps := u32 (drain.stats.laps + 1)
        lost := u32 (drain.stats.lost + n) } }

/-- The block reads of a chain of `batch` paragraphs, the last `left` of which
start at paragraph `par`, with a `FIFONOW` word after each group. -/
def chainReqs (drain : Drain) (batch : Nat) : (left par : Nat) → List BlockReq
  | 0, _ => []
  | left + 1, par =>
      let k := batch - (left + 1)
      { addr := u32 (tramBase + drain.bot + par * paragraph)
        count := wordsPerPar } ::
      ((if (k + 1) % nowEvery = 0 ∨ k + 1 = batch then
          [{ addr := fifonow, count := 1 }]
        else []) ++
        chainReqs drain batch left ((par + 1) % drain.totalPar))

end Drain

/-- The variables of the reading loop of `drain_to`. -/
structure Pass where
  drain : Drain
  lost : Nat
  moved : Nat
  prevPar : Nat
  i : Nat

/-- Publish the paragraphs of one group until the writer is found to have
reached one of them before the group's read was over. -/
def judgeGroup
    (tail : Nat → Nat)
    (toRead margin wPar : Nat) :
    List (List Word) → Pass → Pass
  | [], pass => pass
  | words :: rest, pass =>
      if margin + pass.i ≤ pass.moved then
        { pass with
          lost := u32 (pass.lost + (toRead - pass.i))
          drain :=
            { pass.drain.countLoss (toRead - pass.i) with nextPar := wPar }
          i := toRead }
      else
        judgeGroup tail toRead margin wPar rest
          { pass with
            drain :=
              { pass.drain.publish tail pass.drain.nextPar words pass.lost with
                nextPar := (pass.drain.nextPar + 1) % pass.drain.totalPar }
            lost := 0
            i := pass.i + 1 }

/-- The paragraphs at the front of a chain's words. -/
def paragraphsOf (group : Nat) (words : List Word) : List (List Word) :=
  (List.range group).map fun g => (words.drop (g * wordsPerPar)).take wordsPerPar

/-- Go through a chain's words group by group, `left` paragraphs being left. -/
def judgeChain
    (tail : Nat → Nat)
    (toRead margin : Nat) :
    (fuel left : Nat) → List Word → Pass → Pass
  | 0, _, _, pass => pass
  | fuel + 1, left, words, pass =>
      if left = 0 ∨ toRead ≤ pass.i then pass
      else
        let group := min left nowEvery
        let total := pass.drain.totalPar
        let w := words.getD (group * wordsPerPar) 0
        let wPar := pass.drain.parOf (w &&& ptrMask)
        let judged := judgeGroup tail toRead margin wPar
          (paragraphsOf group words)
          { pass with
            moved := u32 (pass.moved + (wPar + total - pass.prevPar) % total)
            prevPar := wPar }
        judgeChain tail toRead margin fuel (left - group)
          (words.drop (group * wordsPerPar + 1)) judged

/-- The reading loop of `drain_to`, one chain of block reads at a time; `false`
when a chain failed. -/
def readChains
    (link : Link)
    (toRead margin : Nat) :
    (fuel chain : Nat) → Pass → Pass × Bool
  | 0, _, pass => (pass, true)
  | fuel + 1, chain, pass =>
      if toRead ≤ pass.i then (pass, true)
      else
        let batch := min (toRead - pass.i) chainPars
        match link.blockreadMany chain
            (pass.drain.chainReqs batch batch pass.drain.nextPar) with
        | none =>
            ({ pass with
               drain :=
                 { pass.drain with
                   stats :=
                     { pass.drain.stats with
                       readErrors := u32 (pass.drain.stats.readErrors + 1) } } },
              false)
        | some words =>
            let counted :=
              { pass with
                drain :=
                  { pass.drain with
                    stats :=
                      { pass.drain.stats with
                        readParagraphs :=
                          u32 (pass.drain.stats.readParagraphs + batch) } } }
            readChains link toRead margin fuel (chain + 1)
              (judgeChain link.tail toRead margin batch batch words counted)

namespace Drain

/-- The overflow counter's movement since the last pass. -/
def noteOverruns (drain : Drain) (ovr : Nat) : Drain :=
  if ovr = drain.lastOvrcnt then drain
  else
    { drain with
      lastOvrcnt := ovr
      stats :=
        { drain.stats with
          overruns := u32 (drain.stats.overruns + sub32 ovr drain.lastOvrcnt) } }

/-- The lap test and the margin drop: the drain, what is available and what is
lost before the first paragraph read. -/
def dropBehind (drain : Drain) (nowPar : Nat) : Drain × Nat × Nat :=
  let total := drain.totalPar
  let available := (nowPar + total - drain.nextPar) % total
  let lapped := total - 1 ≤ available ∧ available ≠ 0
  let resumed :=
    if lapped then { drain.countLoss available with nextPar := nowPar } else drain
  let lost :=
    if lapped then u32 (drain.pendingLost + available) else drain.pendingLost
  let waiting := if lapped then 0 else available
  if total < waiting + traceMargin then
    let n := waiting + traceMargin - total
    ({ resumed.countLoss n with nextPar := (resumed.nextPar + n) % total },
      waiting - n, u32 (lost + n))
  else (resumed, waiting, lost)

/-- A drain pass for a given write pointer. -/
def drainTo
    (link : Link)
    (drain : Drain)
    (now ovr : Nat) : Drain × EspErr :=
  let noted := drain.noteOverruns ovr
  let nowPar := noted.parOf now
  let (behind, toRead, lost) := noted.dropBehind nowPar
  let margin := noted.totalPar - toRead
  let started :=
    if toRead = 0 then behind
    else
      { behind with
        stats := { behind.stats with passes := u32 (behind.stats.passes + 1) } }
  let (pass, readOk) := readChains link toRead margin toRead 0
    { drain := started, lost := lost, moved := 0, prevPar := nowPar, i := 0 }
  ({ pass.drain with pendingLost := pass.lost },
    if readOk then (if toRead = 0 then .notFound else .ok) else .timeout)

/-- One poll of the drain task: `now` and `ovr` are what the two pointer
registers answer, `ovr` being read every sixteenth poll only. -/
def poll
    (link : Link)
    (drain : Drain)
    (now ovr : Option Word) : Drain × EspErr :=
  if !drain.running then (drain, .ok)
  else
    match now with
    | none =>
        ({ drain with
           stats :=
             { drain.stats with
               readErrors := u32 (drain.stats.readErrors + 1) } }, .timeout)
    | some word =>
        let seen :=
          if drain.polls % ovrcntEvery = 0 then ovr.getD drain.lastOvrcnt
          else drain.lastOvrcnt
        drainTo link { drain with polls := u32 (drain.polls + 1) }
          (word &&& ptrMask) seen

/-- Start a trace: `bot`, `top`, `now` and `ovr` are what the FIFO registers
answer.  The ring is allocated. -/
def traceBegin
    (drain : Drain)
    (bot top now ovr : Option Word) : Drain × EspErr :=
  match bot, top, now, ovr with
  | some bot, some top, some now, some ovr =>
      if top ≤ bot ∨ u32 (top - bot + 1) % paragraph ≠ 0 then (drain, .invalidState)
      else
        let geometry := { drain with bot := bot, span := u32 (top - bot + 1) }
        ({ geometry with
           nextPar := geometry.parOf now
           lastOvrcnt := ovr
           pendingLost := 0
           seq := 0
           published := []
           stats := {}
           running := true }, .ok)
  | _, _, _, _ => (drain, .invalidState)

/-- After the drain was stopped: publish what is left, with the last, partial
paragraph.  `now` answers `FIFONOW`; `last` answers the block read of the
paragraph it points into. -/
def traceFinish
    (link : Link)
    (drain : Drain)
    (now : Option Word)
    (last : List BlockReq → Option (List Word)) : Drain × EspErr :=
  if drain.span = 0 then (drain, .invalidState)
  else
    match now with
    | none => (drain, .timeout)
    | some word =>
        let pointer := word &&& ptrMask
        let passed :=
          (drainTo link { drain with running := true } pointer drain.lastOvrcnt).1
        let stopped := { passed with running := false }
        let par := stopped.parOf pointer
        match last [{ addr := u32 (tramBase + stopped.bot + par * paragraph)
                      count := wordsPerPar }] with
        | none => (stopped, .timeout)
        | some words =>
            (stopped.publishFlags link.tail par words 0 flagFinal, .ok)

end Drain
end Trace
end TriCoreDap
