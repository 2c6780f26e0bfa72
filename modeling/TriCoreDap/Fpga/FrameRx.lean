import TriCoreDap.Fpga.Crc6

/-!
# The frame receiver

`dap_frame_rx.v`, with the checker of `dap_crc6.v`.  A sample changes the registers of
the frame and of the capture; those of the beat tell when one is taken, and those of the
budget when a fast reply has had its clocks.  `dap1_ctl` is the sample of `dap1_in` in a
register of its own.
-/

namespace TriCoreDap
namespace Fpga

/-- The states of `dap_frame_rx`; `ending` is `S_END`. -/
inductive RxState
  | idle
  | hunt
  | data
  | crc
  | trail
  | ending
  deriving DecidableEq, Repr

/-- The lines at a clock. -/
structure RxLines where
  dap1In : Bool
  dap1Ctl : Bool
  dap2In : Bool

/-- What the receiver meets at a clock. -/
structure RxInput (W : Nat) extends RxLines where
  rst : Bool
  div : BitVec W
  start : Bool
  replyBits : BitVec 7
  maxWait : BitVec 16
  trailClocks : BitVec 8
  expectCrc : Bool
  noHunt : Bool
  wide : Bool
  fast : Bool
  lag : BitVec 3
  stream : Bool
  parcels : BitVec 9
  room : Bool

/-- The registers of a reply: its parameters, its fields and what it reports. -/
structure RxFrame where
  state : RxState
  left : BitVec 7
  atLast : Bool
  nbitsR : BitVec 7
  nbitsLast : BitVec 7
  nbZero : Bool
  crcR : Bool
  trailR : BitVec 8
  hasTrail : Bool
  trailLeft : BitVec 8
  wideR : Bool
  waitLeft : BitVec 16
  atLimit : Bool
  allOnes : Bool
  streamR : Bool
  cntR : BitVec 9
  contR : Bool
  busy : Bool
  done : Bool
  pdone : Bool
  waitCycles : BitVec 16
  timedOut : Bool
  idleHigh : Bool
  crcOk : Bool
  startAligned : Bool

/-- The shift registers of the fields with their entry points, and the CRC checker. -/
structure RxCapture where
  payEven : BitVec 63
  payOdd : BitVec 32
  crcEven : BitVec 6
  crcOdd : BitVec 3
  payAt : BitVec 63
  crcAt : BitVec 6
  check : BitVec 6
  crcRst : Bool

/-- The half period, and the strobe of the samples. -/
structure RxBeat (W : Nat) where
  tick : BitVec W
  tickDone : Bool
  phase : Bool
  samplePhase : Bool
  sampleTake : Bool
  fastR : Bool
  clkHist : BitVec 8
  lagTap : BitVec 3
  dap0 : Bool

/-- The clock budget of fast mode. -/
structure RxBudget where
  afterR : BitVec 9
  inFlight : BitVec 9
  inFlight1 : BitVec 9
  left0 : BitVec 10
  left1 : BitVec 10
  pulseInit : BitVec 9
  pulsesLeft : BitVec 9
  counting : Bool
  piGo : Bool
  goR : Bool

/-- What is decided ahead of a parcel's start bit. -/
structure RxStreaming where
  moreR : Bool
  lastNx : Bool
  contOk : Bool
  ssCont : Bool
  ncR : Bool

/-- The registers of `dap_frame_rx`. -/
structure FrameRx (W : Nat) where
  frame : RxFrame
  capture : RxCapture
  beat : RxBeat W
  budget : RxBudget
  streaming : RxStreaming
  waitLeft0 : BitVec 16
  waitNone : Bool
  hunting : Bool
  datOe : Bool

variable {W : Nat}

namespace RxInput

/-- `nbits_last_in`. -/
def nbitsLastIn (i : RxInput W) : BitVec 7 :=
  if i.wide then (i.replyBits - 1) >>> 1 else i.replyBits - 1

/-- `nbits_last_in == 0`, without its subtract. -/
def oneSample (i : RxInput W) : Bool := i.replyBits == 1 || i.wide && i.replyBits == 2

end RxInput

namespace RxFrame

/-- `crc_last`: six CRC bits are six samples narrow and three wide. -/
def crcLast (f : RxFrame) : BitVec 7 := if f.wideR then 2 else 5

/-- `done` and `pdone` stand for one clock. -/
def fallen (f : RxFrame) : RxFrame := { f with done := false, pdone := false }

/-- The parameters, taken every idle clock. -/
def load (f : RxFrame) (i : RxInput W) (waitLeft0 : BitVec 16) (waitNone : Bool) : RxFrame :=
  { f with
    nbitsR := i.replyBits
    nbitsLast := i.nbitsLastIn
    nbZero := i.oneSample
    atLast := i.oneSample
    wideR := i.wide
    crcR := i.expectCrc && !i.noHunt
    trailR := i.trailClocks
    hasTrail := i.trailClocks != 0
    waitLeft := waitLeft0
    atLimit := waitNone
    trailLeft := i.trailClocks
    left := i.nbitsLastIn
    allOnes := true
    streamR := i.stream && !i.noHunt
    cntR := i.parcels
    contR := false }

/-- What `start` adds to them.  Raw mode goes straight into the payload. -/
def begin (f : RxFrame) (i : RxInput W) (waitLeft0 : BitVec 16) (waitNone : Bool) : RxFrame :=
  { f.load i waitLeft0 waitNone with
    busy := true
    state := if i.noHunt then .data else .hunt
    waitCycles := 0
    timedOut := false
    idleHigh := false
    crcOk := false
    startAligned := false }

/-- Where the samples go on after the payload and after the CRC. -/
def afterFields (f : RxFrame) : RxState := if f.hasTrail then .trail else .ending

/-- The state after a sample. -/
def nextState (f : RxFrame) (i : RxLines) : RxState :=
  match f.state with
  | .hunt =>
      if i.dap1Ctl then if f.nbitsR == 0 then f.afterFields else .data
      else if f.atLimit then .ending
      else .hunt
  | .data =>
      if f.atLast && f.contR then .hunt
      else if f.atLast then if f.crcR then .crc else f.afterFields
      else .data
  | .crc => if f.atLast then f.afterFields else .crc
  | .trail => if f.trailLeft == 1 then .ending else .trail
  | .idle | .ending => .ending

/-- A busy sample that counts: `hunting` is a clock old. -/
def waits (f : RxFrame) (hunting : Bool) (i : RxLines) : Bool :=
  hunting && !i.dap1Ctl && !f.atLimit

/-- The bit, on the edge that takes it. -/
def sample (f : RxFrame) (hunting : Bool) (i : RxLines) : RxFrame :=
  { f with
    state := f.nextState i
    startAligned := if f.state == .hunt && i.dap1Ctl then i.dap2In else f.startAligned
    crcOk := if f.state == .hunt && i.dap1Ctl && f.nbitsR == 0 then true else f.crcOk
    timedOut := if f.state == .hunt && !i.dap1Ctl && f.atLimit then true else f.timedOut
    allOnes :=
      match f.state with
      | .data | .crc => f.allOnes && i.dap1In && (i.dap2In || !f.wideR)
      | _ => f.allOnes
    pdone := f.state == .data && f.atLast && f.contR
    trailLeft :=
      match f.state with
      | .trail => if f.trailLeft == 1 then f.trailLeft else f.trailLeft - 1
      | _ => f.trailLeft
    left :=
      match f.state with
      | .data => if f.atLast then f.crcLast else f.left - 1
      | .crc => f.left - 1
      | _ => f.nbitsLast
    atLast :=
      match f.state with
      | .data | .crc => !f.atLast && f.left == 1
      | _ => f.nbZero
    waitCycles := if f.waits hunting i then f.waitCycles + 1 else f.waitCycles
    waitLeft := if f.waits hunting i then f.waitLeft - 1 else f.waitLeft
    atLimit := if f.waits hunting i then f.waitLeft == 1 else f.atLimit }

/-- A parcel that streams on: the next one is counted, and gets its own timeout. -/
def streamOn
    (f : RxFrame)
    (streaming : RxStreaming)
    (waitLeft0 : BitVec 16)
    (waitNone : Bool) : RxFrame :=
  { f with
    contR := true
    cntR := f.cntR - 1
    crcR := streaming.lastNx
    waitCycles := 0
    waitLeft := waitLeft0
    atLimit := waitNone }

/-- The end of the reply. -/
def finish (f : RxFrame) (residueOk : Bool) (g : RxFrame) : RxFrame :=
  { g with
    crcOk := if f.nbitsR == 0 || !f.crcR then !f.timedOut else residueOk && !f.timedOut
    idleHigh := f.allOnes && f.nbitsR != 0 && !f.timedOut
    busy := false
    done := true
    state := .idle }

/-- The clocks of the reply after its start bit: `after_all`. -/
def afterAll (f : RxFrame) : BitVec 9 :=
  (if f.nbitsR == 0 then 0 else f.nbitsLast.setWidth 9 + 1) +
    (if f.crcR then f.crcLast.setWidth 9 + 1 else 0) +
    (if f.hasTrail then f.trailR.setWidth 9 else 0)

end RxFrame

namespace RxCapture

/-- A sample enters at the field's last position, and everything shifts down a place. -/
def shiftIn {n : Nat} (field entry : BitVec n) (bit : Bool) : BitVec n :=
  field >>> 1 &&& ~~~entry ||| (if bit then entry else 0)

/-- The bits of a sample. -/
def take (c : RxCapture) (f : RxFrame) (sampleTake : Bool) (i : RxLines) : RxCapture :=
  let takeData := sampleTake && f.state == .data
  let takeCrc := sampleTake && f.state == .crc
  { c with
    payEven := if takeData then shiftIn c.payEven c.payAt i.dap1In else c.payEven
    payOdd := if takeData then shiftIn c.payOdd (c.payAt.setWidth 32) i.dap2In else c.payOdd
    crcEven := if takeCrc then shiftIn c.crcEven c.crcAt i.dap1In else c.crcEven
    crcOdd := if takeCrc then shiftIn c.crcOdd (c.crcAt.setWidth 3) i.dap2In else c.crcOdd }

/-- The clock of `dap_crc6_check`. -/
def checkNext (c : RxCapture) (f : RxFrame) (sampleTake : Bool) (i : RxLines) : BitVec 6 :=
  if c.crcRst then fiboSeed
  else if sampleTake && (f.state == .data || f.state == .crc) then
    crcClock fiboStep f.wideR c.check (i.dap1In, i.dap2In)
  else c.check

/-- `residue_ok`. -/
def residueOk (c : RxCapture) : Bool := c.check == 0

end RxCapture

namespace FrameRx

/-- `div_zero`. -/
def divZero (m : FrameRx W) (i : RxInput W) : Bool := m.beat.fastR || i.div == 0

/-- `leaving`: the clock that lands next cycle. -/
def leaving (m : FrameRx W) : Bool := m.beat.clkHist.getLsbD m.beat.lagTap.toNat

/-- `sample_now`. -/
def sampleNow (m : FrameRx W) : Bool := m.beat.phase == m.beat.samplePhase && m.beat.tickDone

/-- `start_seen`. -/
def startSeen (m : FrameRx W) (i : RxInput W) : Bool :=
  m.beat.sampleTake && m.frame.state == .hunt && i.dap1Ctl

/-- `dap0_d`. -/
def dap0D (m : FrameRx W) (i : RxInput W) : Bool :=
  if i.rst || m.frame.state == .ending then false
  else if m.frame.state == .idle then i.start && i.fast
  else if !m.beat.tickDone then m.beat.dap0
  else if !m.beat.fastR then !m.beat.phase
  else m.budget.goR

/-- The registers of the reply at a clock. -/
def frameNext (m : FrameRx W) (i : RxInput W) : RxFrame :=
  let f := m.frame.fallen
  if i.rst then { f with state := .idle, busy := false }
  else if m.frame.state == .idle then
    if i.start then f.begin i m.waitLeft0 m.waitNone else f.load i m.waitLeft0 m.waitNone
  else
    let sampled := if m.beat.sampleTake then f.sample m.hunting i.toRxLines else f
    let streamed :=
      if m.streaming.ssCont then sampled.streamOn m.streaming m.waitLeft0 m.waitNone
      else if m.frame.pdone then { sampled with contR := false }
      else sampled
    if m.frame.state == .ending then m.frame.finish m.capture.residueOk streamed else streamed

/-- The registers of the capture at a clock. -/
def captureNext (m : FrameRx W) (i : RxInput W) : RxCapture :=
  let begins := m.frame.state == .idle && i.start
  let c :=
    if begins then
      { m.capture with payEven := 0, payOdd := 0, crcEven := 0, crcOdd := 0 }
    else m.capture.take m.frame m.beat.sampleTake i.toRxLines
  { c with
    payAt := 1#63 <<< m.frame.nbitsLast.toNat
    crcAt := 1#6 <<< m.frame.crcLast.toNat
    check := m.capture.checkNext m.frame m.beat.sampleTake i.toRxLines
    crcRst := !i.rst && (begins || m.frame.state == .data && m.beat.sampleTake &&
      m.frame.atLast && m.frame.contR) }

/-- The half period and the strobe at a clock. -/
def beatNext (m : FrameRx W) (i : RxInput W) : RxBeat W :=
  let idle := m.frame.state == .idle
  let b :=
    { m.beat with
      lagTap := i.lag - 1
      dap0 := m.dap0D i
      sampleTake := !i.rst && !idle && (if m.beat.fastR then m.leaving else m.sampleNow)
      clkHist := if idle then 0 else m.beat.clkHist <<< 1 ||| (BitVec.ofBool m.beat.dap0).setWidth 8 }
  if i.rst then { b with fastR := false, tick := i.div, tickDone := i.div == 0, phase := false }
  else if idle then
    { b with
      fastR := i.fast
      samplePhase := !(i.fast || i.div == 0)
      tick := i.div
      tickDone := i.fast || i.div == 0
      phase := i.fast }
  else if !m.beat.tickDone then
    { b with tick := m.beat.tick - 1, tickDone := m.beat.tick == 1 }
  else
    { b with
      tick := i.div
      tickDone := m.divZero i
      phase :=
        if m.beat.fastR then !m.leaving
        else if !m.beat.phase then m.frame.state != .ending
        else false }

/-- The clock budget at a clock: one operation a stage. -/
def budgetNext (m : FrameRx W) (i : RxInput W) : RxBudget :=
  let b := m.budget
  let staged :=
    { b with
      inFlight := i.lag.setWidth 9 + 1
      inFlight1 := i.lag.setWidth 9 + 2
      afterR := m.frame.afterAll
      left0 := b.afterR.setWidth 10 - b.inFlight.setWidth 10
      left1 := b.afterR.setWidth 10 - b.inFlight1.setWidth 10
      pulseInit := if b.left0.msb then 0 else b.left0.setWidth 9
      piGo := !b.left1.msb && b.left1 != 0 || m.streaming.moreR && i.room }
  if m.frame.state == .idle then { staged with counting := false, pulsesLeft := 0, goR := true }
  else if m.beat.fastR && m.startSeen i then
    { staged with counting := m.streaming.ncR, pulsesLeft := b.pulseInit, goR := b.piGo }
  else
    { staged with
      pulsesLeft := b.pulsesLeft - 1
      goR := if b.counting then b.goR && BitVec.ult 2 b.pulsesLeft else b.goR }

/-- The decisions ahead of a parcel at a clock. -/
def streamingNext (m : FrameRx W) (i : RxInput W) : RxStreaming where
  moreR := m.frame.streamR && BitVec.ult 1 m.frame.cntR
  lastNx := m.frame.cntR == 2
  contOk := m.streaming.moreR && i.room
  ncR := !(m.streaming.moreR && i.room)
  ssCont := m.startSeen i && m.streaming.contOk

/-- `always @(posedge clk)`. -/
def clock (m : FrameRx W) (i : RxInput W) : FrameRx W where
  frame := m.frameNext i
  capture := m.captureNext i
  beat := m.beatNext i
  budget := m.budgetNext i
  streaming := m.streamingNext i
  waitLeft0 := if i.maxWait == 0 then 0 else i.maxWait - 1
  waitNone := i.maxWait.ule 1
  hunting := m.frame.state == .hunt
  datOe :=
    if i.rst then true
    else if m.frame.state == .idle then if i.start then false else m.datOe
    else if m.frame.state == .ending then true
    else m.datOe

/-- The receiver after some clocks of a run. -/
def after (m : FrameRx W) (inputs : Nat → RxInput W) : Nat → FrameRx W
  | 0 => m
  | n + 1 => (m.after inputs n).clock (inputs n)

/-- The wires `payload`: DAP1 has the even bits in wide mode, DAP2 the odd ones. -/
def payload (m : FrameRx W) (k : Nat) : Bool :=
  if m.frame.wideR then
    if k % 2 = 0 then m.capture.payEven.getLsbD (k / 2) else m.capture.payOdd.getLsbD (k / 2)
  else m.capture.payEven.getLsbD k

/-- The wires `crc`. -/
def crc (m : FrameRx W) (k : Nat) : Bool :=
  if m.frame.wideR then
    if k % 2 = 0 then m.capture.crcEven.getLsbD (k / 2) else m.capture.crcOdd.getLsbD (k / 2)
  else m.capture.crcEven.getLsbD k

end FrameRx

end Fpga
end TriCoreDap
