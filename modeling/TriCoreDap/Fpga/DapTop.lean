import TriCoreDap.Fpga.FrameRx

/-!
# The sequencer

`dap_top.v` on its fabric clock: the registers that the host writes, the sequencer, the
pusher that puts received words into the reply FIFO, and the write FIFO, with the receiver
that they drive.  Register writes come from the SPI slave, `done` from the transmitter, the
samples from the capture taps and the count from the reply FIFO.
-/

namespace TriCoreDap
namespace Fpga

/-- A register write, a clock behind the SPI slave's bus. -/
structure RegWrite where
  addr : BitVec 7
  data : BitVec 8

/-- What `dap_top` meets at a clock. -/
structure TopInput (AW : Nat) where
  rst : Bool
  wr : Option RegWrite
  txDone : Bool
  dap1In : Bool
  dap2In : Bool
  fifoCnt : BitVec (AW + 1)

/-- The registers that the sequencer and the receiver read. -/
structure HostRegs where
  div : BitVec 8
  rbits : BitVec 7
  trail : BitVec 8
  maxwait : BitVec 16
  parcels : BitVec 8
  data : BitVec 64
  noHunt : Bool
  wide : Bool
  rxWide : Bool
  fast : Bool
  skew1 : BitVec 2
  lag : BitVec 2

/-- The requests of the control register. -/
structure Requests where
  startFrame : Bool
  startBwrite : Bool
  abort : Bool
  pendSet : Bool
  blockPend : Bool
  fifoClear : Bool
  wfifoClear : Bool

/-- The states of the sequencer. -/
inductive SeqState
  | idle
  | tx
  | rx
  | parcel
  | store
  | done
  | wack
  | wfetch
  | wparcel
  deriving DecidableEq, Repr

/-- The registers of the sequencer. -/
structure Sequencer where
  q : SeqState
  isBlock : Bool
  isBwrite : Bool
  parcelsLeft : BitVec 9
  pl1 : Bool
  pl2 : Bool
  storeWord : BitVec 32
  storeGo : Bool
  txStart : Bool
  rxStart : Bool
  rxBits : BitVec 7
  rxExpectCrc : Bool
  wbyte : BitVec 2
  wfetchWait : Bool
  wlast : Bool

/-- What is reported of a frame or of a block. -/
structure Status where
  reply : BitVec 32
  crc : BitVec 6
  wait : BitVec 16
  done : Bool
  timedOut : Bool
  idleHigh : Bool
  crcOk : Bool
  overrun : Bool
  aligned : Bool
  busy : Bool

/-- The registers of the pusher. -/
structure Pusher where
  pushing : Bool
  pushLeft : BitVec 2
  pushWord : BitVec 32
  fifoPush : Bool
  fifoDin : BitVec 8

/-- The write FIFO. -/
structure WriteFifo where
  mem : BitVec 12 → BitVec 8
  wr : BitVec 12
  rd : BitVec 12
  count : BitVec 12
  empty : Bool
  full : Bool
  head : BitVec 8

/-- The registers of `dap_top`, the receiver's included. -/
structure DapTop where
  regs : HostRegs
  rxLag : BitVec 3
  rxWideAny : Bool
  requests : Requests
  seq : Sequencer
  status : Status
  pusher : Pusher
  fifoRoom : Bool
  rxRoom : Bool
  wfifo : WriteFifo
  rx : FrameRx 8

/-- `WFIFO_DEPTH`. -/
def wfifoDepth : BitVec 12 := 512

variable {AW : Nat}

/-- A write to the register at an address. -/
def TopInput.writes (i : TopInput AW) (addr : BitVec 7) : Option (BitVec 8) :=
  match i.wr with
  | none => none
  | some w => if w.addr = addr then some w.data else none

/-- `ctrl_we`: CTRL, or GO. -/
def TopInput.ctrl (i : TopInput AW) : Option (BitVec 8) :=
  match i.wr with
  | none => none
  | some w => if w.addr = 0x01 ∨ w.addr = 0x18 then some w.data else none

/-- A bit of the byte that is written to CTRL or GO, if one is. -/
def TopInput.ctrlBit (i : TopInput AW) (bit : Nat) : Bool :=
  i.ctrl.any fun data => data.getLsbD bit

/-- Byte `k` of DATA. -/
def setByte (data : BitVec 64) (k : Nat) (byte : BitVec 8) : BitVec 64 :=
  data &&& ~~~(0xFF#64 <<< (8 * k)) ||| byte.setWidth 64 <<< (8 * k)

/-- The bits of a word that are given one by one. -/
def wordOf (bit : Nat → Bool) : BitVec 32 :=
  (BitVec.ofBoolListLE ((List.range 32).map bit)).setWidth 32

namespace HostRegs

/-- The register file at a clock that brings a write. -/
def write (r : HostRegs) (w : RegWrite) : HostRegs :=
  match w.addr.toNat with
  | 0x02 => { r with div := w.data }
  | 0x06 => { r with rbits := w.data.setWidth 7 }
  | 0x07 => { r with trail := w.data }
  | 0x08 => { r with maxwait := (r.maxwait.extractLsb' 8 8) ++ w.data }
  | 0x09 => { r with maxwait := w.data ++ r.maxwait.setWidth 8 }
  | 0x0A => { r with parcels := w.data }
  | 0x0B =>
      { r with
        noHunt := w.data.getLsbD 1
        wide := w.data.getLsbD 2
        rxWide := w.data.getLsbD 5
        fast := w.data.getLsbD 6 }
  | 0x0F => { r with skew1 := w.data.setWidth 2, lag := w.data.extractLsb' 6 2 }
  | 0x10 => { r with data := setByte r.data 0 w.data }
  | 0x11 => { r with data := setByte r.data 1 w.data }
  | 0x12 => { r with data := setByte r.data 2 w.data }
  | 0x13 => { r with data := setByte r.data 3 w.data }
  | 0x14 => { r with data := setByte r.data 4 w.data }
  | 0x15 => { r with data := setByte r.data 5 w.data }
  | 0x16 => { r with data := setByte r.data 6 w.data }
  | 0x17 => { r with data := setByte r.data 7 w.data }
  | _ => r

end HostRegs

namespace Sequencer

/-- A parcel is counted off; `pl1` and `pl2` are kept beside the counter. -/
def counted (s : Sequencer) : Sequencer :=
  { s with
    parcelsLeft := s.parcelsLeft - 1
    pl1 := s.pl2
    pl2 := s.parcelsLeft == 3 }

end Sequencer

namespace WriteFifo

/-- The position behind one. -/
def after (position : BitVec 12) : BitVec 12 :=
  if position = wfifoDepth - 1 then 0 else position + 1

/-- The write FIFO at a clock.  The head is what the memory held before it. -/
def next (f : WriteFifo) (clear : Bool) (pushed : Option (BitVec 8)) (pop : Bool) : WriteFifo :=
  let f' := { f with head := f.mem f.rd }
  if clear then { f' with wr := 0, rd := 0, count := 0, empty := true, full := false }
  else
    match pushed, pop with
    | some byte, false =>
        { f' with
          mem := Function.update f.mem f.wr byte
          wr := after f.wr
          count := f.count + 1
          empty := false
          full := f.count + 1 == wfifoDepth }
    | none, true =>
        { f' with
          rd := after f.rd
          count := f.count - 1
          empty := f.count == 1
          full := false }
    | some byte, true =>
        { f' with
          mem := Function.update f.mem f.wr byte
          wr := after f.wr
          rd := after f.rd }
    | none, false => f'

end WriteFifo

namespace DapTop

/-! ## Wires -/

/-- What the receiver meets. -/
def rxInput (t : DapTop) (i : TopInput AW) : RxInput 8 where
  rst := i.rst
  div := t.regs.div
  start := t.seq.rxStart
  replyBits := t.seq.rxBits
  maxWait := t.regs.maxwait
  trailClocks := t.regs.trail
  expectCrc := t.seq.rxExpectCrc
  noHunt := t.regs.noHunt
  wide := t.rxWideAny
  fast := t.regs.fast
  lag := t.rxLag
  stream := t.seq.isBlock && !t.seq.isBwrite
  parcels := t.seq.parcelsLeft
  room := t.rxRoom
  dap1In := i.dap1In
  dap1Ctl := i.dap1In
  dap2In := i.dap2In

/-- `rx_payload[31:0]`. -/
def rxWord (t : DapTop) : BitVec 32 := wordOf t.rx.payload

/-- `wfetch_go`: a byte is taken from the write FIFO. -/
def wfetchGo (t : DapTop) : Bool :=
  t.seq.q == .wfetch && !t.seq.wfetchWait && !t.wfifo.empty

/-- `wfifo_push`, with its byte. -/
def wfifoPush (t : DapTop) (i : TopInput AW) : Option (BitVec 8) :=
  if t.wfifo.full then none else i.writes 0x48

/-- `block_take`. -/
def blockTake (t : DapTop) : Bool := t.seq.q == .idle && t.requests.blockPend

/-- `block_cancel`: a failed block drops the queued one. -/
def blockCancel (t : DapTop) : Bool :=
  t.seq.q == .done && (t.status.timedOut || t.status.overrun)

/-! ## A clock -/

/-- The registers of the host at a clock; a byte that is fetched goes into DATA, behind the
start bit of its parcel. -/
def regsNext (t : DapTop) (i : TopInput AW) : HostRegs :=
  if i.rst then
    { t.regs with
      noHunt := false
      wide := false
      rxWide := false
      fast := false
      skew1 := 0
      lag := 0 }
  else
    let fetched :=
      if t.wfetchGo then
        { t.regs with data := 0#31 ++ t.wfifo.head ++ t.regs.data.extractLsb' 9 24 ++ 1#1 }
      else t.regs
    match i.wr with
    | none => fetched
    | some w => fetched.write w

/-- The requests at a clock. -/
def requestsNext (t : DapTop) (i : TopInput AW) : Requests where
  startFrame := !i.rst && i.ctrlBit 0
  startBwrite := !i.rst && i.ctrlBit 4
  abort := !i.rst && i.ctrlBit 2
  pendSet := !i.rst && i.ctrlBit 1
  blockPend :=
    if t.requests.pendSet then true
    else if i.rst || t.blockTake || t.blockCancel || t.requests.abort then false
    else t.requests.blockPend
  fifoClear := !i.rst && i.ctrlBit 3
  wfifoClear := !i.rst && i.ctrlBit 5

/-- The sequencer at a clock. -/
def seqNext (t : DapTop) (i : TopInput AW) : Sequencer :=
  let r := t.requests
  let s := { t.seq with txStart := false, rxStart := false, storeGo := false, wfetchWait := false }
  if i.rst then { s with q := .idle, isBwrite := false }
  else
    match t.seq.q with
    | .idle =>
        if r.startFrame || r.blockPend || r.startBwrite then
          { s with
            isBlock := r.blockPend
            isBwrite := r.startBwrite
            parcelsLeft := t.regs.parcels.setWidth 9 + 1
            pl1 := t.regs.parcels == 0
            pl2 := t.regs.parcels == 1
            wlast := false
            txStart := true
            q := .tx }
        else s
    | .tx =>
        if i.txDone then
          { s with
            rxBits := if s.isBwrite then 0 else if s.isBlock then 32 else t.regs.rbits
            rxExpectCrc := if s.isBwrite then false else if s.isBlock then s.pl1 else true
            rxStart := true
            q := if s.isBwrite then .wack else if s.isBlock then .parcel else .rx }
        else s
    | .wack =>
        if t.rx.frame.done then
          if t.rx.frame.timedOut || s.wlast then { s with q := .done }
          else { s with wbyte := 0, q := .wfetch }
        else s
    | .wfetch =>
        if r.abort then { s with q := .done }
        else if t.wfetchGo then
          if s.wbyte = 3 then { s with wfetchWait := true, txStart := true, q := .wparcel }
          else { s with wfetchWait := true, wbyte := s.wbyte + 1 }
        else s
    | .wparcel =>
        if i.txDone then
          { s.counted with
            wlast := s.pl1
            rxBits := 0
            rxExpectCrc := false
            rxStart := true
            q := .wack }
        else s
    | .rx => if t.rx.frame.done then { s with q := .done } else s
    | .parcel =>
        -- a streamed parcel goes straight to the pusher
        let s :=
          if t.rx.frame.pdone then { s.counted with storeWord := t.rxWord, storeGo := true } else s
        if t.rx.frame.done then
          { s with
            storeWord := t.rxWord
            q := if t.rx.frame.timedOut then .done else .store }
        else s
    | .store =>
        if !t.fifoRoom then if r.abort then { s with q := .done } else s
        else if s.pl1 then { s.counted with storeGo := true, q := .done }
        else
          { s.counted with storeGo := true, rxExpectCrc := s.pl2, rxStart := true, q := .parcel }
    | .done => { s with q := .idle }

/-- What is reported, at a clock. -/
def statusNext (t : DapTop) (i : TopInput AW) : Status :=
  let f := t.rx.frame
  let toAbort := t.requests.abort && (t.seq.q == .wfetch || t.seq.q == .store && !t.fifoRoom)
  let s :=
    { t.status with
      timedOut :=
        if t.seq.q == .tx && i.txDone then false
        else if f.done && f.timedOut || toAbort then true
        else t.status.timedOut
      busy := t.seq.q != .idle || t.requests.blockPend || t.seq.storeGo || t.pusher.pushing }
  if i.rst then { s with done := false, overrun := false }
  else
    match t.seq.q with
    | .idle =>
        if t.requests.startFrame || t.requests.blockPend || t.requests.startBwrite then
          { s with done := false, overrun := false }
        else s
    | .tx => if i.txDone then { s with idleHigh := false, crcOk := false, aligned := false } else s
    | .wack => if f.done then { s with wait := f.waitCycles, crcOk := !f.timedOut } else s
    | .rx =>
        if f.done then
          { s with
            reply := t.rxWord
            crc := (wordOf t.rx.crc).setWidth 6
            wait := f.waitCycles
            idleHigh := f.idleHigh
            crcOk := f.crcOk
            aligned := f.startAligned }
        else s
    | .parcel =>
        if f.done then
          { s with
            wait := f.waitCycles
            crc := (wordOf t.rx.crc).setWidth 6
            crcOk := if f.timedOut then s.crcOk else f.crcOk }
        else s
    | .store => if !t.fifoRoom && t.requests.abort then { s with overrun := true } else s
    | .done => { s with done := true }
    | .wfetch | .wparcel => s

/-- The pusher at a clock: a byte a clock, the least significant first. -/
def pusherNext (t : DapTop) (i : TopInput AW) : Pusher :=
  let p := { t.pusher with fifoPush := false }
  if i.rst then { p with pushing := false }
  else if t.seq.storeGo then
    { p with pushWord := t.seq.storeWord, pushLeft := 3, pushing := true }
  else if p.pushing then
    { fifoPush := true
      fifoDin := p.pushWord.setWidth 8
      pushWord := p.pushWord >>> 8
      pushLeft := p.pushLeft - 1
      pushing := p.pushLeft != 0 }
  else
    -- TESTPUSH: a byte straight into the reply FIFO
    match i.writes 0x51 with
    | some byte => if t.seq.q = .idle then { p with fifoPush := true, fifoDin := byte } else p
    | none => p

/-- `always @(posedge clk)`. -/
def clock (t : DapTop) (i : TopInput AW) : DapTop where
  regs := t.regsNext i
  rxLag := t.regs.lag.setWidth 3 + t.regs.skew1.setWidth 3 + 1
  rxWideAny := t.regs.wide || t.regs.rxWide
  requests := t.requestsNext i
  seq := t.seqNext i
  status := t.statusNext i
  pusher := t.pusherNext i
  fifoRoom := decide (i.fifoCnt.toNat < 2 ^ AW - 8)
  rxRoom := decide (i.fifoCnt.toNat < 2 ^ AW - 20)
  wfifo := t.wfifo.next (i.rst || t.requests.wfifoClear) (t.wfifoPush i) t.wfetchGo
  rx := t.rx.clock (t.rxInput i)

end DapTop

end Fpga
end TriCoreDap
