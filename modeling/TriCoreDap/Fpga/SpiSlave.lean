import TriCoreDap.Fpga.Queue
import TriCoreDap.Library.Sender

/-!
# The SPI slave on SCK

`spi_slave.v`: the SCK domain of the slave, SPI mode 0.  A clock is a rising and a
falling edge; the select, when it rises, resets without a clock.
-/

namespace TriCoreDap
namespace Fpga

/-- The registers of `spi_slave` on SCK. -/
structure SpiSlave (AW : Nat) where
  shiftOut : BitVec 8
  dual : Bool
  shiftIn : BitVec 8
  bitCount : BitVec 3
  haveHeader : Bool
  isWrite : Bool
  inDummy : Bool
  port1 : Bool
  port2 : Bool
  hdrAddr : BitVec 7
  wrByte : BitVec 8
  hdrTog : Bool
  wrTog : Bool
  rdTog : Bool
  dclk : BitVec 2
  dbyte : BitVec 2
  budget : BitVec (AW + 1)
  snapLevel : BitVec (AW + 1)
  snapStatus : BitVec 4
  stS1 : BitVec 4
  stS2 : BitVec 4
  load : Bool
  useTx : Bool
  prep : BitVec 8
  take : Bool
  pop : Bool
  curFifo : Bool

/-- What a rising edge of SCK meets. -/
structure SpiInput (AW : Nat) where
  si : Bool
  status : BitVec 4
  fifoHead : BitVec 8
  fifoEmpty : Bool
  fifoLevel : BitVec (AW + 1)

namespace SpiSlave

variable {AW : Nat}

/-- `PORT_FIFO`. -/
def portFifo : BitVec 7 := 0x40
/-- `PORT_FIFO2`. -/
def portFifo2 : BitVec 7 := 0x50

def byteEnd (s : SpiSlave AW) : Bool := s.bitCount == 7

/-- The dummy's last clock, on a 0x50 read. -/
def dualGo (s : SpiSlave AW) : Bool := s.byteEnd && s.inDummy && s.port2

def dualNext (s : SpiSlave AW) : Bool := s.dual || s.dualGo

/-- The last clock of a dual-phase byte. -/
def dualLast (s : SpiSlave AW) : Bool := s.dual && s.dclk == 3

/-- What the byte after this one is. -/
def dbyteNext (s : SpiSlave AW) : BitVec 2 := if s.dbyte == 2 then 2 else s.dbyte + 1

def budgetLeft (s : SpiSlave AW) : Bool := if s.pop then s.budget != 1 else s.budget != 0

def lvl11 (s : SpiSlave AW) : BitVec 11 := s.snapLevel.setWidth 11

/-- The prefix's two bytes. -/
def prefixLow (s : SpiSlave AW) : BitVec 8 := s.lvl11.setWidth 8

def prefixHigh (s : SpiSlave AW) : BitVec 8 :=
  s.snapStatus ++ (0#1 ++ s.lvl11.extractLsb' 8 3)

/-- `always @(posedge spi_sck)`, with the select low. -/
def rise (s : SpiSlave AW) (i : SpiInput AW) : SpiSlave AW :=
  let shiftInFull : BitVec 8 := (s.shiftIn.setWidth 7).concat i.si
  let header := s.byteEnd && !s.haveHeader
  let write := shiftInFull.getLsbD 7
  let addr : BitVec 7 := shiftInFull.setWidth 7
  let fifoByte := if i.fifoEmpty then 0 else i.fifoHead
  let register := s.byteEnd && s.haveHeader && !s.isWrite && !s.port1 && !s.dualNext
  { shiftOut := s.shiftOut
    stS1 := i.status
    stS2 := s.stS1
    shiftIn := shiftInFull
    bitCount := s.bitCount + 1
    rdTog := if s.take then !s.rdTog else s.rdTog
    inDummy := if s.byteEnd then !s.haveHeader && !write else s.inDummy
    haveHeader := if header then true else s.haveHeader
    isWrite := if header then write else s.isWrite
    hdrAddr := if header then addr else s.hdrAddr
    port1 := if header then !write && addr == portFifo else s.port1
    port2 := if header then !write && addr == portFifo2 else s.port2
    hdrTog := if header then !s.hdrTog else s.hdrTog
    snapLevel := if header then i.fifoLevel else s.snapLevel
    snapStatus := if header then s.stS2 else s.snapStatus
    wrByte := if s.byteEnd && s.haveHeader && s.isWrite then shiftInFull else s.wrByte
    wrTog := if s.byteEnd && s.haveHeader && s.isWrite then !s.wrTog else s.wrTog
    dual := if s.dualGo then true else s.dual
    dclk := if s.dual then s.dclk + 1 else s.dclk
    dbyte := if s.dualLast then s.dbyteNext else s.dbyte
    curFifo := if s.dualLast then s.dbyteNext == 2 && s.budgetLeft else s.curFifo
    -- The later of two assignments stands.
    budget := if s.pop then s.budget - 1 else if header then i.fifoLevel else s.budget
    load := if s.dualNext then !s.dual || s.dclk == 3 else s.byteEnd
    useTx := register
    prep :=
      if !s.haveHeader then 0
      else if !s.dual then if s.dualNext then s.prefixLow else fifoByte
      else if s.dbyteNext == 1 then s.prefixHigh
      else if s.budgetLeft then i.fifoHead else 0
    take := register
    pop :=
      if s.dual then s.dclk == 2 && s.curFifo
      else s.byteEnd && s.haveHeader && s.port1 && !i.fifoEmpty }

/-- `always @(negedge spi_sck)`, with the byte that the fabric wants sent. -/
def fall (s : SpiSlave AW) (txByte : BitVec 8) : SpiSlave AW :=
  { s with
    shiftOut :=
      if s.load then if s.useTx then txByte else s.prep
      else if s.dual then s.shiftOut <<< 2
      else s.shiftOut <<< 1 }

/-- `posedge spi_ss`. -/
def deselect (s : SpiSlave AW) : SpiSlave AW :=
  { s with
    shiftOut := 0
    bitCount := 0
    haveHeader := false
    isWrite := false
    port1 := false
    port2 := false
    inDummy := false
    dual := false
    dclk := 0
    dbyte := 0
    curFifo := false
    load := false
    useTx := false
    take := false
    pop := false }

end SpiSlave

/-! ## The slave and its queue -/

/-- A clock: what the slave meets at its edges, and what the queue's reader sees after. -/
structure Clock where
  si : Bool
  status : BitVec 4
  txByte : BitVec 8
  seen : Nat
  junk : BitVec 8
  deriving DecidableEq

/-- SO and SI at a rising edge. -/
abbrev Pair := Bool × Bool

/-- A read of 0x50: the bytes popped before and by it, its clocks so far, what its prefix
is about, and what the host sampled on the two lines. -/
structure Read where
  start : Nat
  stop : Nat
  clocks : Nat
  /-- The queue's level at the last clock of the header. -/
  level : Nat
  /-- The status lines two clocks earlier: what two flip-flops have of them by then. -/
  status : BitVec 4
  pairs : List Pair
  deriving DecidableEq

/-- The slave with the reply queue, the reads it has served, and the one it serves. -/
structure Link (AW : Nat) where
  slave : SpiSlave AW
  queue : Queue
  finished : List Read
  current : Read

inductive LinkEvent
  | push (byte : BitVec 8)
  | clock (c : Clock)
  | deselect
  deriving DecidableEq

namespace Link

variable {AW : Nat}

/-- A slave that is not selected, with nothing popped. -/
def start (slave : SpiSlave AW) (queue : Queue) : Link AW :=
  ⟨slave.deselect, queue, [], ⟨0, 0, 0, 0, 0, []⟩⟩

/-- What the slave meets at a rising edge. -/
def input (l : Link AW) (c : Clock) : SpiInput AW where
  si := c.si
  status := c.status
  fifoHead := l.queue.head
  fifoEmpty := l.queue.popped == l.queue.seen
  fifoLevel := BitVec.ofNat (AW + 1) l.queue.level

/-- What the host samples while the slave drives both lines. -/
def samples (l : Link AW) : List Pair :=
  if l.slave.dual then [(l.slave.shiftOut.getLsbD 7, l.slave.shiftOut.getLsbD 6)] else []

def queueAfter (l : Link AW) (c : Clock) : Queue :=
  l.queue.edge l.slave.pop l.slave.curFifo c.seen c.junk

def step (l : Link AW) : LinkEvent → Link AW
  | .push byte => { l with queue := l.queue.push byte }
  | .clock c =>
      { l with
        slave := (l.slave.rise (l.input c)).fall c.txByte
        queue := l.queueAfter c
        current :=
          { l.current with
            stop := (l.queueAfter c).popped
            clocks := l.current.clocks + 1
            level := if l.current.clocks = 7 then l.queue.level else l.current.level
            status := if l.current.clocks = 5 then c.status else l.current.status
            pairs := l.current.pairs ++ l.samples } }
  | .deselect =>
      { l with
        slave := l.slave.deselect
        finished := l.finished ++ [l.current]
        current := ⟨l.queue.popped, l.queue.popped, 0, 0, 0, []⟩ }

/-- The header of a 0x50 read, its first bit first. -/
def header : BitVec 8 := 0#1 ++ SpiSlave.portFifo2

/-- A byte is pushed while there is room; the first eight clocks carry the header. -/
def Allowed (l : Link AW) : LinkEvent → Prop
  | .push _ => l.queue.stored.length < l.queue.popped + 2 ^ AW
  | .clock c =>
      (l.current.clocks < 8 → c.si = header.getLsbD (7 - l.current.clocks)) ∧
        l.queue.seen ≤ c.seen ∧ c.seen ≤ l.queue.stored.length
  | .deselect => True

instance decidableAllowed (l : Link AW) : (event : LinkEvent) → Decidable (l.Allowed event)
  | .push _ => inferInstanceAs (Decidable (_ < _))
  | .clock _ => inferInstanceAs (Decidable (_ ∧ _))
  | .deselect => inferInstanceAs (Decidable True)

end Link

/-! ## The host -/

/-- A byte on the two lines, its top bits first. -/
def pairsOf (byte : BitVec 8) : List Pair :=
  [(byte.getLsbD 7, byte.getLsbD 6), (byte.getLsbD 5, byte.getLsbD 4),
    (byte.getLsbD 3, byte.getLsbD 2), (byte.getLsbD 1, byte.getLsbD 0)]

def byteOf (a b c d : Pair) : BitVec 8 :=
  BitVec.ofBoolListBE [a.1, a.2, b.1, b.2, c.1, c.2, d.1, d.2]

/-- The bytes whose last clock arrived. -/
def wholeBytes : List Pair → List (BitVec 8)
  | a :: b :: c :: d :: rest => byteOf a b c d :: wholeBytes rest
  | _ => []

/-- The level that a read's prefix carries. -/
def prefixLevel (low high : BitVec 8) : Nat := low.toNat + 256 * (high.toNat % 8)

/-- The FIFO bytes of a read: as many whole bytes behind the prefix as it says. -/
def fifoBytes (pairs : List Pair) : List (BitVec 8) :=
  match wholeBytes pairs with
  | low :: high :: rest => rest.take (prefixLevel low high)
  | _ => []

end Fpga
end TriCoreDap
