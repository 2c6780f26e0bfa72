import TriCoreDap.Library.Gray
import TriCoreDap.Library.Sender

/-!
# The reply FIFO

`reply_fifo.v`: the sequencer pushes bytes on the fabric clock, the SPI slave pops
them on SCK, and the pointers cross as Gray code.  A moment is a rising edge of
either clock or of both.  A synchroniser that samples a pointer while it changes
sees every bit as it was or as it will be.
-/

namespace TriCoreDap
namespace Fpga

/-- The registers of `reply_fifo`, with `2 ^ AW` bytes of memory. -/
structure ReplyFifo (AW : Nat) where
  mem : BitVec AW → BitVec 8
  wrBin : BitVec (AW + 1)
  wrGray : BitVec (AW + 1)
  rgS1 : BitVec (AW + 1)
  rgS2 : BitVec (AW + 1)
  rdBinW : BitVec (AW + 1)
  count : BitVec (AW + 1)
  empty : Bool
  full : Bool
  rdBin : BitVec (AW + 1)
  rdP1 : BitVec (AW + 1)
  rdGray : BitVec (AW + 1)
  wgS1 : BitVec (AW + 1)
  wgS2 : BitVec (AW + 1)
  wrBinR : BitVec (AW + 1)
  rdLevel : BitVec (AW + 1)
  head : BitVec 8

/-- A rising edge of the fabric clock: its inputs, and the read pointer as sampled. -/
structure FabricEdge (AW : Nat) where
  rst : Bool
  push : Bool
  din : BitVec 8
  rdGray : BitVec (AW + 1)

/-- A rising edge of SCK: its inputs, and the write pointer as sampled. -/
structure SckEdge (AW : Nat) where
  pop : Bool
  ahead : Bool
  wrGray : BitVec (AW + 1)

structure Moment (AW : Nat) where
  clear : Bool
  fabric : Option (FabricEdge AW)
  sck : Option (SckEdge AW)

namespace ReplyFifo

variable {AW : Nat}

/-- The bytes held, as the writer has it. -/
def held (fifo : ReplyFifo AW) : BitVec (AW + 1) := fifo.wrBin - fifo.rdBinW

def rdEmpty (fifo : ReplyFifo AW) : Bool := fifo.rdBin == fifo.wrBinR

/-- The bytes held, as the reader has it. -/
def level (fifo : ReplyFifo AW) : BitVec (AW + 1) := fifo.wrBinR - fifo.rdBin

/-- The write side: `always @(posedge clk)`. -/
def writeEdge (fifo : ReplyFifo AW) (clear : Bool) (e : FabricEdge AW) : ReplyFifo AW :=
  let doPush := e.push && !fifo.full
  let mem := if doPush then Function.update fifo.mem (fifo.wrBin.setWidth AW) e.din else fifo.mem
  if e.rst || clear then
    { fifo with
      mem := mem
      wrBin := 0
      wrGray := 0
      rgS1 := 0
      rgS2 := 0
      rdBinW := 0
      count := 0
      empty := true
      full := false }
  else
    { fifo with
      mem := mem
      rgS1 := e.rdGray
      rgS2 := fifo.rgS1
      rdBinW := Gray.decode fifo.rgS2
      wrBin := if doPush then fifo.wrBin + 1#(AW + 1) else fifo.wrBin
      wrGray := if doPush then Gray.encode (fifo.wrBin + 1#(AW + 1)) else fifo.wrGray
      count := fifo.held
      empty := fifo.wrBin == fifo.rdBinW
      full := fifo.held.getLsbD AW }

/-- The read side.  The pointer's block is `always @(posedge sck or posedge clear)`, the
block of the synchroniser, the level and the registered read `always @(posedge sck)`. -/
def readEdge (fifo : ReplyFifo AW) (clear : Bool) (sck : Option (SckEdge AW)) : ReplyFifo AW :=
  let moved :=
    if clear then { fifo with rdBin := 0, rdP1 := 1#(AW + 1), rdGray := 0 }
    else if sck.any SckEdge.pop && !fifo.rdEmpty then
      { fifo with
        rdBin := fifo.rdP1
        rdP1 := fifo.rdP1 + 1#(AW + 1)
        rdGray := Gray.encode fifo.rdP1 }
    else fifo
  match sck with
  | none => moved
  | some e =>
      { moved with
        wgS1 := e.wrGray
        wgS2 := fifo.wgS1
        wrBinR := Gray.decode fifo.wgS2
        rdLevel := fifo.level
        head := fifo.mem ((if e.ahead then fifo.rdP1 else fifo.rdBin).setWidth AW) }

/-- The registers after a moment: the read side has the memory of before it, and nothing
else of the write side but the sample. -/
def moment (fifo : ReplyFifo AW) (m : Moment AW) : ReplyFifo AW :=
  match m.fabric with
  | none => fifo.readEdge m.clear m.sck
  | some e => (fifo.readEdge m.clear m.sck).writeEdge m.clear e

/-- The registers as they are configured; those without an initial value are anything. -/
def configured
    (mem : BitVec AW → BitVec 8)
    (count rdLevel : BitVec (AW + 1))
    (empty full : Bool)
    (head : BitVec 8) : ReplyFifo AW where
  mem := mem
  wrBin := 0
  wrGray := 0
  rgS1 := 0
  rgS2 := 0
  rdBinW := 0
  count := count
  empty := empty
  full := full
  rdBin := 0
  rdP1 := 1#(AW + 1)
  rdGray := 0
  wgS1 := 0
  wgS2 := 0
  wrBinR := 0
  rdLevel := rdLevel
  head := head

/-- Reset on the fabric clock. -/
def IsReset (fifo : ReplyFifo AW) : Prop :=
  ∃ mem count rdLevel empty full head edge, edge.rst = true ∧
    fifo = (configured mem count rdLevel empty full head).writeEdge false edge

end ReplyFifo

/-! ## Runs -/

/-- A reply FIFO with what a synchroniser may still see of either pointer: its Gray code
before the last edge of its own clock, until an edge of the other clock has sampled it.
With it the bytes offered to the FIFO and those at the popped positions. -/
structure Passage (AW : Nat) where
  fifo : ReplyFifo AW
  rdWas : BitVec (AW + 1)
  wrWas : BitVec (AW + 1)
  offered : List (BitVec 8)
  taken : List (BitVec 8)

namespace Passage

variable {AW : Nat}

def start (fifo : ReplyFifo AW) : Passage AW := ⟨fifo, fifo.rdGray, fifo.wrGray, [], []⟩

/-- The read pointer before the change that a fabric edge at this moment may meet. -/
def rdBefore (p : Passage AW) (m : Moment AW) : BitVec (AW + 1) :=
  if m.sck.isSome then p.fifo.rdGray else p.rdWas

/-- The write pointer before the change that an SCK edge at this moment may meet. -/
def wrBefore (p : Passage AW) (m : Moment AW) : BitVec (AW + 1) :=
  if m.fabric.isSome then p.fifo.wrGray else p.wrWas

/-- No clear; a push only with three places free by `count`; samples of the pointers. -/
def Allowed (p : Passage AW) (m : Moment AW) : Prop :=
  m.clear = false ∧
    (∀ e ∈ m.fabric, e.rst = false ∧ (e.push = true → p.fifo.count.toNat + 3 ≤ 2 ^ AW) ∧
      Gray.Settles (p.rdBefore m) (p.fifo.moment m).rdGray e.rdGray) ∧
    ∀ e ∈ m.sck, Gray.Settles (p.wrBefore m) (p.fifo.moment m).wrGray e.wrGray

instance decidableAllowed (p : Passage AW) (m : Moment AW) : Decidable (p.Allowed m) :=
  inferInstanceAs (Decidable (_ ∧ _ ∧ _))

/-- What a moment offers to the FIFO. -/
def offers (m : Moment AW) : List (BitVec 8) :=
  match m.fabric with
  | none => []
  | some e => if e.push then [e.din] else []

/-- What a moment pops. -/
def takes (p : Passage AW) (m : Moment AW) : List (BitVec 8) :=
  match m.sck with
  | none => []
  | some e =>
      if e.pop && !p.fifo.rdEmpty then [p.fifo.mem (p.fifo.rdBin.setWidth AW)] else []

def step (p : Passage AW) (m : Moment AW) : Passage AW where
  fifo := p.fifo.moment m
  rdWas := if m.fabric.isSome then (p.fifo.moment m).rdGray else p.rdBefore m
  wrWas := if m.sck.isSome then (p.fifo.moment m).wrGray else p.wrBefore m
  offered := p.offered ++ offers m
  taken := p.taken ++ p.takes m

end Passage
end Fpga
end TriCoreDap
