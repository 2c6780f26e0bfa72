import TriCoreDap.Library.Sender
import TriCoreDap.Decode.Frames

/-!
# What the trace hardware sends

Accesses and events, the frames they are sent in, absolute or as a difference to
what was sent before, and the rows that stand for them.
-/

namespace TriCoreDap
namespace Decode

/-- What stands above the address: the fields of the bus transaction, which are
not sent when they are all zero. -/
structure Prefix where
  svm : Nat
  master : Nat
  subchannel : Nat
  svm_lt : svm < 2 ^ 1
  master_lt : master < 2 ^ 4
  subchannel_lt : subchannel < 2 ^ 7
  present : ¬(svm = 0 ∧ master = 0 ∧ subchannel = 0)

/-- An access of a core that a DTU traces. -/
structure Access where
  core : Nat
  write : Bool
  addr : Nat
  pre : Option Prefix
  dsize : Nat
  value : Nat
  core_eq : core = coreDtu0 ∨ core = coreDtu1
  addr_lt : addr < 2 ^ addrBits
  dsize_lt : dsize < 2 ^ 2
  value_lt : value < 2 ^ (8 * dsizeBytes dsize)

/-- What the sender has sent: the last value of each engine, the last time and
the ticks since. -/
structure Sent where
  addr : Nat → Option Nat
  data : Nat → Option Nat
  wps : Option Nat
  wpm : Option Nat
  evc : Option (Nat × Nat)
  time : Option Nat
  ticks : Nat

/-- Before the first message. -/
def Sent.nothing : Sent := ⟨fun _ => none, fun _ => none, none, none, none, none, 0⟩

/-- How a message is written. -/
structure Coding where
  comp : Bool
  framing : Framing
  deriving DecidableEq, Repr

/-- What is not an access.  A time is that of an unbounded clock. -/
inductive Event
  | tick
  | multick (ticks : Nat)
  | error (core errCnt : Nat)
  | wps (coding : Coding) (id : Nat)
  | wpm (coding : Coding) (set : Nat)
  | evc (coding : Coding) (length1 id count : Nat)
  | tsr (coding : Coding) (time : Nat)
  deriving DecidableEq, Repr

/-- What is sent; between the halves of an access there is no message of a DTU. -/
inductive Item
  | other (event : Event)
  | access (coding : Coding) (length1 : Nat) (access : Access)
  | split (address data : Coding) (between : List Event) (access : Access)

/-! ## Messages -/

/-- A value as it is sent, as a difference to the last one if compressed. -/
def coded (comp : Bool) (last : Option Nat) (value : Nat) : Nat :=
  if comp then value ^^^ last.getD 0 else value

/-- Compressed only once a value was sent, in a length that holds the fields,
leading zeros left out. -/
def Coding.Fits (coding : Coding) (known : Bool) (least data : Nat) : Prop :=
  (coding.comp = true → known = true) ∧ coding.framing.Valid ∧
    8 + least ≤ coding.framing.length ∧ data < 2 ^ (coding.framing.length - 8)

instance (coding : Coding) (known : Bool) (least data : Nat) :
    Decidable (coding.Fits known least data) :=
  inferInstanceAs (Decidable (_ ∧ _ ∧ _ ∧ _))

/-- A message: an odd trace type is that of a compressed one. -/
def Coding.frame (coding : Coding) (core tt data : Nat) : Frame :=
  .msg coding.framing core (tt + coding.comp.toNat) data

namespace Prefix

/-- The bits above the address. -/
def code (pre : Prefix) : Nat :=
  packBits [(1, pre.svm), (4, pre.master), (7, pre.subchannel)]

end Prefix

namespace Access

variable (a : Access)

/-- The address with its prefix. -/
def full : Nat := packBelow [(addrBits, a.addr)] (a.pre.elim 0 Prefix.code)

/-- The master that a row names. -/
def master : Int := a.pre.elim (-1) fun pre => (pre.master : Int)

def kind : Kind := if a.write then .write else .read

/-- The value as it is sent: of a compressed one, only as much as is accessed. -/
def field (comp : Bool) (last : Option Nat) : Nat := dmask a.dsize (coded comp last a.value)

def row (now : Int) : Row :=
  ⟨now, a.kind, a.addr, a.value, dsizeBytes a.dsize, -1, -1, coreName a.core, a.master⟩

/-- DTW or DTR. -/
def accessData (coding : Coding) (length1 : Nat) (sent : Sent) : Nat :=
  packBelow
    [(4, length1), (2, a.dsize), (len1 length1, a.field coding.comp (sent.data a.core))]
    (coded coding.comp (sent.addr a.core) a.full)

/-- DTA. -/
def addressData (coding : Coding) (sent : Sent) : Nat :=
  packBelow [(2, 0)] (coded coding.comp (sent.addr a.core) a.full)

/-- DTWD or DTRD. -/
def dataData (coding : Coding) (sent : Sent) : Nat :=
  packBelow (if a.write then [(2, a.dsize)] else [(2, 2), (2, a.dsize)])
    (a.field coding.comp (sent.data a.core))

end Access

/-! ## The sender -/

namespace Sent

variable (sent : Sent)

/-- The time of what is sent. -/
def now (tickMode : Bool) : Int :=
  match sent.time with
  | none => -1
  | some time => if tickMode then time + sent.ticks else time

def sendAddr (a : Access) : Sent :=
  { sent with addr := Function.update sent.addr a.core (some a.full) }

def sendData (a : Access) : Sent :=
  { sent with data := Function.update sent.data a.core (some a.value) }

/-- The time goes forward, and by less than half the range of the counter. -/
def Forward (time : Nat) : Prop :=
  match sent.time with
  | none => time < 2 ^ 32
  | some last => last ≤ time ∧ time - last < 2 ^ 31

instance (time : Nat) : Decidable (sent.Forward time) := by
  unfold Forward
  cases sent.time <;> infer_instance

end Sent

namespace Event

/-- The fields of an EVC. -/
def evcData (coding : Coding) (sent : Sent) (length1 id count : Nat) : Nat :=
  packBelow [(4, length1), (len1 length1, coded coding.comp (sent.evc.map Prod.fst) id)]
    (coded coding.comp (sent.evc.map Prod.snd) count)

/-- The counter of a TSR. -/
def tsrData (coding : Coding) (sent : Sent) (time : Nat) : Nat :=
  coded coding.comp (sent.time.map (· % 2 ^ 32)) (time % 2 ^ 32)

def send (sent : Sent) : Event → Sent
  | tick => { sent with ticks := sent.ticks + 1 }
  | multick ticks => { sent with ticks := sent.ticks + ticks }
  | error _ _ => sent
  | wps _ id => { sent with wps := some id }
  | wpm _ set => { sent with wpm := some set }
  | evc _ _ id count => { sent with evc := some (id, count) }
  | tsr _ time => { sent with time := some time, ticks := 0 }

def frames (sent : Sent) : Event → List Frame
  | tick => [.tick]
  | multick ticks => [.multick ticks]
  | error core errCnt => [.error core errCnt]
  | wps coding id => [coding.frame coreWtu 0 (coded coding.comp sent.wps id)]
  | wpm coding set => [coding.frame coreWtu 2 (coded coding.comp sent.wpm set)]
  | evc coding length1 id count =>
      [coding.frame coreWtu 4 (evcData coding sent length1 id count)]
  | tsr coding time => [coding.frame coreTsu 0 (tsrData coding sent time)]

def rows (tickMode : Bool) (sent : Sent) : Event → List Row
  | error core errCnt =>
      [⟨sent.now tickMode, .lost, -1, -1, 0, -1, errCnt, coreName core, -1⟩]
  | wps _ id => [⟨sent.now tickMode, .wps, -1, -1, 0, id, -1, "WTU", -1⟩]
  | wpm _ set => [⟨sent.now tickMode, .wpm, -1, -1, 0, set, -1, "WTU", -1⟩]
  | evc _ _ id count => [⟨sent.now tickMode, .evc, -1, -1, 0, id, count, "WTU", -1⟩]
  | _ => []

def Valid (sent : Sent) : Event → Prop
  | tick => True
  | multick ticks => ticks < 2 ^ 8
  | error core errCnt => core < 2 ^ 5 ∧ errCnt < 2 ^ 7
  | wps coding id =>
      id < 2 ^ 3 ∧ coding.Fits sent.wps.isSome 0 (coded coding.comp sent.wps id)
  | wpm coding set =>
      set < 2 ^ 8 ∧ coding.Fits sent.wpm.isSome 0 (coded coding.comp sent.wpm set)
  | evc coding length1 id count =>
      (length1Bits length1).isSome ∧
        coded coding.comp (sent.evc.map Prod.fst) id < 2 ^ len1 length1 ∧
          coding.Fits sent.evc.isSome 4 (evcData coding sent length1 id count)
  | tsr coding time =>
      sent.Forward time ∧ coding.Fits sent.time.isSome 0 (tsrData coding sent time)

instance (sent : Sent) (event : Event) : Decidable (event.Valid sent) := by
  cases event <;> unfold Valid <;> infer_instance

end Event

namespace Item

def send (sent : Sent) : Item → Sent
  | other event => event.send sent
  | access _ _ a => (sent.sendData a).sendAddr a
  | split _ _ between a => (between.foldl Event.send (sent.sendAddr a)).sendData a

def frames (sent : Sent) : Item → List Frame
  | other event => event.frames sent
  | access coding length1 a =>
      [coding.frame a.core (if a.write then 4 else 6) (a.accessData coding length1 sent)]
  | split address data between a =>
      let sent' := sent.sendAddr a
      address.frame a.core 2 (a.addressData address sent) ::
        (emitted Event.send Event.frames sent' between ++
          [data.frame a.core (if a.write then 0 else 2)
            (a.dataData data (between.foldl Event.send sent'))])

/-- A split access has the time of its data message. -/
def rows (tickMode : Bool) (sent : Sent) : Item → List Row
  | other event => event.rows tickMode sent
  | access _ _ a => [a.row (sent.now tickMode)]
  | split _ _ between a =>
      let sent' := sent.sendAddr a
      emitted Event.send (Event.rows tickMode) sent' between ++
        [a.row ((between.foldl Event.send sent').now tickMode)]

def Valid (sent : Sent) : Item → Prop
  | other event => event.Valid sent
  | access coding length1 a =>
      (length1Bits length1).isSome ∧
        a.field coding.comp (sent.data a.core) < 2 ^ len1 length1 ∧
          coding.Fits ((sent.data a.core).isSome && (sent.addr a.core).isSome) 6
            (a.accessData coding length1 sent)
  | split address data between a =>
      let sent' := sent.sendAddr a
      let sent'' := between.foldl Event.send sent'
      address.Fits (sent.addr a.core).isSome 2 (a.addressData address sent) ∧
        Along Event.send (fun sent event => event.Valid sent) sent' between ∧
          data.Fits (sent''.data a.core).isSome (if a.write then 2 else 4)
            (a.dataData data sent'')

instance (sent : Sent) (item : Item) : Decidable (item.Valid sent) := by
  cases item <;> unfold Valid <;> infer_instance

end Item

end Decode
end TriCoreDap
