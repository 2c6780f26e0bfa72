import TriCoreDap.Decode.Framing
import Mathlib.Logic.Function.Basic

/-!
# Messages and event rows

What `Decoder._scan` does with each message of a paragraph: the compression
bases, the time and the rows.  The counts by message type, which nothing reads
back, are left out.
-/

namespace TriCoreDap
namespace Decode

/-- `KINDS`. -/
inductive Kind
  | write
  | read
  | wps
  | wpm
  | evc
  | lost
  | gap
  deriving DecidableEq, Repr

/-- An event row; `-1` stands for none. -/
structure Row where
  cycles : Int
  kind : Kind
  addr : Int
  value : Int
  size : Nat
  wp : Int
  count : Int
  core : String
  master : Int
  deriving DecidableEq, Repr

def gapRow : Row := ⟨-1, .gap, -1, -1, 0, -1, -1, "", -1⟩

def addrBits : Nat := 32

/-- `_LEN1`. -/
def len1 (code : Nat) : Nat := (length1Bits code).getD 0

/-- `_DSIZE`: a double is traced as its lower 32 bits. -/
def dsizeBytes : Nat → Nat
  | 0 => 1
  | 1 => 2
  | _ => 4

/-- `& _DMASK[dsize]`. -/
def dmask (dsize value : Nat) : Nat := value % 2 ^ (8 * dsizeBytes dsize)

/-- The engines of a DTU core: an address and a data base, each with whether it
is known. -/
structure Dtu where
  addr : Nat
  data : Nat
  addrOk : Bool
  dataOk : Bool
  deriving DecidableEq, Repr

/-- The compression bases. -/
structure Bases where
  dtu : Nat → Dtu
  wps : Nat
  wpm : Nat
  evcId : Nat
  evcCnt : Nat
  wpsOk : Bool
  wpmOk : Bool
  evcOk : Bool
  tsa : Nat
  tsaOk : Bool

/-- The time: the last TSR, its unwrapping, and the ticks since. -/
structure Clock where
  tsr : Option Nat
  epoch : Nat
  base : Int
  ticks : Nat
  tsrOk : Bool
  deriving DecidableEq, Repr

/-- What a scan counts; `malformed` are the keys that `_bad` counts. -/
structure Counts where
  messages : Nat
  unknown : Nat
  unsynced : Nat
  backsteps : Nat
  errors : Nat
  lost : Nat
  malformed : List (Nat × Nat × Nat)
  deriving DecidableEq, Repr

/-- The variables of `_scan`. -/
structure Scan where
  clock : Clock
  bases : Bases
  pending : Option (Int × Int)
  suspect : Bool
  first : Option Int
  counts : Counts
  out : List Row

/-- The time of a row. -/
def Clock.now (tickMode : Bool) (clock : Clock) : Int :=
  if clock.base < 0 then -1
  else if tickMode then clock.base + clock.ticks
  else clock.base

/-- The clock at a TSR that was accepted. -/
def Clock.stamped (epoch value : Nat) : Clock :=
  ⟨some value, epoch, (epoch : Int) + value, 0, true⟩

namespace Scan

def append (s : Scan) (row : Row) : Scan := { s with out := s.out ++ [row] }

def counted (s : Scan) : Scan :=
  { s with counts := { s.counts with messages := s.counts.messages + 1 } }

def unsynced (s : Scan) : Scan :=
  { s with counts := { s.counts with unsynced := s.counts.unsynced + 1 } }

def unknown (s : Scan) : Scan :=
  { s with counts := { s.counts with unknown := s.counts.unknown + 1 } }

/-- `_bad`. -/
def bad (s : Scan) (core tt dbits : Nat) : Scan :=
  { s with counts := { s.counts with malformed := (core, tt, dbits) :: s.counts.malformed } }

def setDtu (s : Scan) (core : Nat) (dtu : Dtu) : Scan :=
  { s with bases := { s.bases with dtu := Function.update s.bases.dtu core dtu } }

end Scan

/-- `CORE_NAMES[core]` for a unit that has a name. -/
def coreName (core : Nat) : String := (coreNames core).getD "?"

/-- `(prefix >> 1) & 0xF if prefix else -1`. -/
def masterOf (full : Nat) : Int :=
  let pre := full >>> addrBits
  if pre ≠ 0 then ((pre >>> 1) % 16 : Nat) else -1

/-- The accessed address without the prefix. -/
def addressOf (full : Nat) : Nat := full % 2 ^ 32

section
variable (tickMode : Bool) (s : Scan) (core : Nat) (comp : Bool)

/-- The data message of a split access, or a data message alone. -/
def dataMessage (kind : Kind) (dsize field : Nat) : Scan :=
  let dtu := s.bases.dtu core
  if comp ∧ !dtu.dataOk then s.unsynced
  else
    let val := dmask dsize (if comp then field ^^^ dtu.data else field)
    let (a, m) := s.pending.getD (-1, -1)
    let s := { s.setDtu core { dtu with data := val, dataOk := true } with pending := none }
    s.append ⟨s.clock.now tickMode, kind, a, val, dsizeBytes dsize, -1, -1, coreName core, m⟩

/-- DTWD. -/
def dtwd (tt data dbits : Nat) : Scan :=
  if dbits < 2 then s.bad core tt dbits
  else dataMessage tickMode s core comp .write (data % 4) (data >>> 2)

/-- DTRD. -/
def dtrd (tt data dbits : Nat) : Scan :=
  if dbits < 4 then s.bad core tt dbits
  else dataMessage tickMode s core comp .read ((data >>> 2) % 4) (data >>> 4)

/-- DTA, DTWA or DTRA. -/
def addressMessage (sub data : Nat) : Scan :=
  let dtu := s.bases.dtu core
  if comp ∧ !dtu.addrOk then s.unsynced
  else
    let full := if comp then (data >>> 2) ^^^ dtu.addr else data >>> 2
    let s := s.setDtu core { dtu with addr := full, addrOk := true }
    if sub = 0 then { s with pending := some ((addressOf full : Nat), masterOf full) }
    else
      s.append ⟨s.clock.now tickMode, if sub = 1 then .write else .read, addressOf full, -1, 0,
        -1, -1, coreName core, masterOf full⟩

/-- DTW and DTR. -/
def access (tt data dbits : Nat) : Scan :=
  if dbits < 6 then s.bad core tt dbits
  else
    let n1 := if len1 (data % 16) > dbits - 6 then dbits - 6 else len1 (data % 16)
    let dtu := s.bases.dtu core
    if comp ∧ !dtu.dataOk then s.unsynced
    else
      let dsize := (data >>> 4) % 4
      let raw := (data >>> 6) % 2 ^ n1
      let val := dmask dsize (if comp then raw ^^^ dtu.data else raw)
      let dtu := { dtu with data := val, dataOk := true }
      let s := s.setDtu core dtu
      if comp ∧ !dtu.addrOk then s.unsynced
      else
        let full := if comp then (data >>> (6 + n1)) ^^^ dtu.addr else data >>> (6 + n1)
        let s := s.setDtu core { dtu with addr := full, addrOk := true }
        s.append ⟨s.clock.now tickMode, if tt < 6 then .write else .read, addressOf full, val,
          dsizeBytes dsize, -1, -1, coreName core, masterOf full⟩

/-- The messages of a DTU. -/
def dtuMessage (tt data dbits : Nat) : Scan :=
  if tt ≤ 1 then dtwd tickMode s core comp tt data dbits
  else if tt ≤ 3 then
    if dbits < 2 then s.bad core tt dbits
    else if data % 4 = 2 then dtrd tickMode s core comp tt data dbits
    else addressMessage tickMode s core comp (data % 4) data
  else access tickMode s core comp tt data dbits

end

section
variable (tickMode : Bool) (s : Scan) (comp : Bool)

/-- The time stamp that a TSR gives. -/
def Clock.stamp (clock : Clock) (comp : Bool) (data : Nat) : Nat :=
  (if comp then data ^^^ clock.tsr.getD 0 else data) % 2 ^ 32

/-- How far a time stamp lies behind the last one, if there is one. -/
def Clock.lag (clock : Clock) (value : Nat) : Nat := clock.tsr.getD 0 - value

/-- TSR.  Without a last one, a compressed one is not looked at. -/
def tsrMessage (data : Nat) : Scan :=
  let clock := s.clock
  if comp ∧ !clock.tsrOk then s.unsynced
  else
    let value := clock.stamp comp data
    let lag := clock.lag value
    if 0 < lag ∧ comp ∧ lag < 2 ^ 31 then
      { s with
        suspect := true
        clock := { clock with tsrOk := false, base := -1 }
        counts := { s.counts with backsteps := s.counts.backsteps + 1 } }
    else
      let epoch := if lag > 2 ^ 31 then clock.epoch + 2 ^ 32 else clock.epoch
      let stepped := 0 < lag ∧ ¬lag > 2 ^ 31
      { s with
        suspect := s.suspect || decide stepped
        clock := .stamped epoch value
        first := if !comp ∧ s.first = none then some ((epoch : Int) + value) else s.first
        counts := { s.counts with
          backsteps := s.counts.backsteps + if stepped then 1 else 0 } }

/-- TSA. -/
def tsaMessage (data : Nat) : Scan :=
  let bases := s.bases
  if comp ∧ !bases.tsaOk then s.unsynced
  else
    let tsa := (if comp then data ^^^ bases.tsa else data) % 2 ^ 32
    { s with bases := { bases with tsa := tsa, tsaOk := true } }

/-- The messages of the TSU. -/
def tsuMessage (tt data : Nat) : Scan :=
  if tt ≤ 1 then tsrMessage s comp data
  else if tt ≤ 3 then tsaMessage s comp data
  else s.unknown

/-- A row of the WTU. -/
def Scan.watch (s : Scan) (kind : Kind) (wp count : Int) : Scan :=
  s.append ⟨s.clock.now tickMode, kind, -1, -1, 0, wp, count, "WTU", -1⟩

/-- WPS. -/
def wpsMessage (data : Nat) : Scan :=
  let bases := s.bases
  if comp ∧ !bases.wpsOk then s.unsynced
  else
    let wps := if comp then data ^^^ bases.wps else data
    { s with bases := { bases with wps := wps, wpsOk := true } }.watch tickMode .wps
      (wps % 8 : Nat) (-1)

/-- WPM. -/
def wpmMessage (data : Nat) : Scan :=
  let bases := s.bases
  if comp ∧ !bases.wpmOk then s.unsynced
  else
    let wpm := if comp then data ^^^ bases.wpm else data
    { s with bases := { bases with wpm := wpm, wpmOk := true } }.watch tickMode .wpm
      (wpm % 256 : Nat) (-1)

/-- EVC. -/
def evcMessage (tt data dbits : Nat) : Scan :=
  if dbits < 4 then s.bad coreWtu tt dbits
  else
    let n1 := if len1 (data % 16) > dbits - 4 then dbits - 4 else len1 (data % 16)
    let bases := s.bases
    let cid := (data >>> 4) % 2 ^ n1
    let cnt := data >>> (4 + n1)
    if comp ∧ !bases.evcOk then s.unsynced
    else
      let cid := if comp then cid ^^^ bases.evcId else cid
      let cnt := if comp then cnt ^^^ bases.evcCnt else cnt
      { s with bases := { bases with evcId := cid, evcCnt := cnt, evcOk := true } }.watch
        tickMode .evc cid cnt

/-- The messages of the WTU. -/
def wtuMessage (tt data dbits : Nat) : Scan :=
  if tt ≤ 1 then wpsMessage tickMode s comp data
  else if tt ≤ 3 then wpmMessage tickMode s comp data
  else if tt ≤ 5 then evcMessage tickMode s comp tt data dbits
  else s.unknown

end

/-- A message of the paragraph. -/
def decodeMessage (tickMode : Bool) (s : Scan) (core tt data dbits : Nat) : Scan :=
  let s := s.counted
  let comp := tt % 2 = 1
  if core = coreDtu0 ∨ core = coreDtu1 then dtuMessage tickMode s core comp tt data dbits
  else if core = coreTsu then tsuMessage s comp tt data
  else if core = coreWtu then wtuMessage tickMode s comp tt data dbits
  else s.unknown

end Decode
end TriCoreDap
