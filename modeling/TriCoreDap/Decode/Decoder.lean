import TriCoreDap.Decode.Messages

/-!
# The decoder

`decode.py`: the scan of a paragraph with its own framing, the test for a lap,
and `Decoder.rows`.  The running mean of the paragraph interval is a floating
point number, of which only the operations are named.
-/

namespace TriCoreDap
namespace Decode

/-- `_SYMLEN`: no valid code has length 0. -/
def symlen (code : Nat) : Nat := (symlenBits code).getD 0

def lapFactor : Nat := 3
def lapMinIntervals : Nat := 4

/-- How a decoder was made: its tick mode, and what Python's floats do for it. -/
structure Settings where
  tickMode : Bool
  Mean : Type
  zero : Mean
  /-- `(interval * n + step) / (n + 1)` -/
  average : (interval : Mean) → (n : Nat) → (step : Int) → Mean
  /-- `LAP_FACTOR * interval < jump` -/
  exceeded : (interval : Mean) → (jump : Nat) → Bool

/-- Settings with the interval rounded to whole cycles. -/
def wholeCycles : Settings where
  tickMode := false
  Mean := Int
  zero := 0
  average := fun interval n step => (interval * n + step) / (n + 1)
  exceeded := fun interval jump => decide (lapFactor * interval < jump)

/-- `DecodeStats`. -/
structure DecodeStats where
  paragraphs : Nat
  gaps : Nat
  torn : Nat
  laps : Nat
  counts : Counts
  deriving DecidableEq, Repr

/-- `Decoder`. -/
structure Decoder (settings : Settings) where
  clock : Clock
  bases : Bases
  prevFirst : Option Int
  interval : settings.Mean
  intervals : Nat
  stats : DecodeStats

/-! ## The scan of a paragraph -/

/-- A round of a loop over the messages: where it goes on unless it breaks. -/
inductive Round (α : Type)
  | quit (result : α)
  | next (result : α) (pos : Nat)

section
variable (tickMode final : Bool) (big stop pos : Nat) (s : Scan)

/-- The part of a round of `_scan` after the length is known. -/
def scanBody (w hdr length : Nat) : Round Scan :=
  let left := stop - pos - hdr
  if length > left then .quit { s with suspect := s.suspect || decide (left > 32) }
  else if length < 8 then .next s (pos + (hdr + length))
  else
    let body := if hdr = 4 then bitsAt w 4 length else bitsAt big (pos + 12) length
    let core := body % 32
    if core = coreSkip then .quit s
    else
      .next (decodeMessage tickMode s core ((body >>> 5) % 8) (body >>> 8) (length - 8))
        (pos + (hdr + length))

/-- A round of `_scan`, with its 128-bit window. -/
def scanStep : Round Scan :=
  let w := bitsAt big pos 128
  let code := w % 16
  if code = codeTick then
    .next { s with clock := { s.clock with ticks := s.clock.ticks + 1 } } (pos + 4)
  else if code = codeMultick then
    if stop - pos < 12 then .quit s
    else
      .next { s with clock := { s.clock with ticks := s.clock.ticks + (w >>> 4) % 256 } }
        (pos + 12)
  else if code = codeError then
    if stop - pos < 16 then .quit s
    else
      let ec := (w >>> 9) % 128
      let s := { s with counts := { s.counts with
        errors := s.counts.errors + 1
        lost := s.counts.lost + ec } }
      .next (s.append ⟨s.clock.now tickMode, .lost, -1, -1, 0, -1, ec,
        coreName ((w >>> 4) % 32), -1⟩) (pos + 16)
  else if code = codeAbsize then
    if stop - pos < 12 then .quit s
    else
      let length := (w >>> 4) % 256
      if length = 0xFF then .quit { s with suspect := s.suspect || !final }
      else scanBody tickMode big stop pos s w 12 length
  else
    let length := symlen code
    if length = 0 then .quit { s with suspect := true }
    else scanBody tickMode big stop pos s w 4 length

end

/-- The loop of `_scan`: its variables and the position of the length field at
which it ends. -/
def scanLoop
    (tickMode final : Bool)
    (big stop : Nat) : (fuel pos : Nat) → Scan → Scan × Nat
  | 0, pos, s => (s, pos)
  | fuel + 1, pos, s =>
      if stop - pos < 4 then (s, pos)
      else
        match scanStep tickMode final big stop pos s with
        | .quit s' => (s', pos)
        | .next s' pos' => scanLoop tickMode final big stop fuel pos' s'

/-- What a scan starts with. -/
def Scan.start (clock : Clock) (bases : Bases) : Scan :=
  ⟨clock, bases, none, false, none, ⟨0, 0, 0, 0, 0, 0, []⟩, []⟩

/-- `_scan`. -/
def scan (tickMode final : Bool) (big stop : Nat) (clock : Clock) (bases : Bases) : Scan :=
  (scanLoop tickMode final big stop (stop / 4) 0 (.start clock bases)).1

/-! ## The test for a lap -/

/-- A round of `_lapped`: the time stamp whose distance it answers with, none
where it answers `False`, or how many messages are counted then. -/
inductive LapRound
  | answer (stamp : Option Nat)
  | next (k pos : Nat)
  deriving DecidableEq, Repr

section
variable (big nbits pos k : Nat)

/-- The end of a round that counts a message. -/
def lappedCount (pos' : Nat) : LapRound :=
  if k ≥ 16 then .answer none else .next (k + 1) pos'

/-- The part of a round of `_lapped` after the length is known. -/
def lappedBody (hdr length : Nat) : LapRound :=
  if length > nbits - pos - hdr then .answer none
  else
    let body := bitsAt big (pos + hdr) length
    if length < 8 then .next k (pos + (hdr + length))
    else
      let core := body % 32
      if core = coreSkip then .answer none
      else if core = coreTsu ∧ (body >>> 5) % 8 = 0 then .answer (some (body >>> 8))
      else lappedCount k (pos + (hdr + length))

/-- The round at `pos` with `k` messages counted. -/
def lappedStep : LapRound :=
  let w := bitsAt big pos 128
  let code := w % 16
  if code = codeTick then lappedCount k (pos + 4)
  else if code = codeMultick then
    if nbits - pos < 12 then .answer none
    else if (w >>> 4) % 256 = 0 then .next k (pos + 12)
    else lappedCount k (pos + 12)
  else if code = codeError then
    if nbits - pos < 16 then .answer none else lappedCount k (pos + 16)
  else if code = codeAbsize then
    if nbits - pos < 12 then .answer none
    else
      let length := (w >>> 4) % 256
      if length = 0xFF then .answer none else lappedBody big nbits pos k 12 length
  else lappedBody big nbits pos k 4 (symlen code)

end

/-- The loop of `_lapped`. -/
def lappedLoop (big nbits : Nat) : (fuel pos k : Nat) → Option Nat
  | 0, _, _ => none
  | fuel + 1, pos, k =>
      if nbits - pos < 4 then none
      else
        match lappedStep big nbits pos k with
        | .answer stamp => stamp
        | .next k' pos' => lappedLoop big nbits fuel pos' k'

variable {settings : Settings}

namespace Decoder

/-- Whether the time stamp lies too far ahead. -/
def jumped (d : Decoder settings) (tsr value : Nat) : Bool :=
  let jump := (((value : Int) - tsr) % 2 ^ 32).toNat
  settings.exceeded d.interval jump && decide (jump < 2 ^ 31)

/-- `_lapped`. -/
def lapped (d : Decoder settings) (big nbits : Nat) : Bool :=
  match d.clock.tsr with
  | none => false
  | some tsr =>
      if !d.clock.tsrOk ∨ d.intervals < lapMinIntervals then false
      else
        match lappedLoop big nbits (nbits / 4) 0 0 with
        | none => false
        | some value => d.jumped tsr value

end Decoder

/-! ## The decoder -/

/-- No base is known. -/
def Bases.unknown : Bases :=
  ⟨fun _ => ⟨0, 0, false, false⟩, 0, 0, 0, 0, false, false, false, 0, false⟩

/-- The time is unknown, what was known of it kept for unwrapping. -/
def Clock.reset (clock : Clock) : Clock :=
  { clock with base := -1, ticks := 0, tsrOk := false }

def Counts.add (counts more : Counts) : Counts where
  messages := counts.messages + more.messages
  unknown := counts.unknown + more.unknown
  unsynced := counts.unsynced + more.unsynced
  backsteps := counts.backsteps + more.backsteps
  errors := counts.errors + more.errors
  lost := counts.lost + more.lost
  malformed := more.malformed ++ counts.malformed

namespace Decoder

/-- `Decoder()`. -/
def new (settings : Settings) : Decoder settings where
  clock := ⟨none, 0, -1, 0, false⟩
  bases := .unknown
  prevFirst := none
  interval := settings.zero
  intervals := 0
  stats := ⟨0, 0, 0, 0, ⟨0, 0, 0, 0, 0, 0, []⟩⟩

/-- `Decoder.reset`. -/
def reset (d : Decoder settings) : Decoder settings :=
  { d with bases := .unknown, clock := d.clock.reset }

/-- The beginning of `rows`: whether there is a gap, and the decoder then. -/
def enter (d : Decoder settings) (par : List Byte) (gap : Bool) : Bool × Decoder settings :=
  let lapped := !gap && d.lapped (fromBytes par) (8 * par.length)
  let d := if lapped then { d with stats := { d.stats with laps := d.stats.laps + 1 } } else d
  let gap := gap || lapped
  let d :=
    if gap then { d.reset with stats := { d.stats with gaps := d.stats.gaps + 1 } } else d
  (gap, { d with stats := { d.stats with paragraphs := d.stats.paragraphs + 1 } })

/-- The decoder after a scan. -/
def scanned (d : Decoder settings) (s : Scan) : Decoder settings :=
  { d with
    clock := s.clock
    bases := s.bases
    stats := { d.stats with counts := d.stats.counts.add s.counts } }

/-- Whether the paragraph is dropped after the scan `s`. -/
def tears (d : Decoder settings) (s : Scan) : Bool :=
  s.suspect ||
    decide ((d.scanned s).stats.counts.unknown ≠ d.stats.counts.unknown) ||
    decide ((d.scanned s).stats.counts.malformed.length ≠ d.stats.counts.malformed.length)

/-- The decoder, as it was in `saved` before the scan `s`, rewound. -/
def rewind (saved : Decoder settings) (s : Scan) : Decoder settings :=
  let d := (saved.scanned s).reset
  { d with
    clock := { saved.clock with tsrOk := false, base := -1 }
    prevFirst := none
    stats := { d.stats with torn := d.stats.torn + 1 } }

/-- The paragraph interval after a first time stamp. -/
def measure (d : Decoder settings) (gap : Bool) (first : Option Int) : Decoder settings :=
  match first with
  | none => d
  | some first =>
      let measured :=
        match d.prevFirst with
        | none => d
        | some previous =>
            if !gap ∧ first > previous then
              { d with
                interval := settings.average d.interval (min d.intervals 15) (first - previous)
                intervals := d.intervals + 1 }
            else d
      { measured with prevFirst := some first }

/-- `Decoder.rows`. -/
def rows
    (d : Decoder settings)
    (par : List Byte)
    (gap final : Bool) : List Row × Decoder settings :=
  let (gap, d) := d.enter par gap
  let out := if gap then [gapRow] else []
  let s := scan settings.tickMode final (fromBytes par) (8 * par.length) d.clock d.bases
  if d.tears s then (out ++ [gapRow], d.rewind s)
  else (out ++ s.out, (d.scanned s).measure gap s.first)

end Decoder

/-- A paragraph as it is passed to `rows`. -/
structure Paragraph where
  bytes : List Byte
  gap : Bool
  final : Bool
  deriving DecidableEq, Repr

namespace Decoder

/-- The rows of paragraphs, one after the other, and the decoder afterwards. -/
def run (d : Decoder settings) : List Paragraph → List (List Row) × Decoder settings
  | [] => ([], d)
  | par :: rest =>
      let (rows, d) := d.rows par.bytes par.gap par.final
      let (others, d) := d.run rest
      (rows :: others, d)

end Decoder
end Decode
end TriCoreDap
