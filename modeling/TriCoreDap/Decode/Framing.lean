import TriCoreDap.Library.Bits

/-!
# The trace memory format

`tram.py`: the tables of the message lengths and `parse_paragraph`, which splits
a paragraph into raw messages.  The parser is a step at the position of a length
field, repeated until a step leaves the loop or fewer than four bits are left.
-/

namespace TriCoreDap
namespace Decode

/-- Table 338: `<symlength>` code to body length in bits. -/
def symlenBits : Nat → Option Nat
  | 0x2 => some 12
  | 0x3 => some 16
  | 0x4 => some 20
  | 0x5 => some 24
  | 0x6 => some 32
  | 0x7 => some 40
  | 0x8 => some 44
  | 0x9 => some 56
  | 0xA => some 64
  | 0xB => some 76
  | 0xC => some 92
  | 0xD => some 112
  | _ => none

/-- Table 341: `<length 1>` code to bits of `<data 1>`. -/
def length1Bits : Nat → Option Nat
  | 0x0 => some 0
  | 0x1 => some 4
  | 0x2 => some 8
  | 0x3 => some 12
  | 0x4 => some 16
  | 0x5 => some 20
  | 0x6 => some 24
  | 0x7 => some 28
  | 0x8 => some 32
  | 0x9 => some 36
  | 0xA => some 40
  | 0xB => some 44
  | 0xC => some 64
  | _ => none

def codeTick : Nat := 0x0
def codeError : Nat := 0x1
def codeMultick : Nat := 0xE
def codeAbsize : Nat := 0xF

def coreSkip : Nat := 0x00
def coreDcu : Nat := 0x08
def coreDtu0 : Nat := 0x09
def coreDtu1 : Nat := 0x0B
def corePtu : Nat := 0x0C
def coreTsu : Nat := 0x0E
def coreWtu : Nat := 0x0F

/-- `CORE_NAMES`. -/
def coreNames (core : Nat) : Option String :=
  if core = coreDcu then some "DCU"
  else if core = coreDtu0 then some "DTU0"
  else if core = coreDtu1 then some "DTU1"
  else if core = corePtu then some "PTU"
  else if core = coreTsu then some "TSU"
  else if core = coreWtu then some "WTU"
  else none

/-- One message of the trace memory, at the position of its length field. -/
inductive RawMessage
  | tick (bit : Nat)
  | multick (bit ticks : Nat)
  | error (bit core errCnt : Nat)
  | skip (bit dbits : Nat)
  | endOfTrace (bit : Nat)
  | damaged (bit : Nat)
  | msg (bit core tt data dbits : Nat)
  deriving DecidableEq, Repr

/-- A round of the loop of `parse_paragraph`: what it yields, and where it goes
on unless it returns. -/
inductive ParseStep
  | quit (last : List RawMessage)
  | next (yielded : List RawMessage) (pos : Nat)
  deriving DecidableEq, Repr

/-- The body of a message: `length` bits from `start` on, its length field being
at `bit`. -/
def parseBody (big stop bit start length : Nat) : ParseStep :=
  if length > stop - start then
    if stop - start > 32 then .quit [.damaged bit] else .quit []
  else if length < 8 then .next [] (start + length)
  else
    let core := bitsAt big start 5
    if core = coreSkip then .quit [.skip bit length]
    else
      let tt := bitsAt big (start + 5) 3
      let data := bitsAt big (start + 8) (length - 8)
      .next [.msg bit core tt data (length - 8)] (start + length)

/-- The round at `pos`. -/
def parseStep (big stop pos : Nat) : ParseStep :=
  let code := bitsAt big pos 4
  if code = codeTick then .next [.tick pos] (pos + 4)
  else if code = codeMultick then
    if stop - (pos + 4) < 8 then .quit []
    else
      let count := bitsAt big (pos + 4) 8
      .next (if count ≠ 0 then [.multick pos count] else []) (pos + 12)
  else if code = codeError then
    if stop - (pos + 4) < 12 then .quit []
    else .next [.error pos (bitsAt big (pos + 4) 5) (bitsAt big (pos + 9) 7)] (pos + 16)
  else if code = codeAbsize then
    if stop - (pos + 4) < 8 then .quit []
    else
      let length := bitsAt big (pos + 4) 8
      if length = 0xFF then .quit [.endOfTrace pos]
      else parseBody big stop pos (pos + 12) length
  else
    match symlenBits code with
    | some length => parseBody big stop pos (pos + 4) length
    | none => .quit [.damaged pos]

/-- The loop from `pos` on: what it yields, and the position of the length field
at which it ends.  Every round moves on by at least four bits. -/
def parseLoop (big stop : Nat) : (fuel pos : Nat) → List RawMessage × Nat
  | 0, pos => ([], pos)
  | fuel + 1, pos =>
      if stop - pos < 4 then ([], pos)
      else
        match parseStep big stop pos with
        | .quit last => (last, pos)
        | .next yielded pos' =>
            let (rest, last) := parseLoop big stop fuel pos'
            (yielded ++ rest, last)

/-- `parse_paragraph`. -/
def parseParagraph (par : List Byte) : List RawMessage :=
  (parseLoop (fromBytes par) (8 * par.length) (8 * par.length / 4) 0).1

/-! ## The rounds come to an end -/

variable {big stop pos pos' : Nat} {yielded : List RawMessage}

theorem parseBody_next
    (next : parseBody big stop bit start length = .next yielded pos') :
    pos' = start + length := by
  unfold parseBody at next
  grind

/-- A round moves on by at least a length field. -/
theorem parseStep_next (next : parseStep big stop pos = .next yielded pos') :
    pos + 4 ≤ pos' := by
  unfold parseStep at next
  grind [parseBody_next]

/-- More rounds than there are length fields make no difference. -/
theorem parseLoop_fuel
    (fuel more pos : Nat)
    (enough : stop - pos < 4 * (fuel + 1)) :
    parseLoop big stop (fuel + more) pos = parseLoop big stop fuel pos := by
  induction fuel generalizing pos with
  | zero =>
      cases more with
      | zero => rfl
      | succ more =>
          have short : stop - pos < 4 := by omega
          simp only [parseLoop, if_pos short]
  | succ fuel inductionHypothesis =>
      rw [Nat.succ_add_eq_add_succ, Nat.add_succ, parseLoop, parseLoop]
      cases round : parseStep big stop pos with
      | quit last => rfl
      | next yielded pos' =>
          have moved := parseStep_next round
          simp only [inductionHypothesis pos' (by omega)]

end Decode
end TriCoreDap
