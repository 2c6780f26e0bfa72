import TriCoreDap.Fpga.Crc6
import TriCoreDap.Library.Sender
import Mathlib.Data.List.Range

/-!
# The frame transmitter

`dap_frame_tx.v`.  The registers of the frame change once a bit; those around them time
the halves of its period.  A bit is a pair in wide mode.
-/

namespace TriCoreDap
namespace Fpga

/-- The states of `dap_frame_tx`. -/
inductive TxState
  | idle
  | lead
  | start
  | cmd
  | len
  | data
  | crc
  | trail
  | raw
  deriving DecidableEq, Repr

/-- What the transmitter meets at a clock. -/
structure TxInput (W : Nat) where
  rst : Bool
  div : BitVec W
  start : Bool
  cmd : BitVec 5
  len : BitVec 6
  dataBits : BitVec 6
  data : BitVec 63
  lead : BitVec 6
  wide : Bool
  raw : Bool
  fast : Bool

/-- The registers that the advance to another bit changes. -/
structure TxFrame where
  state : TxState
  left : BitVec 6
  atLast : Bool
  cmdR : BitVec 5
  lenR : BitVec 6
  nbitsR : BitVec 6
  nbitsLast : BitVec 6
  nbZero : Bool
  dataR : BitVec 63
  wideR : Bool
  rawR : Bool
  crcSr : BitVec 6
  busy : Bool
  dap1 : Bool
  dap2 : Bool

/-- The registers of `dap_frame_tx`, with those of its CRC generator. -/
structure FrameTx (W : Nat) where
  frame : TxFrame
  crc : BitVec 6
  crcRst : Bool
  tick : BitVec W
  tickDone : Bool
  phase : Bool
  fastR : Bool
  done : Bool
  dap0 : Bool
  datOe : Bool
  dat2Oe : Bool

variable {W : Nat}

namespace TxInput

def nbitsLastIn (i : TxInput W) : BitVec 6 :=
  if i.wide then (i.dataBits - 1) >>> 1 else i.dataBits - 1

/-- `nbits_last_in == 0`, without its subtract. -/
def oneClock (i : TxInput W) : Bool := i.dataBits == 1 || i.wide && i.dataBits == 2

end TxInput

namespace TxFrame

/-- The bits that a place of a field has. -/
def stride (f : TxFrame) : Nat := if f.wideR then 2 else 1

def cmdLast (f : TxFrame) : BitVec 6 := if f.wideR then 2 else 4

/-- `f6_last`: LEN and CRC, both six. -/
def f6Last (f : TxFrame) : BitVec 6 := if f.wideR then 2 else 5

/-- The bottom bits of a field. -/
def bottom {n : Nat} (field : BitVec n) : Bool × Bool := (field.getLsbD 0, field.getLsbD 1)

/-- The slot after the bottom: `cmd_n0` and `cmd_n1`, and those of the other fields. -/
def beside {n : Nat} (f : TxFrame) (field : BitVec n) : Bool × Bool :=
  (if f.wideR then field.getLsbD 2 else field.getLsbD 1, field.getLsbD 3)

/-- `cur_bit` and `cur_bit2`. -/
def cur (f : TxFrame) : Bool × Bool :=
  match f.state with
  | .start => (true, true)
  | .cmd => bottom f.cmdR
  | .len => bottom f.lenR
  | .data => bottom f.dataR
  | .crc => bottom f.crcSr
  | .raw => bottom f.dataR
  | .idle | .lead | .trail => (false, false)

/-- `next_bit` and `next_bit2`. -/
def next (f : TxFrame) (crc : BitVec 6) : Bool × Bool :=
  match f.state with
  | .lead =>
      if f.atLast then if f.rawR then bottom f.dataR else (true, true) else (false, false)
  | .start => bottom f.cmdR
  | .cmd => if f.atLast then bottom f.lenR else f.beside f.cmdR
  | .len =>
      if f.atLast then if f.nbitsR == 0 then bottom crc else bottom f.dataR
      else f.beside f.lenR
  | .data => if f.atLast then bottom crc else f.beside f.dataR
  | .raw => if f.atLast then (false, false) else f.beside f.dataR
  | .crc => if f.atLast then (false, false) else f.beside f.crcSr
  | .idle | .trail => (false, false)

/-- The states that the CRC eats. -/
def covered (f : TxFrame) : Bool :=
  match f.state with
  | .cmd | .len | .data => true
  | _ => false

/-- `ending`. -/
def ending (f : TxFrame) : Bool := f.state == .trail || f.state == .raw && f.atLast

/-- The parameters, taken every idle clock. -/
def load (f : TxFrame) (i : TxInput W) : TxFrame :=
  { f with
    cmdR := i.cmd
    lenR := i.len
    nbitsR := i.dataBits
    nbitsLast := i.nbitsLastIn
    nbZero := i.oneClock
    dataR := i.data
    wideR := i.wide
    rawR := i.raw
    atLast := if i.lead != 0 then i.lead == 1 else i.raw && i.oneClock
    left := if i.lead != 0 then i.lead - 1 else i.nbitsLastIn }

/-- What `start` adds to them. -/
def begin (f : TxFrame) (i : TxInput W) : TxFrame :=
  let first := if i.lead == 0 then if i.raw then bottom i.data else (true, true)
    else (false, false)
  { f.load i with
    busy := true
    state := if i.lead == 0 then if i.raw then .raw else .start else .lead
    dap1 := first.1
    dap2 := first.2 }

/-- Advance to the next bit, and the next field when this one runs out. -/
def advance (f : TxFrame) (crc : BitVec 6) : TxFrame :=
  let boundary := f.atLast || f.state == .start
  { f with
    dap1 := (f.next crc).1
    dap2 := (f.next crc).2
    atLast :=
      if boundary then
        match f.state with
        | .lead => f.rawR && f.nbZero
        | .len => f.nbitsR != 0 && f.nbZero
        | _ => false
      else f.left == 1
    left :=
      if boundary then
        match f.state with
        | .lead => f.nbitsLast
        | .start => f.cmdLast
        | .cmd => f.f6Last
        | .len => if f.nbitsR == 0 then f.f6Last else f.nbitsLast
        | .data => f.f6Last
        | _ => f.left
      else f.left - 1
    state :=
      match f.state with
      | .lead => if f.atLast then if f.rawR then .raw else .start else .lead
      | .start => .cmd
      | .cmd => if f.atLast then .len else .cmd
      | .len => if f.atLast then if f.nbitsR == 0 then .crc else .data else .len
      | .data => if f.atLast then .crc else .data
      | .crc => if f.atLast then .trail else .crc
      | .raw => if f.atLast then .idle else .raw
      | .idle | .trail => .idle
    cmdR := if f.state == .cmd then f.cmdR >>> f.stride else f.cmdR
    lenR := if f.state == .len then f.lenR >>> f.stride else f.lenR
    dataR :=
      match f.state with
      | .data | .raw => f.dataR >>> f.stride
      | _ => f.dataR
    crcSr :=
      match f.state with
      | .len | .data => if f.atLast then crc else f.crcSr
      | .crc => f.crcSr >>> f.stride
      | _ => f.crcSr
    busy := if f.ending then false else f.busy }

end TxFrame

namespace FrameTx

/-- `div_zero`. -/
def divZero (m : FrameTx W) (i : TxInput W) : Bool := m.fastR || i.div == 0

/-- `crc_en`. -/
def crcEn (m : FrameTx W) : Bool := !m.phase && m.tickDone && m.frame.covered

/-- The clock of `dap_crc6_gen`. -/
def crcNext (m : FrameTx W) : BitVec 6 :=
  if m.crcRst then galoisSeed
  else if m.crcEn then crcClock galoisStep m.frame.wideR m.crc m.frame.cur
  else m.crc

/-- `dap0_d`. -/
def dap0D (m : FrameTx W) (i : TxInput W) : Bool :=
  if i.rst then false
  else if m.frame.state == .idle then i.start && i.fast
  else if !m.tickDone then m.dap0
  else if !m.phase then true
  else m.fastR && !m.frame.ending

/-- `always @(posedge clk)`. -/
def clock (m : FrameTx W) (i : TxInput W) : FrameTx W :=
  let m' := { m with crc := m.crcNext, crcRst := false, done := false, dap0 := m.dap0D i }
  if i.rst then
    { m' with
      frame :=
        { m.frame with
          state := .idle
          busy := false
          dap1 := true
          dap2 := true
          wideR := false }
      fastR := false
      datOe := true
      dat2Oe := false
      tick := i.div
      tickDone := i.div == 0
      phase := false }
  else if m.frame.state == .idle then
    { m' with
      frame := if i.start then m.frame.begin i else m.frame.load i
      fastR := i.fast
      tick := i.div
      tickDone := i.fast || i.div == 0
      phase := i.fast
      crcRst := i.start
      datOe := if i.start then true else m.datOe
      dat2Oe := if i.start then i.wide else m.dat2Oe }
  else if !m.tickDone then { m' with tick := m.tick - 1, tickDone := m.tick == 1 }
  else if !m.phase then { m' with tick := i.div, tickDone := m.divZero i, phase := true }
  else
    { m' with
      tick := i.div
      tickDone := m.divZero i
      phase := m.fastR
      frame := m.frame.advance m.crc
      done := m.frame.ending }

/-- What the lines that are driven have. -/
def lines (m : FrameTx W) : Bool × Bool :=
  (m.datOe && m.frame.dap1, m.dat2Oe && m.frame.dap2)

/-- The lines, when a clock raises DAP0. -/
def rising (m : FrameTx W) (i : TxInput W) : List (Bool × Bool) :=
  if !m.dap0 && (m.clock i).dap0 then [(m.clock i).lines] else []

/-- The lines at the rising edges of DAP0. -/
def sent (m : FrameTx W) (inputs : List (TxInput W)) : List (Bool × Bool) :=
  emitted clock rising m inputs

end FrameTx

/-! ## A bit at a time -/

namespace TxFrame

variable {f : TxFrame} {crc : BitVec 6}

/-- What the lines have for the places of a field. -/
def places {n : Nat} (f : TxFrame) (field : BitVec n) (count : Nat) : List (Bool × Bool) :=
  (List.range count).map fun place =>
    (field.getLsbD (f.stride * place), f.wideR && field.getLsbD (f.stride * place + 1))

/-- The CRC over bits or pairs. -/
def eat (f : TxFrame) (crc : BitVec 6) (bits : List (Bool × Bool)) : BitVec 6 :=
  bits.foldl (crcClock galoisStep f.wideR) crc

/-- The CRC once the bit that is shown is eaten. -/
def consume (f : TxFrame) (crc : BitVec 6) : BitVec 6 :=
  if f.covered then crcClock galoisStep f.wideR crc f.cur else crc

/-- What is to come from the CRC on. -/
def crcOn (f : TxFrame) (crc : BitVec 6) : List (Bool × Bool) :=
  f.places crc (f.f6Last.toNat + 1) ++ [(false, false)]

/-- What is to come after LEN. -/
def dataOn (f : TxFrame) (crc : BitVec 6) : List (Bool × Bool) :=
  if f.nbitsR == 0 then f.crcOn crc
  else
    let data := f.places f.dataR (f.nbitsLast.toNat + 1)
    data ++ f.crcOn (f.eat crc data)

/-- What is to come from a place of LEN on. -/
def lenOn (f : TxFrame) (crc : BitVec 6) (count : Nat) : List (Bool × Bool) :=
  f.places f.lenR count ++ f.dataOn (f.eat crc (f.places f.lenR count))

/-- What is to come from a place of CMD on. -/
def cmdOn (f : TxFrame) (crc : BitVec 6) (count : Nat) : List (Bool × Bool) :=
  let cmd := f.places f.cmdR count
  cmd ++ f.lenOn (f.eat crc cmd) (f.f6Last.toNat + 1)

/-- The frame from its start bit on. -/
def frameOn (f : TxFrame) (crc : BitVec 6) : List (Bool × Bool) :=
  if f.rawR then f.places f.dataR (f.nbitsLast.toNat + 1)
  else (true, f.wideR) :: f.cmdOn crc (f.cmdLast.toNat + 1)

/-- The bits that are still to come, the one shown first. -/
def pending (f : TxFrame) (crc : BitVec 6) : List (Bool × Bool) :=
  let count := f.left.toNat + 1
  match f.state with
  | .idle => []
  | .lead => List.replicate count (false, false) ++ f.frameOn crc
  | .start => (true, f.wideR) :: f.cmdOn crc (f.cmdLast.toNat + 1)
  | .cmd => f.cmdOn crc count
  | .len => f.lenOn crc count
  | .data =>
      let data := f.places f.dataR count
      data ++ f.crcOn (f.eat crc data)
  | .crc => f.places f.crcSr count ++ [(false, false)]
  | .trail => [(false, false)]
  | .raw => f.places f.dataR count

/-- The states with several places. -/
def counted (f : TxFrame) : Prop := f.state ≠ .start ∧ f.state ≠ .trail ∧ f.state ≠ .idle

theorem counted_iff {f : TxFrame} :
    f.counted ↔ f.state ≠ .start ∧ f.state ≠ .trail ∧ f.state ≠ .idle := Iff.rfl

/-- The look-ahead registers tell what they stand for, and the lines have the bit shown. -/
structure Sound (f : TxFrame) : Prop where
  last : f.counted → f.atLast = (f.left == 0)
  one : f.nbZero = (f.nbitsLast == 0)
  dap1 : f.dap1 = f.cur.1
  dap2 : f.wideR = true → f.dap2 = f.cur.2

/-- The bits of a place, as the lines have them. -/
def shownOf (f : TxFrame) (bits : Bool × Bool) : Bool × Bool := (bits.1, f.wideR && bits.2)

theorem left_pred {left : BitVec 6} (more : left ≠ 0) : left.toNat = (left - 1).toNat + 1 := by
  have positive : left.toNat ≠ 0 := fun zero => more (BitVec.eq_of_toNat_eq zero)
  have below := left.isLt
  have one : (1 : BitVec 6).toNat = 1 := rfl
  rw [BitVec.toNat_sub, one]
  omega

theorem left_one (left : BitVec 6) : left = 1#6 ↔ left - 1#6 = 0#6 := by
  revert left
  decide +kernel

theorem places_succ {n : Nat} (f : TxFrame) (field : BitVec n) (count : Nat) :
    f.places field (count + 1) =
      f.shownOf (bottom field) :: f.places (field >>> f.stride) count := by
  rw [places, List.range_succ_eq_map, List.map_cons, List.map_map, places]
  congr 1
  congr 1
  funext place
  have next : f.stride * (place + 1) = f.stride + f.stride * place := by
    rw [Nat.mul_add, Nat.mul_one, Nat.add_comm]
  simp only [Function.comp_apply, Nat.succ_eq_add_one, next, BitVec.getLsbD_ushiftRight,
    Nat.add_assoc]

/-- At a field's end the next field comes. -/
theorem pending_boundary
    (busy : f.state ≠ .idle)
    (last : f.atLast = true)
    (none_left : f.counted → f.left.toNat = 0) :
    f.pending crc =
      f.shownOf f.cur :: (f.advance (f.consume crc)).pending (f.consume crc) := by
  rcases f with ⟨state, left, atLast, cmdR, lenR, nbitsR, nbitsLast, nbZero, dataR, wideR, rawR,
    crcSr, busy, dap1, dap2⟩
  change atLast = true at last
  subst last
  change (state ≠ .start ∧ state ≠ .trail ∧ state ≠ .idle) → left.toNat = 0 at none_left
  cases state with
  | idle => exact absurd rfl busy
  | start => cases wideR <;> rfl
  | trail => cases wideR <;> rfl
  | lead =>
      specialize none_left (by decide)
      change List.replicate (left.toNat + 1) (false, false) ++ _ = _
      rw [none_left]
      cases rawR <;> cases wideR <;> rfl
  | cmd =>
      specialize none_left (by decide)
      change cmdOn _ crc (left.toNat + 1) = _
      rw [none_left]
      cases wideR <;> rfl
  | len =>
      specialize none_left (by decide)
      change lenOn _ crc (left.toNat + 1) = _
      rw [none_left]
      -- Without data, the CRC is next.
      by_cases empty : nbitsR = 0
      · subst empty
        cases wideR <;> rfl
      · have some : (nbitsR == 0) = false := beq_eq_false_iff_ne.mpr empty
        rw [lenOn, dataOn]
        dsimp only
        rw [some]
        simp only [pending, advance, some]
        cases wideR <;> rfl
  | data =>
      specialize none_left (by decide)
      change places _ _ (left.toNat + 1) ++ crcOn _ (eat _ _ (places _ _ (left.toNat + 1))) = _
      rw [none_left]
      cases wideR <;> rfl
  | crc =>
      specialize none_left (by decide)
      change places _ _ (left.toNat + 1) ++ _ = _
      rw [none_left]
      cases wideR <;> rfl
  | raw =>
      specialize none_left (by decide)
      change places _ _ (left.toNat + 1) = _
      rw [none_left]
      cases wideR <;> rfl

/-- Within a field the next place comes. -/
theorem pending_within
    (busy : f.state ≠ .idle)
    (within : f.atLast = false)
    (more : f.counted → f.left.toNat = (f.left - 1).toNat + 1) :
    f.pending crc =
      f.shownOf f.cur :: (f.advance (f.consume crc)).pending (f.consume crc) := by
  rcases f with ⟨state, left, atLast, cmdR, lenR, nbitsR, nbitsLast, nbZero, dataR, wideR, rawR,
    crcSr, busy, dap1, dap2⟩
  change atLast = false at within
  subst within
  change (state ≠ .start ∧ state ≠ .trail ∧ state ≠ .idle) →
    left.toNat = (left - 1).toNat + 1 at more
  cases state with
  | idle => exact absurd rfl busy
  | start => cases wideR <;> rfl
  | trail => cases wideR <;> rfl
  | lead =>
      specialize more (by decide)
      change List.replicate (left.toNat + 1) (false, false) ++ _ = _
      rw [more]
      cases wideR <;> rfl
  | cmd =>
      specialize more (by decide)
      change cmdOn _ crc (left.toNat + 1) = _
      rw [more, cmdOn, places_succ]
      cases wideR <;> rfl
  | len =>
      specialize more (by decide)
      change lenOn _ crc (left.toNat + 1) = _
      rw [more, lenOn, places_succ]
      cases wideR <;> rfl
  | data =>
      specialize more (by decide)
      change places _ _ (left.toNat + 1) ++ crcOn _ (eat _ _ (places _ _ (left.toNat + 1))) = _
      rw [more, places_succ]
      cases wideR <;> rfl
  | crc =>
      specialize more (by decide)
      change places _ _ (left.toNat + 1) ++ _ = _
      rw [more, places_succ]
      cases wideR <;> rfl
  | raw =>
      specialize more (by decide)
      change places _ _ (left.toNat + 1) = _
      rw [more, places_succ]
      cases wideR <;> rfl

/-- The bit that is shown is the first of those to come, and the advance leaves the rest. -/
theorem Sound.pending_advance (sound : f.Sound) (busy : f.state ≠ .idle) :
    f.pending crc =
      f.shownOf f.cur :: (f.advance (f.consume crc)).pending (f.consume crc) := by
  cases last : f.atLast with
  | true =>
      refine pending_boundary busy last fun counted => ?_
      have told := sound.last counted
      rw [last] at told
      rw [beq_iff_eq.mp told.symm]
      rfl
  | false =>
      refine pending_within busy last fun counted => left_pred fun zero => ?_
      have told := sound.last counted
      rw [last, zero] at told
      exact absurd told (by decide)

/-- What a line's next value has to agree with: DAP2 counts in wide mode only. -/
def Agree (f : TxFrame) (bits bits' : Bool × Bool) : Prop :=
  bits.1 = bits'.1 ∧ (f.wideR = true → bits.2 = bits'.2)

theorem Agree.refl (f : TxFrame) (bits : Bool × Bool) : f.Agree bits bits :=
  ⟨rfl, fun _ => rfl⟩

/-- The slot beside is the bottom of the shifted field. -/
theorem agree_beside {n : Nat} (f : TxFrame) (field : BitVec n) :
    f.Agree (f.beside field) (bottom (field >>> f.stride)) := by
  unfold Agree beside bottom stride
  simp only [BitVec.getLsbD_ushiftRight]
  cases f.wideR with
  | false => exact ⟨rfl, nofun⟩
  | true => exact ⟨rfl, fun _ => rfl⟩

/-- The look-ahead is the bit that the advance makes current. -/
theorem agree_next (f : TxFrame) (crc : BitVec 6) :
    f.Agree (f.next crc) (f.advance crc).cur := by
  cases state : f.state with
  | idle =>
      simp only [next, cur, advance, state]
      exact .refl f _
  | start =>
      simp only [next, cur, advance, state]
      exact .refl f _
  | trail =>
      simp only [next, cur, advance, state]
      exact .refl f _
  | lead =>
      simp only [next, cur, advance, state]
      cases f.atLast <;> cases f.rawR <;> exact .refl f _
  | cmd =>
      simp only [next, cur, advance, state]
      cases f.atLast with
      | false => exact agree_beside f _
      | true => exact .refl f _
  | len =>
      simp only [next, cur, advance, state]
      cases f.atLast with
      | false => exact agree_beside f _
      | true => cases f.nbitsR == 0 <;> exact .refl f _
  | data =>
      simp only [next, cur, advance, state]
      cases f.atLast with
      | false => exact agree_beside f _
      | true => exact .refl f _
  | crc =>
      simp only [next, cur, advance, state]
      cases f.atLast with
      | false => exact agree_beside f _
      | true => exact .refl f _
  | raw =>
      simp only [next, cur, advance, state]
      cases f.atLast with
      | false => exact agree_beside f _
      | true => exact .refl f _

theorem Sound.advance (sound : f.Sound) (crc : BitVec 6) : (f.advance crc).Sound where
  one := sound.one
  dap1 := (agree_next f crc).1
  dap2 := (agree_next f crc).2
  last := by
    have cmdLast : f.cmdLast ≠ 0#6 := by
      unfold cmdLast
      cases f.wideR <;> decide
    have f6Last : f.f6Last ≠ 0#6 := by
      unfold f6Last
      cases f.wideR <;> decide
    have one := sound.one
    intro counted
    rw [counted_iff] at counted
    cases state : f.state with
    | idle => simp [TxFrame.advance, state] at counted
    | trail => simp [TxFrame.advance, state] at counted
    | start => simp [TxFrame.advance, state, cmdLast]
    | lead =>
        cases last : f.atLast with
        | false => simp [TxFrame.advance, state, last, left_one]
        | true =>
            cases raw : f.rawR with
            | false => simp [TxFrame.advance, state, last, raw] at counted
            | true => simp [TxFrame.advance, state, last, raw, one]
    | cmd => cases last : f.atLast <;> simp [TxFrame.advance, state, last, left_one, f6Last]
    | len =>
        cases last : f.atLast with
        | false => simp [TxFrame.advance, state, last, left_one]
        | true =>
            by_cases empty : f.nbitsR = 0
            · simp [TxFrame.advance, state, last, empty, f6Last]
            · have some : f.nbitsR ≠ 0#6 := empty
              simp [TxFrame.advance, state, last, some, one]
    | data => cases last : f.atLast <;> simp [TxFrame.advance, state, last, left_one, f6Last]
    | crc =>
        cases last : f.atLast with
        | false => simp [TxFrame.advance, state, last, left_one]
        | true => simp [TxFrame.advance, state, last] at counted
    | raw =>
        cases last : f.atLast with
        | false => simp [TxFrame.advance, state, last, left_one]
        | true => simp [TxFrame.advance, state, last] at counted

/-- The advance ends the frame exactly on its last bit. -/
theorem ending_iff (busy : f.state ≠ .idle) :
    f.ending = true ↔ (f.advance crc).state = .idle := by
  cases state : f.state with
  | idle => exact absurd state busy
  | start => simp [ending, TxFrame.advance, state]
  | trail => simp [ending, TxFrame.advance, state]
  | cmd => cases last : f.atLast <;> simp [ending, TxFrame.advance, state, last]
  | data => cases last : f.atLast <;> simp [ending, TxFrame.advance, state, last]
  | crc => cases last : f.atLast <;> simp [ending, TxFrame.advance, state, last]
  | raw => cases last : f.atLast <;> simp [ending, TxFrame.advance, state, last]
  | lead =>
      cases last : f.atLast <;> cases raw : f.rawR <;>
        simp [ending, TxFrame.advance, state, last, raw]
  | len =>
      cases last : f.atLast with
      | false => simp [ending, TxFrame.advance, state, last]
      | true =>
          by_cases empty : f.nbitsR = 0#6 <;> simp [ending, TxFrame.advance, state, last, empty]

/-! ## The start of a frame -/

variable {i : TxInput W}

theorem oneClock_eq (i : TxInput W) : i.oneClock = (i.nbitsLastIn == 0) := by
  have same (bits : BitVec 6) (wide : Bool) :
      (bits == 1 || wide && bits == 2) =
        ((if wide then (bits - 1) >>> 1 else bits - 1) == 0) := by
    revert bits wide
    decide +kernel
  exact same i.dataBits i.wide

theorem begin_sound (f : TxFrame) (i : TxInput W) : (f.begin i).Sound where
  one := oneClock_eq i
  dap1 := by
    by_cases none : i.lead = 0#6
    · cases raw : i.raw <;> simp [begin, load, cur, none, raw]
    · simp [begin, load, cur, none]
  dap2 := by
    intro _
    by_cases none : i.lead = 0#6
    · cases raw : i.raw <;> simp [begin, load, cur, none, raw]
    · simp [begin, load, cur, none]
  last := by
    intro counted
    rw [counted_iff] at counted
    by_cases none : i.lead = 0#6
    · cases raw : i.raw with
      | false => simp [begin, none, raw] at counted
      | true => simp [begin, load, none, raw, oneClock_eq]
    · simp [begin, load, none, left_one]

/-- A frame starts in a state that the CRC does not cover. -/
theorem begin_state (f : TxFrame) (i : TxInput W) :
    (f.begin i).state ≠ .idle ∧ (f.begin i).covered = false := by
  by_cases none : i.lead = 0#6
  · cases raw : i.raw <;> simp [begin, covered, none, raw]
  · simp [begin, covered, none]

/-- A frame is as many zeros as the lead asks for, and what comes after them. -/
theorem pending_begin (f : TxFrame) (i : TxInput W) (crc : BitVec 6) :
    (f.begin i).pending crc =
      List.replicate i.lead.toNat (false, false) ++ (f.begin i).frameOn crc := by
  by_cases none : i.lead = 0#6
  · have count : i.lead.toNat = 0 := by rw [none]; rfl
    rw [count, List.replicate_zero, List.nil_append]
    cases raw : i.raw with
    | false =>
        have state : (f.begin i).state = .start := by simp [begin, none, raw]
        have assembled : (f.begin i).rawR = false := raw
        simp only [pending, state, frameOn, assembled, Bool.false_eq_true, if_false]
    | true =>
        have state : (f.begin i).state = .raw := by simp [begin, none, raw]
        have whole : (f.begin i).rawR = true := raw
        have left : (f.begin i).left = (f.begin i).nbitsLast := by simp [begin, load, none]
        simp only [pending, state, frameOn, whole, if_true, left]
  · have state : (f.begin i).state = .lead := by simp [begin, none]
    have left : (f.begin i).left.toNat + 1 = i.lead.toNat := by
      rw [left_pred none]
      simp [begin, load, none]
    simp only [pending, state, left]

/-- The fields of the frame, the CRC's apart. -/
def payload (f : TxFrame) (count : Nat) : List (Bool × Bool) :=
  f.places f.cmdR (f.cmdLast.toNat + 1) ++ f.places f.lenR (f.f6Last.toNat + 1) ++
    f.places f.dataR count

/-- A frame is its start, the fields, their CRC and a zero, whether it has data or not. -/
theorem frameOn_eq
    {count : Nat}
    (assembled : f.rawR = false)
    (places_eq : count = if f.nbitsR == 0 then 0 else f.nbitsLast.toNat + 1) :
    f.frameOn crc =
      (true, f.wideR) :: (f.payload count ++ f.crcOn (f.eat crc (f.payload count))) := by
  have data (crc' : BitVec 6) :
      f.dataOn crc' =
        f.places f.dataR count ++ f.crcOn (f.eat crc' (f.places f.dataR count)) := by
    rw [dataOn, places_eq]
    split <;> rfl
  rw [frameOn, assembled, if_neg Bool.false_ne_true, cmdOn, lenOn, data, payload]
  simp only [eat, List.foldl_append, List.append_assoc]

end TxFrame

end Fpga
end TriCoreDap
