import Mathlib.Data.Nat.Bitwise
import Mathlib.Tactic.Common

/-!
# The CRC of a DAP frame

`dap_crc6.v` and `dap_frame.c`: the generator is a Galois register, the checker a
Fibonacci one.  The fabric has six bits, the host a byte.
-/

namespace TriCoreDap
namespace Fpga

/-- `GALOIS_POLY`. -/
def galoisPoly : BitVec 6 := 0x30
/-- `GALOIS_SEED`. -/
def galoisSeed : BitVec 6 := 0x20
/-- `CRC6_FIBO_POLY`. -/
def fiboPoly : BitVec 8 := 0x03
/-- `FIBO_SEED`. -/
def fiboSeed : BitVec 6 := 0x3F

/-- `step` of `dap_crc6_gen`. -/
def galoisStep (s : BitVec 6) (b : Bool) : BitVec 6 :=
  if s.getLsbD 0 ^^ b then s >>> 1 ^^^ galoisPoly else s >>> 1

/-- `step` of `dap_crc6_check`: taps at the bits 0 and 1. -/
def fiboStep (s : BitVec 6) (b : Bool) : BitVec 6 :=
  BitVec.ofBool (b ^^ s.getLsbD 0 ^^ s.getLsbD 1) ++ s.extractLsb' 1 5

/-- What a clock of either takes: a bit, or a pair in wide mode. -/
def crcClock
    (step : BitVec 6 → Bool → BitVec 6)
    (wide : Bool)
    (s : BitVec 6)
    (bits : Bool × Bool) : BitVec 6 :=
  if wide then step (step s bits.1) bits.2 else step s bits.1

/-! ## The host's -/

/-- A bit as the host has it. -/
def hostBit (bit : Bool) : BitVec 8 := if bit then 1 else 0

/-- One bit of `dap_crc6`. -/
def dapCrc6Bit (crc : BitVec 8) (bit : Bool) : BitVec 8 :=
  if (crc ^^^ hostBit bit) &&& 1 ≠ 0 then crc >>> 1 ^^^ 0x30 else crc >>> 1

/-- `dap_crc6`. -/
def dapCrc6 (bits : List Bool) : BitVec 8 := bits.foldl dapCrc6Bit 0x20 &&& 0x3F

/-- One bit of `dap_crc6_residue_ok`: a tap for each bit of the polynomial. -/
def dapResidueBit (state : BitVec 8) (bit : Bool) : BitVec 8 :=
  let feedback := (List.range 6).foldl
    (fun (feedback : BitVec 8) (tap : Nat) =>
      if fiboPoly >>> tap &&& 1 ≠ 0 then feedback ^^^ (state >>> tap &&& 1) else feedback)
    (hostBit bit)
  (state >>> 1 ||| feedback <<< 5) &&& 0x3F

/-- `dap_crc6_residue_ok`. -/
def dapCrc6ResidueOk (bits : List Bool) : Bool :=
  bits.foldl dapResidueBit 0x3F &&& 0x3F == 0

theorem dapCrc6Bit_setWidth (s : BitVec 6) (bit : Bool) :
    dapCrc6Bit (s.setWidth 8) bit = (galoisStep s bit).setWidth 8 := by
  revert s bit
  decide +kernel

theorem dapResidueBit_setWidth (s : BitVec 6) (bit : Bool) :
    dapResidueBit (s.setWidth 8) bit = (fiboStep s bit).setWidth 8 := by
  revert s bit
  decide +kernel

/-- A register of six bits in a byte, over the bits of a frame. -/
theorem foldl_setWidth
    {host : BitVec 8 → Bool → BitVec 8}
    {step : BitVec 6 → Bool → BitVec 6}
    (same : ∀ s bit, host (s.setWidth 8) bit = (step s bit).setWidth 8)
    (bits : List Bool)
    (s : BitVec 6) :
    bits.foldl host (s.setWidth 8) = (bits.foldl step s).setWidth 8 := by
  induction bits generalizing s with
  | nil => rfl
  | cons bit rest inductionHypothesis =>
      rw [List.foldl_cons, List.foldl_cons, same, inductionHypothesis]

/-- The host's CRC is the fabric's. -/
theorem dapCrc6_eq (bits : List Bool) :
    dapCrc6 bits = (bits.foldl galoisStep galoisSeed).setWidth 8 := by
  have masked (s : BitVec 6) : s.setWidth 8 &&& 0x3F = s.setWidth 8 := by
    revert s
    decide +kernel
  have seed : (0x20 : BitVec 8) = galoisSeed.setWidth 8 := rfl
  rw [dapCrc6, seed, foldl_setWidth dapCrc6Bit_setWidth, masked]

/-- The host's check is the fabric's. -/
theorem dapCrc6ResidueOk_eq (bits : List Bool) :
    dapCrc6ResidueOk bits = (bits.foldl fiboStep fiboSeed == 0) := by
  have masked (s : BitVec 6) : (s.setWidth 8 &&& 0x3F == 0) = (s == 0) := by
    revert s
    decide +kernel
  have run := foldl_setWidth dapResidueBit_setWidth bits fiboSeed
  change (bits.foldl dapResidueBit (fiboSeed.setWidth 8) &&& 0x3F == 0) = _
  rw [run, masked]

end Fpga
end TriCoreDap
