import TriCoreDap.Probe.Bus

/-!
# The flash command interpreter

The cycles by which `tricore_flash.c` and `tricore_ucb.c` talk to the DMU's
command sequence interpreter, its status registers, and the CRC32 that the RAM
loader computes.
-/

namespace TriCoreDap
namespace Flash

open Probe

def csiBase : Nat := 0xAF000000
def cycle5554 : Nat := 0x5554
def cycle55F0 : Nat := 0x55F0
def cycle55F4 : Nat := 0x55F4
def cycleAA50 : Nat := 0xAA50
def cycleAA58 : Nat := 0xAA58
def cycleAAA8 : Nat := 0xAAA8

def cmdClearStatus : Nat := 0xFA
def cmdEraseSetup : Nat := 0x80
def cmdErase : Nat := 0x50
def cmdEnterPageDflash : Nat := 0x5D
def cmdWritePage : Nat := 0xA0
def cmdProgram : Nat := 0xAA

def dmuHfStatus : Nat := 0xF8040010
def dmuHfErrsr : Nat := 0xF8040034
def statusBusy : Nat := 0x3F
def statusDfpage : Nat := 1 <<< 20
def errsrFailed : Nat := 0x1F

def cycle (offset value : Nat) : Run Bool :=
  write32 (csiBase + offset) value

def clearStatus : Run Bool :=
  cycle cycle5554 cmdClearStatus

/-- Cycles, one after the other, until one fails. -/
def cycles (sequence : List (Nat × Nat)) : Run Bool :=
  writes (sequence.map fun (offset, value) => (csiBase + offset, value))

/-- How waiting for a command's end turned out. -/
inductive Idle
  | idle
  | timeout
  | failed (errsr : Word)
  deriving DecidableEq, Repr

/-- Whether `DMU_HF_STATUS` answers that no bank is busy. -/
def statusIdle : Option Word → Bool
  | some status => status &&& statusBusy == 0
  | none => false

/-- The polls of `tricore_flash_wait_idle`: one, and `more` before the deadline. -/
def pollIdle : (more : Nat) → Run Bool
  | 0 => do
      return statusIdle (← read32 dmuHfStatus)
  | more + 1 => do
      if statusIdle (← read32 dmuHfStatus) then return true else pollIdle more

/-- `tricore_flash_wait_idle`; an unreadable `ERRSR` counts as no error. -/
def waitIdle (timeoutMs : Nat) : Run Idle := do
  let more ← (Program.perform (Op.deadline timeoutMs) : Run Nat)
  if ← pollIdle more then
    let errsr ← read32 dmuHfErrsr
    let _ ← clearStatus
    match errsr with
    | none => return .idle
    | some errsr =>
        return if errsr &&& errsrFailed = 0 then .idle else .failed errsr
  else return .timeout

/-- One byte of `crc32_update`. -/
def crc32Byte (crc : Word) (byte : Byte) : Word :=
  (List.range 8).foldl
    (fun crc _ => (crc >>> 1) ^^^ (if crc % 2 = 1 then 0xEDB88320 else 0))
    (crc ^^^ byte.toNat)

/-- The running CRC32, not inverted. -/
def crc32Update (crc : Word) (data : List Byte) : Word :=
  data.foldl crc32Byte crc

def wordOnes : Word := 0xFFFFFFFF

def crc32 (data : List Byte) : Word :=
  wordOnes - crc32Update wordOnes data

end Flash
end TriCoreDap
