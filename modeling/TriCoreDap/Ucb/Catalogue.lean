import TriCoreDap.Flash.Interpreter

/-!
# The catalogue of user configuration blocks

The blocks of `tricore_ucb.c`, the formal check of a block's contents and the
state that `DMU_HF_CONFIRMx` reports for it.
-/

namespace TriCoreDap
namespace Ucb

open Probe

/-- `TRICORE_UCB_BASE`. -/
def ucbBase : Nat := 0xAF400000
/-- `TRICORE_UCB_SIZE`. -/
def ucbSize : Nat := 0x200

/-- The names of the catalogue. -/
inductive BlockName
  | bmhd0Orig
  | bmhd1Orig
  | bmhd2Orig
  | bmhd3Orig
  | ssw
  | bmhd0Copy
  | bmhd1Copy
  | bmhd2Copy
  | bmhd3Copy
  | retest
  | pflashOrig
  | dflashOrig
  | dbgOrig
  | hsmOrig
  | hsmcotp0Orig
  | hsmcotp1Orig
  | ecprioOrig
  | swapOrig
  | pflashCopy
  | dflashCopy
  | dbgCopy
  | hsmCopy
  | hsmcotp0Copy
  | hsmcotp1Copy
  | ecprioCopy
  | swapCopy
  | otp0Orig
  | otp1Orig
  | otp2Orig
  | otp3Orig
  | otp4Orig
  | otp5Orig
  | otp6Orig
  | otp7Orig
  | otp0Copy
  | otp1Copy
  | otp2Copy
  | otp3Copy
  | otp4Copy
  | otp5Copy
  | otp6Copy
  | otp7Copy
  deriving DecidableEq, Repr

/-- `ucb_block_t`. -/
structure UcbBlock where
  name : BlockName
  base : Nat
  dual : Bool
  confirmRegister : Nat
  confirmMask : Nat
  isBmhd : Bool
  deriving DecidableEq, Repr

/-- `BLOCKS`. -/
def blocks : List UcbBlock :=
  [ ⟨.bmhd0Orig, 0xAF400000, true, 0, 0x00000003, true⟩,
    ⟨.bmhd1Orig, 0xAF400200, true, 0, 0x0000000C, true⟩,
    ⟨.bmhd2Orig, 0xAF400400, true, 0, 0x00000030, true⟩,
    ⟨.bmhd3Orig, 0xAF400600, true, 0, 0x000000C0, true⟩,
    ⟨.ssw, 0xAF400800, false, 0, 0x00000100, false⟩,
    ⟨.bmhd0Copy, 0xAF401000, true, 0, 0x00030000, true⟩,
    ⟨.bmhd1Copy, 0xAF401200, true, 0, 0x000C0000, true⟩,
    ⟨.bmhd2Copy, 0xAF401400, true, 0, 0x00300000, true⟩,
    ⟨.bmhd3Copy, 0xAF401600, true, 0, 0x00C00000, true⟩,
    ⟨.retest, 0xAF401E00, false, 0, 0xC0000000, false⟩,
    ⟨.pflashOrig, 0xAF402000, true, 1, 0x00000003, false⟩,
    ⟨.dflashOrig, 0xAF402200, true, 1, 0x0000000C, false⟩,
    ⟨.dbgOrig, 0xAF402400, true, 1, 0x00000030, false⟩,
    ⟨.hsmOrig, 0xAF402600, true, 1, 0x000000C0, false⟩,
    ⟨.hsmcotp0Orig, 0xAF402800, true, 1, 0x00000300, false⟩,
    ⟨.hsmcotp1Orig, 0xAF402A00, true, 1, 0x00000C00, false⟩,
    ⟨.ecprioOrig, 0xAF402C00, true, 1, 0x00003000, false⟩,
    ⟨.swapOrig, 0xAF402E00, true, 1, 0x0000C000, false⟩,
    ⟨.pflashCopy, 0xAF403000, true, 1, 0x00030000, false⟩,
    ⟨.dflashCopy, 0xAF403200, true, 1, 0x000C0000, false⟩,
    ⟨.dbgCopy, 0xAF403400, true, 1, 0x00300000, false⟩,
    ⟨.hsmCopy, 0xAF403600, true, 1, 0x00C00000, false⟩,
    ⟨.hsmcotp0Copy, 0xAF403800, true, 1, 0x03000000, false⟩,
    ⟨.hsmcotp1Copy, 0xAF403A00, true, 1, 0x0C000000, false⟩,
    ⟨.ecprioCopy, 0xAF403C00, true, 1, 0x30000000, false⟩,
    ⟨.swapCopy, 0xAF403E00, true, 1, 0xC0000000, false⟩,
    ⟨.otp0Orig, 0xAF404000, true, 2, 0x00000003, false⟩,
    ⟨.otp1Orig, 0xAF404200, true, 2, 0x0000000C, false⟩,
    ⟨.otp2Orig, 0xAF404400, true, 2, 0x00000030, false⟩,
    ⟨.otp3Orig, 0xAF404600, true, 2, 0x000000C0, false⟩,
    ⟨.otp4Orig, 0xAF404800, true, 2, 0x00000300, false⟩,
    ⟨.otp5Orig, 0xAF404A00, true, 2, 0x00000C00, false⟩,
    ⟨.otp6Orig, 0xAF404C00, true, 2, 0x00003000, false⟩,
    ⟨.otp7Orig, 0xAF404E00, true, 2, 0x0000C000, false⟩,
    ⟨.otp0Copy, 0xAF405000, true, 2, 0x00030000, false⟩,
    ⟨.otp1Copy, 0xAF405200, true, 2, 0x000C0000, false⟩,
    ⟨.otp2Copy, 0xAF405400, true, 2, 0x00300000, false⟩,
    ⟨.otp3Copy, 0xAF405600, true, 2, 0x00C00000, false⟩,
    ⟨.otp4Copy, 0xAF405800, true, 2, 0x03000000, false⟩,
    ⟨.otp5Copy, 0xAF405A00, true, 2, 0x0C000000, false⟩,
    ⟨.otp6Copy, 0xAF405C00, true, 2, 0x30000000, false⟩,
    ⟨.otp7Copy, 0xAF405E00, true, 2, 0xC0000000, false⟩ ]

/-- `IMAGE_OWNED`: the blocks an image owns, in the order they are considered. -/
def imageOwned : List BlockName :=
  [ .bmhd0Orig, .bmhd1Orig, .bmhd2Orig, .bmhd3Orig,
    .bmhd0Copy, .bmhd1Copy, .bmhd2Copy, .bmhd3Copy ]

def byName (name : BlockName) : Option UcbBlock :=
  blocks.find? fun block => block.name == name

def isOwned (block : UcbBlock) : Bool :=
  imageOwned.any fun name => name == block.name

def slotOf (block : UcbBlock) : Nat :=
  sub32 block.base ucbBase / ucbSize

/-- `tricore_ucb_image_t`: the bytes of the UCB window and the slots the image
has records in. -/
structure UcbImage where
  data : Nat → Byte
  present : Nat

def UcbImage.carries (image : UcbImage) (block : UcbBlock) : Bool :=
  image.present.testBit (slotOf block)

/-- The bytes the image has for a block. -/
def UcbImage.blobOf (image : UcbImage) (block : UcbBlock) : List Byte :=
  (List.range ucbSize).map fun i => image.data (sub32 block.base ucbBase + i)

/-! ## The checks -/

def confirmBase : Nat := 0xF8040020
def codeUnlocked : Nat := 0x43211234
def codeConfirmed : Nat := 0x57B5327F
/-- The confirmation word's offset. -/
def stateOffset : Nat := 0x1F0
def erasedByte : Byte := 0x00
def bmhdId : Nat := 0xB359

/-- The confirmation words' offsets. -/
def codeOffsets (block : UcbBlock) : List Nat :=
  if block.dual then [0x1F0] else [0x1F0, 0x1F8]

/-- CRC32 over the first eight bytes, each word byte-swapped first. -/
def crcBmhd (blob : List Byte) : Word :=
  Flash.crc32 ((List.range 2).flatMap fun w =>
    (List.range 4).map fun b => blob.getD (4 * w + 3 - b) 0)

/-- What can be formally wrong with a block's contents. -/
inductive Problem
  | erased
  | confirmationWord (offset : Nat) (word : Word)
  | bmhdId (id : Nat)
  | hwcfg (hwcfg : Nat)
  | stadUnaligned (stad : Word)
  | stadOutside (stad : Word)
  | crc (crc expected : Word)
  | crcComplement (complement expected : Word)
  deriving DecidableEq, Repr

def bmhdProblems (blob : List Byte) : List Problem :=
  let id := le16 blob 2
  let hwcfg := (le16 blob 0 >>> 1) &&& 7
  let stad := le32 blob 4
  let expected := crcBmhd blob
  let crc := le32 blob 8
  let complement := le32 blob 12
  (if id ≠ bmhdId then [.bmhdId id] else []) ++
    (if hwcfg ≠ 3 ∧ hwcfg ≠ 4 ∧ hwcfg ≠ 6 ∧ hwcfg ≠ 7 then [.hwcfg hwcfg] else []) ++
    (if stad % 4 ≠ 0 then [.stadUnaligned stad]
      else if stad &&& 0xDF000000 ≠ 0x80000000 then [.stadOutside stad] else []) ++
    (if crc ≠ expected then [.crc crc expected] else []) ++
    (if complement ≠ 2 ^ 32 - 1 - expected then [.crcComplement complement expected]
      else [])

/-- `check`: everything formally wrong with a block's contents. -/
def check (block : UcbBlock) (blob : List Byte) : List Problem :=
  if (List.range ucbSize).all fun i => blob.getD i 0 == erasedByte then [.erased]
  else
    ((codeOffsets block).flatMap fun offset =>
      let word := le32 blob offset
      if word ≠ codeUnlocked ∧ word ≠ codeConfirmed then [.confirmationWord offset word]
      else []) ++
      if block.isBmhd then bmhdProblems blob else []

/-- The offsets at which the bytes would confirm the block. -/
def confirmedAt (block : UcbBlock) (blob : List Byte) : List Nat :=
  (codeOffsets block).filter fun offset => le32 blob offset == codeConfirmed

/-- What `state_on_target` says of a block. -/
inductive TargetState
  | unread
  | unlocked
  | confirmed
  | errored
  | unreadable
  | flag (bit : Nat) (isSet : Bool)
  deriving DecidableEq, Repr

/-- `STATES`. -/
def stateOfBits : Nat → TargetState
  | 0 => .unread
  | 1 => .unlocked
  | 2 => .confirmed
  | _ => .errored

def popcount (mask : Nat) : Nat :=
  ((List.range 32).filter mask.testBit).length

/-- The place of the two-bit state in its register. -/
def stateShift (mask : Nat) : Nat :=
  (((List.range 16).map (2 * ·)).find? fun offset => (mask >>> offset) &&& 3 == 3).getD 0

def stateAddr (block : UcbBlock) : Nat := confirmBase + 4 * block.confirmRegister

def stateOnTarget (block : UcbBlock) : Run TargetState := do
  match ← read32 (stateAddr block) with
  | none =>
      clearErrorState
      return .unreadable
  | some word =>
      if popcount block.confirmMask ≠ 2 then
        return .flag block.confirmMask.log2 (word &&& block.confirmMask != 0)
      else
        return stateOfBits
          (((word &&& block.confirmMask) >>> stateShift block.confirmMask) &&& 3)

def readBlock (block : UcbBlock) : Run (Option (List Byte)) :=
  tricoreReadMem block.base ucbSize

/-- The offsets at which two versions of a block differ. -/
def differences (image target : List Byte) : List Nat :=
  (List.range ucbSize).filter fun i => image.getD i 0 != target.getD i 0

end Ucb
end TriCoreDap
