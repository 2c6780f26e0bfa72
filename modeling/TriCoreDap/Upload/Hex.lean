import TriCoreDap.Flash.Apply
import TriCoreDap.Ucb.Catalogue
import Mathlib.Data.UInt
import Mathlib.Logic.Function.Basic

/-!
# The Intel HEX parser of the flash page

`flash_web.c`: records are parsed as the upload streams in, and the image is kept
in two buffers.  What the parser stores and which text it takes for a record is
kept beside them.
-/

namespace TriCoreDap
namespace Upload

open Flash Ucb

/-- `PFLASH_END`. -/
def pflashEnd : Nat := 0xA0800000
/-- `IMAGE_MAX_BYTES`. -/
def imageMaxBytes : Nat := 3 * 1024 * 1024
/-- `TRICORE_UCB_WINDOW`. -/
def ucbWindow : Nat := 0x6000
/-- `TRICORE_UCB_SLOTS`. -/
def ucbSlots : Nat := ucbWindow / ucbSize

/-- What the parser stores. -/
inductive Store
  | data (index : Nat) (bytes : List Byte)
  | ucb (index : Nat) (bytes : List Byte)
  | present (slot : Nat)
  deriving DecidableEq, Repr

/-- `hex_image_t` without the line in hand; the buffers are functions of the
index. -/
structure Image where
  data : Nat → Byte
  lowest : Nat
  highest : Nat
  bytes : Nat
  skipped : Nat
  ucb : Nat → Byte
  ucbPresent : Nat
  ucbBytes : Nat
  records : Nat
  upper : Nat
  bad : Bool
  error : String
  /-- What was stored, the oldest first. -/
  stores : List Store
  /-- What was taken for the text of a record. -/
  taken : List (List Byte)

/-- `hex_image_t`. -/
structure HexImage extends Image where
  line : List Byte

/-- `memcpy(buffer + index, bytes, length)`. -/
def copyInto (buffer : Nat → Byte) : (index : Nat) → (bytes : List Byte) → Nat → Byte
  | _, [] => buffer
  | index, byte :: rest => copyInto (Function.update buffer index byte) (index + 1) rest

/-- `hex_nibble`. -/
def hexNibble (c : Byte) : Option Nat :=
  if 48 ≤ c.toNat ∧ c.toNat ≤ 57 then some (c.toNat - 48)
  else if 97 ≤ c.toNat ∧ c.toNat ≤ 102 then some (c.toNat - 97 + 10)
  else if 65 ≤ c.toNat ∧ c.toNat ≤ 70 then some (c.toNat - 65 + 10)
  else none

/-- The bytes of hexadecimal digits, two to a byte. -/
def decodeHex : List Byte → Option (List Byte)
  | [] => some []
  | [_] => none
  | hi :: lo :: rest =>
      match hexNibble hi, hexNibble lo with
      | some hi, some lo => (decodeHex rest).map (UInt8.ofNat (hi * 16 + lo) :: ·)
      | _, _ => none

/-- The half word of two bytes, the high one first. -/
def be16 (high low : Byte) : Nat := high.toNat <<< 8 ||| low.toNat

theorem be16_lt (high low : Byte) : be16 high low < 2 ^ 16 := by
  have highLt := high.toNat_lt
  have lowLt := low.toNat_lt
  apply Nat.or_lt_two_pow
  · rw [Nat.shiftLeft_eq]
    omega
  · omega

/-- A record whose length and checksum are right. -/
structure HexRecord where
  offset : Nat
  kind : Nat
  payload : List Byte
  offset_lt : offset < 2 ^ 16
  payload_lt : payload.length < 2 ^ 8
  deriving DecidableEq, Repr

def HexRecord.count (record : HexRecord) : Nat := record.payload.length

/-- The number of bytes that `raw` holds. -/
def rawBytes : Nat := 72

theorem counted_lt (raw : List Byte) :
    ((raw.drop 4).take (raw.getD 0 0).toNat).length < 256 := by
  have bound := (raw.getD 0 0).toNat_lt
  rw [List.length_take]
  omega

/-- `parse_record` up to the checksum. -/
def readRecord (text : List Byte) : Except String HexRecord :=
  if text.length < 10 ∨ text.length % 2 = 1 then
    .error "a record has an odd or impossible length"
  else if text.length / 2 > rawBytes then
    .error "a record is longer than this reader accepts"
  else
    match decodeHex text with
    | none => .error "a record contains something that is not hexadecimal"
    | some raw =>
        let count := (raw.getD 0 0).toNat
        if raw.length ≠ count + 5 then
          .error "a record's length byte does not match what it carries"
        else if raw.sum ≠ 0 then .error "a record's checksum does not add up"
        else
          .ok
            { offset := be16 (raw.getD 1 0) (raw.getD 2 0)
              kind := (raw.getD 3 0).toNat
              payload := (raw.drop 4).take count
              offset_lt := be16_lt _ _
              payload_lt := counted_lt raw }

/-- The address with the cached alias resolved. -/
def physical (address : Nat) : Nat :=
  if pflashCached ≤ address ∧ address < pflashCached + 0x800000 then
    address - pflashCached + pflashBase
  else address

/-- The address of a data record. -/
def HexRecord.address (upper : Nat) (record : HexRecord) : Nat :=
  physical (u32 (upper + record.offset))

/-- The end of a data record, in `uint32_t`. -/
def HexRecord.stop (upper : Nat) (record : HexRecord) : Nat :=
  u32 (record.address upper + record.count)

/-- The record is taken to lie in the UCB window. -/
def HexRecord.InUcb (upper : Nat) (record : HexRecord) : Prop :=
  record.address upper ≥ ucbBase ∧ record.stop upper ≤ ucbBase + ucbWindow

/-- The record is taken to lie outside the program flash. -/
def HexRecord.Outside (upper : Nat) (record : HexRecord) : Prop :=
  record.address upper < pflashBase ∨ record.stop upper > pflashEnd

instance (upper : Nat) (record : HexRecord) : Decidable (record.InUcb upper) :=
  inferInstanceAs (Decidable (_ ∧ _))

instance (upper : Nat) (record : HexRecord) : Decidable (record.Outside upper) :=
  inferInstanceAs (Decidable (_ ∨ _))

namespace Image

/-- `fail`: the first reason stays. -/
def fail (image : Image) (why : String) : Image :=
  if image.bad then image else { image with bad := true, error := why }

/-- The slots from that of `first` to that of `last`. -/
def slotsOf (first last : Nat) : List Nat :=
  (List.range (last / ucbSize + 1 - first / ucbSize)).map (first / ucbSize + ·)

/-- The bytes of a data record in the UCB window. -/
def storeUcb (image : Image) (address : Nat) (payload : List Byte) : Image :=
  let index := address - ucbBase
  let slots := if payload.length ≠ 0 then slotsOf index (index + payload.length - 1) else []
  { image with
    ucb := copyInto image.ucb index payload
    ucbPresent := slots.foldl (fun present slot => present ||| 1 <<< slot) image.ucbPresent
    ucbBytes := u32 (image.ucbBytes + payload.length)
    stores := image.stores ++ .ucb index payload :: slots.map .present }

/-- The bytes of a data record in the program flash. -/
def storeData (image : Image) (address : Nat) (payload : List Byte) : Image :=
  let index := address - pflashBase
  { image with
    data := copyInto image.data index payload
    lowest := min image.lowest address
    highest := max image.highest (u32 (address + payload.length))
    bytes := u32 (image.bytes + payload.length)
    stores := image.stores ++ [.data index payload] }

/-- A data record. -/
def dataRecord (image : Image) (record : HexRecord) : Image :=
  let address := record.address image.upper
  if record.InUcb image.upper then image.storeUcb address record.payload
  else if record.Outside image.upper then
    { image with skipped := u32 (image.skipped + record.count) }
  else if u32 (address - pflashBase + record.count) > imageMaxBytes then
    image.fail "the image reaches past what this probe will hold"
  else image.storeData address record.payload

/-- The two bytes of an extended address record. -/
def extension (record : HexRecord) : Nat :=
  be16 (record.payload.getD 0 0) (record.payload.getD 1 0)

/-- `parse_record` from the kind on. -/
def takeRecord (image : Image) (record : HexRecord) : Image :=
  let image := { image with records := u32 (image.records + 1) }
  match record.kind with
  | 0 => dataRecord image record
  | 4 =>
      if record.count ≠ 2 then image.fail "a type 04 record does not carry two bytes"
      else { image with upper := u32 (extension record <<< 16) }
  | 2 =>
      if record.count ≠ 2 then image.fail "a type 02 record does not carry two bytes"
      else { image with upper := u32 (extension record <<< 4) }
  | 1 => image
  | 3 => image
  | 5 => image
  | _ => image.fail "a record has a type this reader does not know"

/-- `parse_record`. -/
def parseRecord (image : Image) (text : List Byte) : Image :=
  let image := { image with taken := image.taken ++ [text] }
  match readRecord text with
  | .error why => image.fail why
  | .ok record => image.takeRecord record

/-- Nothing uploaded: the buffers hold erased flash. -/
def reset : Image where
  data _ := flashErased
  lowest := 0xFFFFFFFF
  highest := 0
  bytes := 0
  skipped := 0
  ucb _ := 0
  ucbPresent := 0
  ucbBytes := 0
  records := 0
  upper := 0
  bad := false
  error := ""
  stores := []
  taken := []

end Image

namespace HexImage

/-- `sizeof(s_image.line)`. -/
def lineBytes : Nat := 128

def isEol (c : Byte) : Bool := c = 10 ∨ c = 13

def colon : Byte := 58

/-- The record in hand, if there is one. -/
def flush (image : HexImage) : HexImage :=
  if image.line ≠ [] then ⟨image.parseRecord image.line, []⟩ else image

/-- A round of `feed`. -/
def feedByte (image : HexImage) (c : Byte) : HexImage :=
  if image.bad then image
  else if isEol c then image.flush
  else if c = colon then { image with line := [] }
  else if image.line.length < lineBytes then { image with line := image.line ++ [c] }
  else ⟨image.fail "a record is longer than this reader accepts", image.line⟩

/-- `feed`. -/
def feed (image : HexImage) (chunk : List Byte) : HexImage :=
  chunk.foldl feedByte image

/-- `image_reset`, once the buffers are there. -/
def reset : HexImage := ⟨.reset, []⟩

/-- The end of an upload that came in whole: a file that ends without a newline
still has a record in hand. -/
def finish (image : HexImage) : HexImage :=
  if !image.bad then image.flush else image

end HexImage

/-- The image of an upload in chunks, that came in whole or was broken off. -/
def upload (whole : Bool) (chunks : List (List Byte)) : HexImage :=
  let image := chunks.foldl HexImage.feed .reset
  if whole then image.finish else image

end Upload
end TriCoreDap
