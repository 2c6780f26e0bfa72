import Mathlib.Data.List.GetD
import TriCoreDap.Library.Word

/-!
# LZ4 blocks

A block is a list of sequences, each of them literals and then a match, a copy of
earlier bytes, and ends with literals alone.  `parse` reads a block as its
sequences, `decode` carries them out, and `EndRules` is what the format asks of
the end of a block.
-/

namespace TriCoreDap
namespace Lz4

/-- Literals and a match: `length` bytes from `offset` bytes back. -/
structure Sequence where
  literals : List Byte
  offset : Nat
  length : Nat
  deriving DecidableEq, Repr

/-- The shortest match. -/
def minMatch : Nat := 4

/-! ## Reading -/

/-- A byte of 255 says that another one follows. -/
def extended : Nat → List Byte → Option (Nat × List Byte)
  | _, [] => none
  | length, byte :: rest =>
      if byte = 255 then extended (length + 255) rest
      else some (length + byte.toNat, rest)

/-- A length from its four bits in the token. -/
def readLength (field : Nat) (bytes : List Byte) : Option (Nat × List Byte) :=
  if field = 15 then extended 15 bytes else some (field, bytes)

/-- The sequences and the last literals; each sequence takes one of the fuel. -/
def parseFrom : Nat → List Byte → Option (List Sequence × List Byte)
  | fuel + 1, token :: bytes =>
      (readLength (token.toNat / 16) bytes).bind fun (count, bytes) =>
        if bytes.length < count then none
        else
          match bytes.drop count with
          | [] => some ([], bytes.take count)
          | [_] => none
          | low :: high :: bytes' =>
              (readLength (token.toNat % 16) bytes').bind fun (length, bytes') =>
                (parseFrom fuel bytes').map fun (sequences, last) =>
                  (⟨bytes.take count, low.toNat + high.toNat <<< 8, length + minMatch⟩ ::
                    sequences, last)
  | _, _ => none

/-- A sequence takes three bytes at least, so the block's length is fuel enough. -/
def parse (block : List Byte) : Option (List Sequence × List Byte) :=
  parseFrom block.length block

/-! ## Decoding -/

/-- Byte by byte, so that a match may run into its own copy. -/
def copyMatch (offset : Nat) : Nat → List Byte → List Byte
  | 0, out => out
  | length + 1, out => copyMatch offset length (out ++ [out.getD (out.length - offset) 0])

def perform (out : List Byte) (sequence : Sequence) : Option (List Byte) :=
  let out := out ++ sequence.literals
  if 0 < sequence.offset ∧ sequence.offset ≤ out.length then
    some (copyMatch sequence.offset sequence.length out)
  else none

/-- What a block stands for. -/
def decode (block : List Byte) : Option (List Byte) :=
  (parse block).bind fun (sequences, last) =>
    (sequences.foldlM perform []).map (· ++ last)

/-- How many bytes the sequences make. -/
def produced (sequences : List Sequence) : Nat :=
  (sequences.map fun sequence => sequence.literals.length + sequence.length).sum

/-- Of `total` bytes no match starts within the last twelve, and each goes back to a
byte that is there. -/
def MatchesKeep (total : Nat) : (start : Nat) → List Sequence → Prop
  | _, [] => True
  | start, sequence :: rest =>
      (start + sequence.literals.length + 12 < total ∧ 0 < sequence.offset ∧
        sequence.offset ≤ start + sequence.literals.length) ∧
      MatchesKeep total (start + sequence.literals.length + sequence.length) rest

/-- The rules for a block of `total` bytes. -/
structure EndRules (sequences : List Sequence) (last : List Byte) (total : Nat) : Prop where
  /-- The last five bytes are literals. -/
  lastFive : sequences = [] ∨ 5 ≤ last.length
  matchesKeep : MatchesKeep total 0 sequences

/-- A decoder that takes every block of the format: `decompress block size` with room
for `size` bytes. -/
def Standard (decompress : List Byte → Nat → Option (List Byte)) : Prop :=
  ∀ block size sequences last bytes,
    parse block = some (sequences, last) → EndRules sequences last bytes.length →
      decode block = some bytes → bytes.length ≤ size → decompress block size = some bytes

/-- Decodes what fits. -/
def decompress (block : List Byte) (size : Nat) : Option (List Byte) :=
  (decode block).filter (·.length ≤ size)

theorem standard_decompress : Standard decompress := by
  intro block size sequences last bytes _ _ decoded fits
  rw [decompress, decoded, Option.filter_some, if_pos (by simpa using fits)]

/-! ## Writing -/

def lengthField (length : Nat) : Nat := min length 15

def lengthBytes (length : Nat) : List Byte :=
  if length < 15 then []
  else List.replicate ((length - 15) / 255) 255 ++ [UInt8.ofNat ((length - 15) % 255)]

def Sequence.bytes (sequence : Sequence) : List Byte :=
  UInt8.ofNat
      (lengthField sequence.literals.length * 16 + lengthField (sequence.length - minMatch)) ::
    (lengthBytes sequence.literals.length ++ sequence.literals ++
      [byteOf sequence.offset 0, byteOf sequence.offset 1] ++
      lengthBytes (sequence.length - minMatch))

def lastBytes (literals : List Byte) : List Byte :=
  UInt8.ofNat (lengthField literals.length * 16) :: (lengthBytes literals.length ++ literals)

/-- A match long enough and an offset of two bytes. -/
structure Sequence.Fits (sequence : Sequence) : Prop where
  length_ge : minMatch ≤ sequence.length
  offset_lt : sequence.offset < 2 ^ 16

theorem lengthField_lt (length : Nat) : lengthField length < 16 := by
  unfold lengthField
  omega

theorem extended_replicate (count length : Nat) (bytes : List Byte) :
    extended length (List.replicate count 255 ++ bytes) =
      extended (length + 255 * count) bytes := by
  induction count generalizing length with
  | zero => simp
  | succ count inductionHypothesis =>
      rw [List.replicate_succ, List.cons_append, extended, if_pos rfl, inductionHypothesis]
      congr 1
      omega

theorem readLength_lengthBytes (length : Nat) (rest : List Byte) :
    readLength (lengthField length) (lengthBytes length ++ rest) = some (length, rest) := by
  unfold readLength lengthField lengthBytes
  by_cases short : length < 15
  · rw [if_neg (by omega), if_pos short, List.nil_append, Nat.min_eq_left (by omega)]
  · have remainder_lt : (length - 15) % 255 < 255 := Nat.mod_lt _ (by decide)
    have byte_eq : (UInt8.ofNat ((length - 15) % 255)).toNat = (length - 15) % 255 := by
      rw [UInt8.toNat_ofNat', Nat.mod_eq_of_lt (by omega)]
    have notFull : UInt8.ofNat ((length - 15) % 255) ≠ 255 := by
      intro full
      rw [full] at byte_eq
      have : (255 : Byte).toNat = 255 := rfl
      omega
    rw [if_pos (by omega), if_neg short, List.append_assoc, extended_replicate,
      List.singleton_append, extended, if_neg notFull, byte_eq]
    have := Nat.div_add_mod (length - 15) 255
    congr 2
    omega

theorem parseFrom_lastBytes (fuel : Nat) (last : List Byte) :
    parseFrom (fuel + 1) (lastBytes last) = some ([], last) := by
  have field_lt := lengthField_lt last.length
  have token : (UInt8.ofNat (lengthField last.length * 16)).toNat / 16 =
      lengthField last.length := by
    rw [UInt8.toNat_ofNat', Nat.mod_eq_of_lt (by omega)]
    omega
  rw [lastBytes, parseFrom, token, readLength_lengthBytes]
  simp

/-- A sequence that was written is read back. -/
theorem parseFrom_bytes
    {sequence : Sequence}
    (fits : sequence.Fits)
    (fuel : Nat)
    (rest : List Byte) :
    parseFrom (fuel + 1) (sequence.bytes ++ rest) =
      (parseFrom fuel rest).map fun (sequences, last) => (sequence :: sequences, last) := by
  have literals_lt := lengthField_lt sequence.literals.length
  have match_lt := lengthField_lt (sequence.length - minMatch)
  have token : (UInt8.ofNat (lengthField sequence.literals.length * 16 +
      lengthField (sequence.length - minMatch))).toNat =
      lengthField sequence.literals.length * 16 + lengthField (sequence.length - minMatch) := by
    rw [UInt8.toNat_ofNat', Nat.mod_eq_of_lt (by omega)]
  have high : (lengthField sequence.literals.length * 16 +
      lengthField (sequence.length - minMatch)) / 16 = lengthField sequence.literals.length := by
    omega
  have low : (lengthField sequence.literals.length * 16 +
      lengthField (sequence.length - minMatch)) % 16 =
      lengthField (sequence.length - minMatch) := by
    omega
  have offset : (byteOf sequence.offset 0).toNat + (byteOf sequence.offset 1).toNat <<< 8 =
      sequence.offset := by
    have offset_lt := fits.offset_lt
    rw [byteOf, byteOf, UInt8.toNat_ofNat', UInt8.toNat_ofNat']
    omega
  rw [Sequence.bytes, List.cons_append, parseFrom, token, high, low]
  simp only [List.append_assoc]
  rw [readLength_lengthBytes, Option.bind_some]
  dsimp only
  rw [if_neg (by simp), List.drop_left, List.take_left]
  dsimp only [List.cons_append, List.nil_append]
  rw [readLength_lengthBytes, Option.bind_some, offset, Nat.sub_add_cancel fits.length_ge]

theorem parseFrom_flatMap
    {sequences : List Sequence}
    (fit : ∀ sequence ∈ sequences, sequence.Fits)
    (last : List Byte)
    {fuel : Nat}
    (enough : sequences.length < fuel) :
    parseFrom fuel (sequences.flatMap Sequence.bytes ++ lastBytes last) =
      some (sequences, last) := by
  induction sequences generalizing fuel with
  | nil =>
      obtain ⟨fuel, rfl⟩ := Nat.exists_eq_succ_of_ne_zero (Nat.ne_of_gt enough)
      exact parseFrom_lastBytes fuel last
  | cons sequence rest inductionHypothesis =>
      rw [List.forall_mem_cons] at fit
      rw [List.length_cons] at enough
      obtain ⟨fuel, rfl⟩ := Nat.exists_eq_succ_of_ne_zero (Nat.ne_zero_of_lt enough)
      rw [List.flatMap_cons, List.append_assoc, parseFrom_bytes fit.1,
        inductionHypothesis fit.2 (by omega)]
      rfl

theorem parse_flatMap
    {sequences : List Sequence}
    (fit : ∀ sequence ∈ sequences, sequence.Fits)
    (last : List Byte) :
    parse (sequences.flatMap Sequence.bytes ++ lastBytes last) = some (sequences, last) := by
  apply parseFrom_flatMap fit last
  have each (some : List Sequence) : some.length ≤ (some.flatMap Sequence.bytes).length := by
    induction some with
    | nil => exact Nat.le_refl 0
    | cons sequence rest inductionHypothesis =>
        rw [List.flatMap_cons, List.length_append, List.length_cons, Sequence.bytes,
          List.length_cons]
        omega
  have length_le := each sequences
  rw [List.length_append, lastBytes, List.length_cons]
  omega

/-! ## Sequences one after the other -/

theorem produced_append (sequences : List Sequence) (sequence : Sequence) :
    produced (sequences ++ [sequence]) =
      produced sequences + (sequence.literals.length + sequence.length) := by
  simp [produced]

theorem matchesKeep_append
    {sequences : List Sequence}
    (keep : MatchesKeep total start sequences)
    {sequence : Sequence}
    (early : start + produced sequences + sequence.literals.length + 12 < total)
    (positive : 0 < sequence.offset)
    (reaches : sequence.offset ≤ start + produced sequences + sequence.literals.length) :
    MatchesKeep total start (sequences ++ [sequence]) := by
  induction sequences generalizing start with
  | nil => exact ⟨⟨by simpa [produced] using early, positive, by simpa [produced] using reaches⟩,
      trivial⟩
  | cons first rest inductionHypothesis =>
      have total_eq : start + produced (first :: rest) =
          start + first.literals.length + first.length + produced rest := by
        simp only [produced, List.map_cons, List.sum_cons]
        omega
      rw [total_eq] at early reaches
      exact ⟨keep.1, inductionHypothesis keep.2 early reaches⟩

/-- A copy of what was there before goes on with what comes next. -/
theorem copyMatch_take
    {bytes : List Byte}
    {offset start length : Nat}
    (positive : 0 < offset)
    (reaches : offset ≤ start)
    (inside : start + length ≤ bytes.length)
    (same : ∀ index < length, bytes.getD (start - offset + index) 0 = bytes.getD (start + index) 0) :
    copyMatch offset length (bytes.take start) = bytes.take (start + length) := by
  induction length generalizing start with
  | zero => rfl
  | succ length inductionHypothesis =>
      have first := same 0 (Nat.succ_pos length)
      have length_take : (bytes.take start).length = start :=
        List.length_take_of_le (by omega)
      have next : bytes.take start ++ [(bytes.take start).getD (start - offset) 0] =
          bytes.take (start + 1) := by
        rw [Nat.add_zero, Nat.add_zero, List.getD_eq_getElem bytes 0 (by omega),
          List.getD_eq_getElem bytes 0 (by omega)] at first
        rw [List.getD_eq_getElem _ _ (by omega), List.getElem_take, first,
          List.take_append_getElem]
      rw [copyMatch, length_take, next, inductionHypothesis (by omega) (by omega), Nat.add_assoc,
        Nat.add_comm 1]
      intro index before
      have later := same (index + 1) (Nat.succ_lt_succ before)
      rwa [show start - offset + (index + 1) = start + 1 - offset + index by omega,
        show start + (index + 1) = start + 1 + index by omega] at later

end Lz4
end TriCoreDap
