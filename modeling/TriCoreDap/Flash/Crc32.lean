import TriCoreDap.Flash.Interpreter
import TriCoreDap.Flash.Layout

/-!
# The CRC of an image

The running CRC32 is linear over the exclusive or, so that two strings which differ only
in the padding of their last page never have the same CRC.
-/

namespace TriCoreDap
namespace Flash

/-- The round of `crc32_update` for one bit. -/
def crc32Shift (crc : Word) : Word :=
  (crc >>> 1) ^^^ (if crc % 2 = 1 then 0xEDB88320 else 0)

theorem crc32Byte_eq (crc : Word) (byte : Byte) :
    crc32Byte crc byte = crc32Shift^[8] (crc ^^^ byte.toNat) := rfl

theorem xor_xor_cancel (left right mask : Word) :
    left ^^^ right = (left ^^^ mask) ^^^ (right ^^^ mask) := by
  rw [Nat.xor_assoc, Nat.xor_comm right mask, ← Nat.xor_assoc mask, Nat.xor_self, Nat.zero_xor]

theorem crc32Shift_xor (left right : Word) :
    crc32Shift (left ^^^ right) = crc32Shift left ^^^ crc32Shift right := by
  simp only [crc32Shift, Nat.shiftRight_xor_distrib, Nat.xor_mod_two_eq_one]
  by_cases leftOdd : left % 2 = 1
  · by_cases rightOdd : right % 2 = 1
    · simp only [leftOdd, rightOdd, not_true, if_true, if_false, Nat.xor_zero]
      exact xor_xor_cancel _ _ _
    · simp only [leftOdd, rightOdd, iff_false, not_true, not_false_eq_true, if_true, if_false,
        Nat.xor_zero]
      rw [Nat.xor_assoc, Nat.xor_comm (right >>> 1), Nat.xor_assoc]
  · by_cases rightOdd : right % 2 = 1
    · simp only [leftOdd, rightOdd, iff_true, not_false_eq_true, if_true, if_false, Nat.xor_zero,
        Nat.xor_assoc]
    · simp only [leftOdd, rightOdd, not_true, if_false, Nat.xor_zero]

theorem iterate_crc32Shift_xor (rounds left right : Nat) :
    crc32Shift^[rounds] (left ^^^ right) =
      crc32Shift^[rounds] left ^^^ crc32Shift^[rounds] right := by
  induction rounds generalizing left right with
  | zero => rfl
  | succ rounds inductionHypothesis =>
      rw [Function.iterate_succ_apply, crc32Shift_xor, inductionHypothesis,
        ← Function.iterate_succ_apply, ← Function.iterate_succ_apply]

/-- A byte of ones moves the CRC away from that of a byte of zeros by what it makes of no
CRC at all. -/
theorem crc32Byte_erased (crc difference : Word) :
    crc32Byte (crc ^^^ difference) flashErased =
      crc32Byte crc 0 ^^^ crc32Byte difference flashErased := by
  have zero : (0 : Byte).toNat = 0 := rfl
  rw [crc32Byte_eq, crc32Byte_eq, crc32Byte_eq, Nat.xor_assoc, iterate_crc32Shift_xor, zero,
    Nat.xor_zero]

theorem crc32Update_erased (pad crc difference : Nat) :
    crc32Update (crc ^^^ difference) (List.replicate pad flashErased) =
      crc32Update crc (List.replicate pad 0) ^^^
        crc32Update difference (List.replicate pad flashErased) := by
  induction pad generalizing crc difference with
  | zero => rfl
  | succ pad inductionHypothesis =>
      simp only [List.replicate_succ, crc32Update, List.foldl_cons] at inductionHypothesis ⊢
      rw [crc32Byte_erased, inductionHypothesis]

theorem crc32Update_erased_ne (positive : 0 < pad) (short : pad < flashPage) :
    crc32Update 0 (List.replicate pad flashErased) ≠ 0 := by
  have all : ∀ size < flashPage, 0 < size →
      crc32Update 0 (List.replicate size flashErased) ≠ 0 := by
    decide +kernel
  exact all pad short positive

/-! ## Bounds -/

theorem crc32Shift_lt {crc : Nat} (word : crc < 2 ^ 32) : crc32Shift crc < 2 ^ 32 := by
  have low : crc >>> 1 < 2 ^ 32 := by
    rw [Nat.shiftRight_eq_div_pow]
    omega
  have mask : (if crc % 2 = 1 then 0xEDB88320 else 0) < 2 ^ 32 := by
    split_ifs
    · decide
    · decide
  exact Nat.xor_lt_two_pow low mask

theorem iterate_crc32Shift_lt (rounds : Nat) (word : crc < 2 ^ 32) :
    crc32Shift^[rounds] crc < 2 ^ 32 := by
  induction rounds generalizing crc with
  | zero => exact word
  | succ rounds inductionHypothesis => exact inductionHypothesis (crc32Shift_lt word)

theorem crc32Update_lt (data : List Byte) (word : crc < 2 ^ 32) :
    crc32Update crc data < 2 ^ 32 := by
  induction data generalizing crc with
  | nil => exact word
  | cons byte rest inductionHypothesis =>
      have small : byte.toNat < 2 ^ 32 := Nat.lt_trans byte.toNat_lt (by decide)
      refine inductionHypothesis ?_
      rw [crc32Byte_eq]
      exact iterate_crc32Shift_lt 8 (Nat.xor_lt_two_pow word small)

theorem ones_sub_inj
    {left right : Nat}
    (wordLeft : left < 2 ^ 32)
    (wordRight : right < 2 ^ 32)
    (same : wordOnes - left = wordOnes - right) : left = right := by
  have same : (0xFFFFFFFF : Nat) - left = 0xFFFFFFFF - right := same
  omega

theorem crc32Update_append (crc : Word) (first second : List Byte) :
    crc32Update crc (first ++ second) = crc32Update (crc32Update crc first) second :=
  List.foldl_append

/-- The CRC of a string with its last page padded by erased bytes is never that of the
string padded by zeros. -/
theorem crc32_erased_ne (data : List Byte) (positive : 0 < pad) (short : pad < flashPage) :
    crc32 (data ++ List.replicate pad flashErased) ≠
      crc32 (data ++ List.replicate pad 0) := by
  have word : crc32Update wordOnes data < 2 ^ 32 := crc32Update_lt data (by decide)
  have left := crc32Update_lt (List.replicate pad flashErased) word
  have right := crc32Update_lt (List.replicate pad 0) word
  have moved := crc32Update_erased pad (crc32Update wordOnes data) 0
  rw [Nat.xor_zero] at moved
  intro same
  have equal : crc32Update (crc32Update wordOnes data) (List.replicate pad flashErased) =
      crc32Update (crc32Update wordOnes data) (List.replicate pad 0) := by
    rw [crc32, crc32, crc32Update_append, crc32Update_append] at same
    exact ones_sub_inj left right same
  rw [moved] at equal
  refine crc32Update_erased_ne positive short ?_
  calc
    crc32Update 0 (List.replicate pad flashErased)
        = crc32Update (crc32Update wordOnes data) (List.replicate pad 0) ^^^
            (crc32Update (crc32Update wordOnes data) (List.replicate pad 0) ^^^
              crc32Update 0 (List.replicate pad flashErased)) := by
          rw [← Nat.xor_assoc, Nat.xor_self, Nat.zero_xor]
    _ = 0 := by rw [equal, Nat.xor_self]

end Flash
end TriCoreDap
