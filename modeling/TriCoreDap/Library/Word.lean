import Mathlib.Tactic.Ring

/-!
# Machine words

Words are natural numbers, reduced modulo `2 ^ 32` where a `uint32_t` can wrap;
bytes are `UInt8`, four of them to a little-endian word.
-/

namespace TriCoreDap

/-- A 32-bit word as it comes over the link. -/
abbrev Word := Nat

abbrev Byte := UInt8

/-- Arithmetic of `uint32_t`. -/
def u32 (value : Nat) : Nat := value % 2 ^ 32

/-- `a - b` in `uint32_t`. -/
def sub32 (left right : Nat) : Nat := u32 (left + (2 ^ 32 - u32 right))

@[simp] theorem u32_u32 (value : Nat) : u32 (u32 value) = u32 value := by
  simp [u32]

@[simp] theorem u32_add_u32_left (left right : Nat) :
    u32 (u32 left + right) = u32 (left + right) := by
  simp [u32]

@[simp] theorem u32_zero : u32 0 = 0 := rfl

theorem u32_of_lt (bound : value < 2 ^ 32) : u32 value = value :=
  Nat.mod_eq_of_lt bound

theorem sub32_of_le (ordered : low ≤ high) (word : high < 2 ^ 32) :
    sub32 high low = high - low := by
  simp only [sub32, u32]
  omega

/-- Byte `index` of a word, the lowest being byte 0. -/
def byteOf (word index : Nat) : Byte :=
  UInt8.ofNat (word >>> (8 * index))

/-- The little-endian word at `offset`. -/
def le32 (bytes : List Byte) (offset : Nat) : Nat :=
  (bytes.getD offset 0).toNat + (bytes.getD (offset + 1) 0).toNat <<< 8 +
    (bytes.getD (offset + 2) 0).toNat <<< 16 + (bytes.getD (offset + 3) 0).toNat <<< 24

/-- The little-endian half word at `offset`. -/
def le16 (bytes : List Byte) (offset : Nat) : Nat :=
  (bytes.getD offset 0).toNat + (bytes.getD (offset + 1) 0).toNat <<< 8

/-- The four bytes of a word, lowest first. -/
def wordBytes (word : Nat) : List Byte :=
  (List.range 4).map (byteOf word)

@[simp] theorem length_wordBytes (word : Nat) : (wordBytes word).length = 4 := rfl

/-- The bytes of a word read from bytes are these bytes. -/
theorem byteOf_le32
    (bytes : List Byte)
    (offset : Nat)
    (indexLt : index < 4) :
    byteOf (le32 bytes offset) index = bytes.getD (offset + index) 0 := by
  apply UInt8.toNat_inj.mp
  rw [byteOf, UInt8.toNat_ofNat']
  have b0 := (bytes.getD offset 0).toNat_lt
  have b1 := (bytes.getD (offset + 1) 0).toNat_lt
  have b2 := (bytes.getD (offset + 2) 0).toNat_lt
  have b3 := (bytes.getD (offset + 3) 0).toNat_lt
  unfold le32
  have cases : index = 0 ∨ index = 1 ∨ index = 2 ∨ index = 3 := by omega
  obtain rfl | rfl | rfl | rfl := cases
  · rw [show offset + 0 = offset from rfl, Nat.mul_zero, Nat.shiftRight_zero]
    omega
  · omega
  · omega
  · omega

end TriCoreDap
