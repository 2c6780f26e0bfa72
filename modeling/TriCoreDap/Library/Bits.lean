import TriCoreDap.Library.Word
import Mathlib.Data.Nat.Bitwise

/-!
# Bit strings in natural numbers

A byte string is read as one little-endian number; a field is some of its bits.
-/

namespace TriCoreDap

/-- `int.from_bytes(bytes, 'little')`. -/
def fromBytes : List Byte → Nat
  | [] => 0
  | byte :: rest => byte.toNat + 256 * fromBytes rest

/-- `value.to_bytes(count, 'little')`, bits that do not fit left out. -/
def toBytes : (count value : Nat) → List Byte
  | 0, _ => []
  | count + 1, value => UInt8.ofNat value :: toBytes count (value / 256)

/-- Fields, each with its width, one above the other. -/
def packBits : List (Nat × Nat) → Nat
  | [] => 0
  | (width, value) :: rest => value % 2 ^ width + 2 ^ width * packBits rest

/-- Fields with a value of any size above them. -/
def packBelow : List (Nat × Nat) → (top : Nat) → Nat
  | [], top => top
  | (width, value) :: rest, top => value % 2 ^ width + 2 ^ width * packBelow rest top

/-- The width of fields together. -/
def fieldsWidth (fields : List (Nat × Nat)) : Nat := (fields.map Prod.fst).sum

/-- The `count` bits from bit `pos` on. -/
def bitsAt (value pos count : Nat) : Nat :=
  (value >>> pos) % 2 ^ count

variable {value pos count inner size : Nat}

theorem bitsAt_lt (value pos count : Nat) : bitsAt value pos count < 2 ^ count :=
  Nat.mod_lt _ (Nat.two_pow_pos count)

/-- A field of a field is a field. -/
theorem bitsAt_bitsAt (inside : inner + size ≤ count) :
    bitsAt (bitsAt value pos count) inner size = bitsAt value (pos + inner) size := by
  apply Nat.eq_of_testBit_eq
  intro bit
  simp only [bitsAt, Nat.testBit_mod_two_pow, Nat.testBit_shiftRight]
  by_cases within : bit < size
  · simp [within, show inner + bit < count by omega, Nat.add_assoc]
  · simp [within]

/-- The bits above a position, of which there are `count`. -/
theorem shiftRight_bitsAt (inside : inner ≤ count) :
    bitsAt value pos count >>> inner = bitsAt value (pos + inner) (count - inner) := by
  apply Nat.eq_of_testBit_eq
  intro bit
  simp only [bitsAt, Nat.testBit_mod_two_pow, Nat.testBit_shiftRight]
  by_cases within : bit < count - inner
  · simp [within, show inner + bit < count by omega, Nat.add_assoc]
  · simp [within, show ¬inner + bit < count by omega]

/-- The low bits. -/
theorem bitsAt_mod (inside : size ≤ count) :
    bitsAt value pos count % 2 ^ size = bitsAt value pos size := by
  have inside' : 0 + size ≤ count := by omega
  have field : bitsAt (bitsAt value pos count) 0 size = bitsAt value (pos + 0) size :=
    bitsAt_bitsAt inside'
  rwa [bitsAt, Nat.shiftRight_zero, Nat.add_zero] at field

/-! ## Fields one above the other -/

/-- The fields stand in the value from bit `pos` on. -/
def Reads (value : Nat) : (pos : Nat) → List (Nat × Nat) → Prop
  | _, [] => True
  | pos, (width, field) :: rest => bitsAt value pos width = field ∧ Reads value (pos + width) rest

instance decidableReads (value : Nat) :
    (pos : Nat) → (fields : List (Nat × Nat)) → Decidable (Reads value pos fields)
  | _, [] => inferInstanceAs (Decidable True)
  | pos, (width, _) :: rest =>
      have := decidableReads value (pos + width) rest
      inferInstanceAs (Decidable (_ ∧ _))

variable {fields rest : List (Nat × Nat)} {width field : Nat}

@[simp] theorem fieldsWidth_nil : fieldsWidth [] = 0 := rfl

@[simp] theorem fieldsWidth_cons (field : Nat × Nat) (rest : List (Nat × Nat)) :
    fieldsWidth (field :: rest) = field.1 + fieldsWidth rest := by
  simp [fieldsWidth]

@[simp] theorem fieldsWidth_append (first second : List (Nat × Nat)) :
    fieldsWidth (first ++ second) = fieldsWidth first + fieldsWidth second := by
  simp [fieldsWidth]

theorem reads_append (first second : List (Nat × Nat)) :
    Reads value pos (first ++ second) ↔
      Reads value pos first ∧ Reads value (pos + fieldsWidth first) second := by
  induction first generalizing pos with
  | nil => simp [Reads]
  | cons field rest inductionHypothesis =>
      obtain ⟨width, field⟩ := field
      simp only [List.cons_append, Reads, inductionHypothesis, fieldsWidth_cons, Nat.add_assoc,
        and_assoc]

/-- The lowest field. -/
theorem packBits_mod (fits : field < 2 ^ width) (rest : List (Nat × Nat)) :
    packBits ((width, field) :: rest) % 2 ^ width = field := by
  rw [packBits, Nat.add_mul_mod_self_left, Nat.mod_mod, Nat.mod_eq_of_lt fits]

/-- What is above the lowest field. -/
theorem packBits_shiftRight (width field : Nat) (rest : List (Nat × Nat)) :
    packBits ((width, field) :: rest) >>> width = packBits rest := by
  rw [packBits, Nat.shiftRight_eq_div_pow, Nat.add_mul_div_left _ _ (Nat.two_pow_pos width),
    Nat.div_eq_of_lt (Nat.mod_lt _ (Nat.two_pow_pos width)), Nat.zero_add]

theorem packBits_lt (fields : List (Nat × Nat)) : packBits fields < 2 ^ fieldsWidth fields := by
  induction fields with
  | nil => exact Nat.one_pos
  | cons field rest inductionHypothesis =>
      obtain ⟨width, field⟩ := field
      have low : field % 2 ^ width < 2 ^ width := Nat.mod_lt _ (Nat.two_pow_pos width)
      rw [packBits, fieldsWidth_cons, Nat.pow_add]
      calc field % 2 ^ width + 2 ^ width * packBits rest
          < 2 ^ width + 2 ^ width * packBits rest := Nat.add_lt_add_right low _
        _ = 2 ^ width * (packBits rest + 1) := by ring
        _ ≤ 2 ^ width * 2 ^ fieldsWidth rest := Nat.mul_le_mul_left _ inductionHypothesis

/-- Packed fields stand where they were put. -/
theorem reads_packBits
    (fit : ∀ field ∈ fields, field.2 < 2 ^ field.1)
    (shifted : value >>> pos = packBits fields) : Reads value pos fields := by
  induction fields generalizing pos with
  | nil => exact True.intro
  | cons field rest inductionHypothesis =>
      obtain ⟨width, field⟩ := field
      constructor
      · rw [bitsAt, shifted]
        exact packBits_mod (fit _ List.mem_cons_self) rest
      · apply inductionHypothesis fun field member => fit field (List.mem_cons_of_mem _ member)
        rw [Nat.shiftRight_add, shifted, packBits_shiftRight]

/-! ## Fields below a value of any size -/

/-- The lowest field. -/
theorem packBelow_mod (fits : field < 2 ^ width) (rest : List (Nat × Nat)) (top : Nat) :
    packBelow ((width, field) :: rest) top % 2 ^ width = field := by
  rw [packBelow, Nat.add_mul_mod_self_left, Nat.mod_mod, Nat.mod_eq_of_lt fits]

/-- What is above the lowest field. -/
theorem packBelow_shiftRight (width field : Nat) (rest : List (Nat × Nat)) (top : Nat) :
    packBelow ((width, field) :: rest) top >>> width = packBelow rest top := by
  rw [packBelow, Nat.shiftRight_eq_div_pow, Nat.add_mul_div_left _ _ (Nat.two_pow_pos width),
    Nat.div_eq_of_lt (Nat.mod_lt _ (Nat.two_pow_pos width)), Nat.zero_add]

theorem packBelow_append_shiftRight (fields rest : List (Nat × Nat)) (top : Nat) :
    packBelow (fields ++ rest) top >>> fieldsWidth fields = packBelow rest top := by
  induction fields with
  | nil => rfl
  | cons field fields inductionHypothesis =>
      obtain ⟨width, field⟩ := field
      rw [fieldsWidth_cons, Nat.shiftRight_add, List.cons_append, packBelow_shiftRight,
        inductionHypothesis]

/-- A field that is cut where the whole value ends loses nothing. -/
theorem packBelow_cut
    (fits : field < 2 ^ width)
    (whole : packBelow [(width, field)] top < 2 ^ count) :
    packBelow [(width, field)] top % 2 ^ min width count = field ∧
      packBelow [(width, field)] top >>> min width count = top := by
  rcases Nat.le_total width count with wide | narrow
  · rw [Nat.min_eq_left wide]
    exact ⟨packBelow_mod fits [] top, packBelow_shiftRight width field [] top⟩
  · have value : packBelow [(width, field)] top = field + 2 ^ width * top := by
      rw [packBelow, packBelow, Nat.mod_eq_of_lt fits]
    have bound : 2 ^ count ≤ 2 ^ width := Nat.pow_le_pow_right (by decide) narrow
    have none : top = 0 := by
      by_contra some
      have above : 2 ^ width ≤ 2 ^ width * top :=
        Nat.le_mul_of_pos_right _ (Nat.pos_of_ne_zero some)
      omega
    subst none
    rw [Nat.mul_zero, Nat.add_zero] at value
    rw [value] at whole
    rw [Nat.min_eq_right narrow, value]
    exact ⟨Nat.mod_eq_of_lt whole, Nat.shiftRight_eq_zero _ _ whole⟩

theorem toBytes_length (count value : Nat) : (toBytes count value).length = count := by
  induction count generalizing value with
  | zero => rfl
  | succ count inductionHypothesis => rw [toBytes, List.length_cons, inductionHypothesis]

theorem fromBytes_toBytes (fits : value < 2 ^ (8 * count)) :
    fromBytes (toBytes count value) = value := by
  induction count generalizing value with
  | zero =>
      have zero : value = 0 := by simpa using fits
      rw [zero]
      rfl
  | succ count inductionHypothesis =>
      have high : value / 256 < 2 ^ (8 * count) := by
        rw [Nat.div_lt_iff_lt_mul (by decide)]
        calc value < 2 ^ (8 * (count + 1)) := fits
          _ = 2 ^ (8 * count) * 256 := by rw [Nat.mul_succ, Nat.pow_add]
      rw [toBytes, fromBytes, inductionHypothesis high, UInt8.toNat_ofNat']
      exact Nat.mod_add_div value 256

theorem toBytes_fromBytes (bytes : List Byte) : toBytes bytes.length (fromBytes bytes) = bytes := by
  induction bytes with
  | nil => rfl
  | cons byte rest inductionHypothesis =>
      have small : byte.toNat < 256 := byte.toNat_lt
      have first : UInt8.ofNat (byte.toNat + 256 * fromBytes rest) = byte := by
        apply UInt8.toNat_inj.mp
        rw [UInt8.toNat_ofNat']
        omega
      rw [List.length_cons, fromBytes, toBytes, first, Nat.add_mul_div_left _ _ (by decide),
        Nat.div_eq_of_lt small, Nat.zero_add, inductionHypothesis]

theorem fromBytes_lt (bytes : List Byte) : fromBytes bytes < 2 ^ (8 * bytes.length) := by
  induction bytes with
  | nil => exact Nat.one_pos
  | cons byte rest inductionHypothesis =>
      have small : byte.toNat < 256 := byte.toNat_lt
      rw [fromBytes, List.length_cons, Nat.mul_succ, Nat.pow_add]
      omega

/-- Packed fields stand in their bytes. -/
theorem reads_toBytes
    (fit : ∀ field ∈ fields, field.2 < 2 ^ field.1)
    (room : fieldsWidth fields ≤ 8 * count) :
    Reads (fromBytes (toBytes count (packBits fields))) 0 fields := by
  apply reads_packBits fit
  rw [Nat.shiftRight_zero]
  apply fromBytes_toBytes
  exact Nat.lt_of_lt_of_le (packBits_lt fields) (Nat.pow_le_pow_right (by decide) room)

end TriCoreDap
