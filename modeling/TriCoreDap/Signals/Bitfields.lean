import TriCoreDap.Signals.Leaves

/-!
# Bit fields

`elfsyms.py`: where `_Parser._members` puts a bit field, and what the decoders of
its leaf make of the bytes there.
-/

namespace TriCoreDap
namespace Signals

/-- `_BASE_ENC`, by `DW_AT_encoding`: address, boolean, float, signed, signed char,
unsigned, unsigned char, UTF. -/
def baseEnc : Nat → Encoding
  | 0x01 => .unsigned
  | 0x02 => .bool
  | 0x04 => .float
  | 0x05 => .signed
  | 0x06 => .char
  | 0x07 => .unsigned
  | 0x08 => .unsigned
  | 0x10 => .unsigned
  | _ => .unsigned

/-- What `_Parser._members` reads of a member to place it. -/
structure MemberDie where
  location : Nat
  type : CType
  byteSize : Option Nat
  bitSize : Nat
  dataBitOffset : Option Nat
  bitOffset : Option Nat
  deriving DecidableEq, Repr

namespace MemberDie

/-- `unit`: the size of the storage unit. -/
def unit (d : MemberDie) : Nat :=
  let size := d.byteSize.getD d.type.size
  if size ≠ 0 then size else d.type.size

/-- `off` and `shift`. -/
def place (d : MemberDie) : Nat × Int :=
  if d.bitSize = 0 then (d.location, 0)
  else
    match d.dataBitOffset, d.bitOffset with
    | some dbo, _ =>
        let off := dbo / (d.unit * 8) * d.unit
        (off, (dbo : Int) - off * 8)
    | none, some fromMsb => (d.location, (d.unit : Int) * 8 - fromMsb - d.bitSize)
    | none, none => (d.location, 0)

/-- The type of the member, of the size of the storage unit. -/
def storage (d : MemberDie) : CType :=
  if d.bitSize ≠ 0 ∧ d.unit ≠ d.type.size ∧ (d.type.kind = .base ∨ d.type.kind = .enum) then
    { d.type with size := d.unit }
  else d.type

def offset (d : MemberDie) : Nat := d.place.1

/-- The member as a leaf. -/
def node (d : MemberDie) : Node := ⟨d.storage, d.bitSize, d.place.2.toNat⟩

end MemberDie

/-! ## The bits of the struct -/

variable {memory : Nat → Byte} {floats : Floats} {bytes : List Byte} {base bits : Nat}

/-- Bit `index` of the memory from `base` on, the lowest bit of a byte first. -/
def memoryBit (memory : Nat → Byte) (base index : Nat) : Bool :=
  (memory (base + index / 8)).toNat.testBit (index % 8)

/-- The bits from bit `first` on. -/
def fieldBits (memory : Nat → Byte) (base first bits : Nat) : Nat :=
  Nat.ofBits fun index : Fin bits => memoryBit memory base (first + index)

/-- The bits from bit `first` on, the highest one as a sign where they are signed. -/
def fieldValue (memory : Nat → Byte) (base first bits : Nat) (signed : Bool) : Int :=
  let v := fieldBits memory base first bits
  if signed ∧ v.testBit (bits - 1) then (v : Int) - 2 ^ bits else v

/-- The bytes from an address on. -/
def bytesFrom (memory : Nat → Byte) (addr size : Nat) : List Byte :=
  (List.range size).map fun index => memory (addr + index)

@[simp] theorem length_bytesFrom (memory : Nat → Byte) (addr size : Nat) :
    (bytesFrom memory addr size).length = size := by
  rw [bytesFrom, List.length_map, List.length_range]

theorem testBit_fromBytes (bytes : List Byte) (index : Nat) :
    (fromBytes bytes).testBit index =
      ((bytes[index / 8]?).getD 0).toNat.testBit (index % 8) := by
  induction bytes generalizing index with
  | nil => simp [fromBytes]
  | cons byte rest inductionHypothesis =>
      have small : byte.toNat < 2 ^ 8 := byte.toNat_lt
      rw [fromBytes, show 256 * fromBytes rest = 2 ^ 8 * fromBytes rest from rfl, Nat.add_comm,
        Nat.testBit_two_pow_mul_add _ small]
      split_ifs with low
      · rw [Nat.div_eq_of_lt low, Nat.mod_eq_of_lt low]
        rfl
      · obtain ⟨behind, rfl⟩ := Nat.exists_eq_add_of_le (not_lt.mp low)
        rw [Nat.add_sub_cancel_left, inductionHypothesis, Nat.add_div_left _ (by decide),
          Nat.add_mod_left, List.getElem?_cons_succ]

/-- A field within the bytes has the bits of the memory. -/
theorem field_fromBytes
    {shift size : Nat}
    (memory : Nat → Byte)
    (base off : Nat)
    (fits : shift + bits ≤ 8 * size) :
    (fromBytes (bytesFrom memory (base + off) size) >>> shift) % 2 ^ bits =
      fieldBits memory base (off * 8 + shift) bits := by
  apply Nat.eq_of_testBit_eq
  intro index
  rw [Nat.testBit_mod_two_pow, Nat.testBit_shiftRight, fieldBits, Nat.testBit_ofBits]
  split_ifs with inside
  · have within : (shift + index) / 8 < size := by omega
    have addr_eq : base + (off * 8 + shift + index) / 8 = base + off + (shift + index) / 8 := by
      omega
    have bit_eq : (off * 8 + shift + index) % 8 = (shift + index) % 8 := by omega
    rw [decide_eq_true inside, Bool.true_and, testBit_fromBytes, bytesFrom, List.getElem?_map,
      List.getElem?_range within, memoryBit, addr_eq, bit_eq]
    rfl
  · rw [decide_eq_false inside, Bool.false_and]

theorem fieldBits_ones (base first bits : Nat) :
    fieldBits (fun _ => 255) base first bits = 2 ^ bits - 1 := by
  apply Nat.eq_of_testBit_eq
  intro index
  rw [fieldBits, Nat.testBit_ofBits, Nat.testBit_two_pow_sub_one]
  split_ifs with inside
  · have low : (first + index) % 8 < 8 := Nat.mod_lt _ (by decide)
    rw [decide_eq_true inside, memoryBit, show (255 : Byte).toNat = 2 ^ 8 - 1 from rfl,
      Nat.testBit_two_pow_sub_one]
    exact decide_eq_true low
  · exact (decide_eq_false inside).symm

theorem cast_two_pow_sub_one (bits : Nat) : ((2 ^ bits - 1 : Nat) : Int) = 2 ^ bits - 1 := by
  rw [Nat.cast_sub Nat.one_le_two_pow]
  push_cast
  rfl

theorem fieldValue_ones (base first : Nat) (field : 0 < bits) (signed : Bool) :
    fieldValue (fun _ => 255) base first bits signed = if signed then -1 else 2 ^ bits - 1 := by
  have top : (2 ^ bits - 1).testBit (bits - 1) = true := by
    rw [Nat.testBit_two_pow_sub_one]
    exact decide_eq_true (Nat.sub_lt field Nat.one_pos)
  rw [fieldValue, fieldBits_ones]
  cases signed with
  | false => simp
  | true => simp [top]

/-- Where all bits are set a field that is not within the bytes lacks its highest
bits. -/
theorem testBit_ones (addr size shift index : Nat) :
    (fromBytes (bytesFrom (fun _ => 255) addr size) >>> shift).testBit index =
      decide (shift + index < 8 * size) := by
  rw [Nat.testBit_shiftRight, testBit_fromBytes, bytesFrom, List.getElem?_map]
  by_cases inside : shift + index < 8 * size
  · have within : (shift + index) / 8 < size := by omega
    have low : (shift + index) % 8 < 8 := Nat.mod_lt _ (by decide)
    rw [decide_eq_true inside, List.getElem?_range within, Option.map_some, Option.getD_some,
      show (255 : Byte).toNat = 2 ^ 8 - 1 from rfl, Nat.testBit_two_pow_sub_one]
    exact decide_eq_true low
  · have outside : size ≤ (shift + index) / 8 := by omega
    rw [decide_eq_false inside, List.getElem?_eq_none (by rwa [List.length_range]),
      Option.map_none, Option.getD_none]
    exact Nat.zero_testBit _

/-! ## The decoded value -/

namespace MemberDie

/-- The member's signal in a struct at `base`. -/
def signal (d : MemberDie) (id : String) (base : Nat) : Signal :=
  leafSignal id (base + d.offset) d.node

/-- Both decoders give the value for the member's bytes in memory. -/
def Decodes (d : MemberDie) (floats : Floats) (id : String) (memory : Nat → Byte) (base : Nat)
    (value : Int) : Prop :=
  let raw := bytesFrom memory (base + d.offset) d.node.size
  (d.signal id base).decode floats raw = some (.int value) ∧
    (d.signal id base).intDecoder floats (fromBytes raw) = some (.int value)

/-- The field as it is cut out of the storage unit. -/
def cutOut (d : MemberDie) (memory : Nat → Byte) (base : Nat) : Nat :=
  (fromBytes (bytesFrom memory (base + d.offset) d.node.size) >>> d.node.bitShift) % 2 ^ d.bitSize

/-- The value of the field that was cut out. -/
def cutValue (d : MemberDie) (memory : Nat → Byte) (base : Nat) : Int :=
  if d.type.encoding = .signed ∧ (d.cutOut memory base).testBit (d.bitSize - 1) then
    (d.cutOut memory base : Int) - 2 ^ d.bitSize
  else d.cutOut memory base

variable {d : MemberDie}

@[simp] theorem storage_encoding (d : MemberDie) : d.storage.encoding = d.type.encoding := by
  rw [storage]
  split_ifs <;> rfl

theorem storage_positive (positive : 0 < d.type.size) : 0 < d.storage.size := by
  have unit_positive : 0 < d.unit := by
    rw [unit]
    split_ifs with given
    · exact Nat.pos_of_ne_zero given
    · exact positive
  rw [storage]
  split_ifs
  · exact unit_positive
  · exact positive

/-- The decoders agree on the field that is cut out. -/
theorem decodes_iff
    {value : Int}
    (floats : Floats)
    (id : String)
    (memory : Nat → Byte)
    (base : Nat)
    (field : 0 < d.bitSize)
    (positive : 0 < d.type.size) :
    d.Decodes floats id memory base value ↔ d.cutValue memory base = value := by
  have size_positive : 0 < d.node.size := storage_positive positive
  have leaf : decodeLeaf floats d.node (bytesFrom memory (base + d.offset) d.node.size) =
      some (.int (d.cutValue memory base)) := by
    have long : ¬((bytesFrom memory (base + d.offset) d.node.size).length < d.node.type.size ∨
        d.node.type.size = 0) := by
      rw [length_bytesFrom]
      exact fun short => short.elim (Nat.lt_irrefl _) (Nat.ne_of_gt size_positive)
    have whole : (bytesFrom memory (base + d.offset) d.node.size).take d.node.type.size =
        bytesFrom memory (base + d.offset) d.node.size :=
      List.take_of_length_le (length_bytesFrom _ _ _).le
    rw [decodeLeaf, if_neg long, whole, if_pos (Nat.ne_of_gt field : d.node.bitSize ≠ 0), cutValue]
    have encoding : d.node.type.encoding = d.type.encoding := d.storage_encoding
    rw [encoding]
    exact (apply_ite (fun value => some (Value.int value)) _ _ _).symm
  have both : (d.signal id base).intDecoder floats
      (fromBytes (bytesFrom memory (base + d.offset) d.node.size)) =
        (d.signal id base).decode floats (bytesFrom memory (base + d.offset) d.node.size) := by
    have bounded := fromBytes_lt (bytesFrom memory (base + d.offset) d.node.size)
    have back := toBytes_fromBytes (bytesFrom memory (base + d.offset) d.node.size)
    rw [length_bytesFrom] at bounded back
    rw [intDecoder_eq (s := d.signal id base) size_positive bounded]
    congr 1
  rw [Decodes, both]
  rw [show (d.signal id base).decode floats _ = decodeLeaf floats d.node _ from rfl, leaf]
  simp

/-- The field lies within its storage unit. -/
def Fits (d : MemberDie) (dbo : Nat) : Prop := dbo % (8 * d.unit) + d.bitSize ≤ 8 * d.storage.size

instance (d : MemberDie) (dbo : Nat) : Decidable (d.Fits dbo) := inferInstanceAs (Decidable (_ ≤ _))

/-- What the place of a field means for its data bit offset. -/
theorem place_eq {dbo : Nat} (field : 0 < d.bitSize) (given : d.dataBitOffset = some dbo) :
    d.offset * 8 + d.node.bitShift = dbo ∧ d.node.bitShift = dbo % (8 * d.unit) := by
  have place : d.place =
      (dbo / (d.unit * 8) * d.unit, (dbo : Int) - (dbo / (d.unit * 8) * d.unit : Nat) * 8) := by
    rw [MemberDie.place, if_neg (Nat.ne_of_gt field), given]
  have split := Nat.div_add_mod dbo (8 * d.unit)
  have whole : dbo / (d.unit * 8) * d.unit * 8 = 8 * d.unit * (dbo / (8 * d.unit)) := by
    rw [Nat.mul_comm d.unit 8]
    ring
  have offset_eq : d.offset = d.place.1 := rfl
  have shift_eq : d.node.bitShift = d.place.2.toNat := rfl
  rw [offset_eq, shift_eq, place]
  dsimp only
  omega

/-- A field is decoded to its own bits in every memory if and only if it lies
within its storage unit and its type is signed just where its encoding says so. -/
theorem decodes_fieldValue_iff
    {dbo : Nat}
    (field : 0 < d.bitSize)
    (given : d.dataBitOffset = some dbo)
    (positive : 0 < d.type.size)
    (signed : Bool)
    (id : String)
    (base : Nat) :
    (∀ memory, d.Decodes floats id memory base (fieldValue memory base dbo d.bitSize signed)) ↔
      d.Fits dbo ∧ (d.type.encoding = .signed ↔ signed = true) := by
  simp only [decodes_iff floats id _ base field positive]
  obtain ⟨dbo_eq, shift_eq⟩ := place_eq field given
  constructor
  · intro decodes
    have ones := decodes fun _ => 255
    have power : (1 : Int) < 2 ^ d.bitSize := by
      exact_mod_cast Nat.one_lt_two_pow (Nat.ne_of_gt field)
    have value := fieldValue_ones base dbo field signed
    have top : (d.cutOut (fun _ => 255) base).testBit (d.bitSize - 1) =
        decide (d.node.bitShift + (d.bitSize - 1) < 8 * d.node.size) := by
      rw [cutOut, Nat.testBit_mod_two_pow, testBit_ones, decide_eq_true (by omega), Bool.true_and]
    by_cases fits : d.Fits dbo
    · refine ⟨fits, ?_⟩
      have cut : d.cutOut (fun _ => 255) base = 2 ^ d.bitSize - 1 := by
        rw [cutOut, field_fromBytes _ base d.offset (by rw [shift_eq]; exact fits), dbo_eq,
          fieldBits_ones]
      have cut_value : d.cutValue (fun _ => 255) base =
          if d.type.encoding = .signed then -1 else 2 ^ d.bitSize - 1 := by
        rw [cutValue, cut, Nat.testBit_two_pow_sub_one, decide_eq_true (by omega),
          cast_two_pow_sub_one]
        simp only [and_true]
        split_ifs
        · ring
        · rfl
      rw [cut_value, value] at ones
      by_cases sign : d.type.encoding = .signed
      · rw [if_pos sign] at ones
        cases signed with
        | true => exact iff_of_true sign rfl
        | false =>
            rw [if_neg Bool.false_ne_true] at ones
            omega
      · rw [if_neg sign] at ones
        cases signed with
        | true =>
            rw [if_pos rfl] at ones
            omega
        | false => exact iff_of_false sign Bool.false_ne_true
    · have lost : (d.cutOut (fun _ => 255) base).testBit (d.bitSize - 1) = false := by
        rw [top]
        rw [Fits, ← shift_eq] at fits
        apply decide_eq_false
        intro inside
        have size_eq : d.node.size = d.storage.size := rfl
        omega
      rw [cutValue, lost, value, if_neg (by simp)] at ones
      cases signed with
      | true =>
          rw [if_pos rfl] at ones
          omega
      | false =>
          rw [if_neg Bool.false_ne_true, ← cast_two_pow_sub_one] at ones
          have all : d.cutOut (fun _ => 255) base = 2 ^ d.bitSize - 1 := Int.ofNat.inj ones
          rw [all, Nat.testBit_two_pow_sub_one, decide_eq_true (by omega)] at lost
          cases lost
  · rintro ⟨fits, sign⟩ memory
    have cut : d.cutOut memory base = fieldBits memory base dbo d.bitSize := by
      rw [cutOut, field_fromBytes memory base d.offset (by rw [shift_eq]; exact fits), dbo_eq]
    rw [cutValue, fieldValue, cut]
    simp only [sign]

/-- `uint32_t : 8` at bit 28 of a packed struct. -/
def crossing : MemberDie := ⟨0, ⟨.base, 4, .unsigned⟩, none, 8, some 28, none⟩

/-- `signed char : 3` at the start of a struct. -/
def signedChar : MemberDie := ⟨0, ⟨.base, 1, baseEnc 0x06⟩, none, 3, some 0, none⟩

/-- Where all bits are set the first reads as 15 in place of 255, the second as 7
in place of -1. -/
theorem decodes_crossing :
    (crossing.Decodes wholeNumbers "s.f" (fun _ => 255) 0 15 ∧
      fieldValue (fun _ => 255) 0 28 8 false = 255) ∧
    (signedChar.Decodes wholeNumbers "s.f" (fun _ => 255) 0 7 ∧
      fieldValue (fun _ => 255) 0 0 3 true = -1) := by
  refine ⟨⟨?_, ?_⟩, ?_, ?_⟩
  · rw [decodes_iff wholeNumbers "s.f" _ 0 (by decide) (by decide)]
    decide +kernel
  · rw [fieldValue_ones 0 28 (by decide) false]
    rfl
  · rw [decodes_iff wholeNumbers "s.f" _ 0 (by decide) (by decide)]
    decide +kernel
  · rw [fieldValue_ones 0 0 (by decide) true]
    rfl

/-- `uint8_t : 5` behind a field of three bits. -/
def secondField : MemberDie := ⟨0, ⟨.base, 1, .unsigned⟩, none, 5, some 3, none⟩

theorem decodes_fieldValue_iff_second :
    (0 < secondField.bitSize ∧ secondField.dataBitOffset = some 3 ∧ 0 < secondField.type.size) ∧
      ((∀ memory, secondField.Decodes wholeNumbers "s.b" memory 16
          (fieldValue memory 16 3 5 false)) ↔
        secondField.Fits 3 ∧ (secondField.type.encoding = .signed ↔ false = true)) :=
  ⟨⟨by decide, rfl, by decide⟩,
    decodes_fieldValue_iff (d := secondField) (by decide) rfl (by decide) false "s.b" 16⟩

end MemberDie

end Signals
end TriCoreDap
