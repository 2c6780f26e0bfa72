import TriCoreDap.Library.Bits

/-!
# Signals

`signals.py` and `elfsyms.py`: what a signal is, how its bytes are decoded, and
the decoder for a store of exactly its bytes.  Python's floating point numbers
are named by their operations alone.
-/

namespace TriCoreDap
namespace Signals

/-- What Python does with its floats. -/
structure Floats where
  Real : Type
  zero : Real
  nan : Real
  /-- `float(v)` of an integer. -/
  ofInt : Int → Real
  /-- `/` -/
  quot : Real → Real → Real
  /-- `t > t_end` -/
  later : (t tEnd : Real) → Bool
  /-- `t <= limit` -/
  upTo : (t limit : Real) → Bool
  /-- `struct.unpack('<f', raw)` -/
  unpackF32 : List Byte → Real
  /-- `struct.unpack('<d', raw)` -/
  unpackF64 : List Byte → Real

/-- Whole numbers for floats. -/
@[reducible] def wholeNumbers : Floats where
  Real := Int
  zero := 0
  nan := -1
  ofInt := id
  quot := (· / ·)
  later := fun t tEnd => decide (t > tEnd)
  upTo := fun t limit => decide (t ≤ limit)
  unpackF32 := fun raw => fromBytes raw
  unpackF64 := fun raw => fromBytes raw

inductive TypeKind
  | base
  | enum
  | pointer
  | struct
  | union
  | classType
  | array
  | void
  | func
  | unknown
  deriving DecidableEq, Repr

inductive Encoding
  | none
  | signed
  | unsigned
  | float
  | bool
  | char
  deriving DecidableEq, Repr

/-- `CType`, as far as a leaf needs it. -/
structure CType where
  kind : TypeKind
  size : Nat
  encoding : Encoding
  deriving DecidableEq, Repr

/-- `Node`: a leaf of a variable. -/
structure Node where
  type : CType
  bitSize : Nat
  bitShift : Nat
  deriving DecidableEq, Repr

def Node.size (node : Node) : Nat := node.type.size

inductive SignalKind
  | value
  | hits
  deriving DecidableEq, Repr

/-- `Signal`.  A leaf's signal has the size of the leaf. -/
structure Signal where
  id : String
  addr : Nat
  size : Nat
  kind : SignalKind
  node : Option Node
  slot : Nat
  signed : Bool
  size_eq : ∀ leaf, node = some leaf → size = leaf.size
  deriving DecidableEq

def Signal.stop (s : Signal) : Nat := s.addr + s.size

/-- `raw_signal`. -/
def rawSignal (id : String) (addr size : Nat) (signed : Bool) : Signal :=
  ⟨id, addr, size, .value, none, 0, signed, nofun⟩

/-- `leaf_signal`. -/
def leafSignal (id : String) (addr : Nat) (node : Node) : Signal :=
  ⟨id, addr, node.size, .value, some node, 0, false,
    fun _ found => congrArg Node.size (Option.some.inj found)⟩

/-- `hits_signal`. -/
def hitsSignal (id : String) (slot : Nat) : Signal :=
  ⟨id, 0, 0, .hits, none, slot, false, nofun⟩

/-- A decoded value. -/
inductive Value (floats : Floats)
  | int (value : Int)
  | float (value : floats.Real)

/-- `float(v)`. -/
def Value.toFloat {floats : Floats} : Value floats → floats.Real
  | .int value => floats.ofInt value
  | .float value => value

/-- `int.from_bytes(raw, 'little', signed=signed)`. -/
def intFromBytes (raw : List Byte) (signed : Bool) : Int :=
  let v := fromBytes raw
  if signed ∧ 2 ^ (8 * raw.length - 1) ≤ v then (v : Int) - 2 ^ (8 * raw.length) else v

/-- `(v ^ sign) - sign` for the sign bit of `bits` bits. -/
def xorSign (bits v : Nat) : Int := ((v ^^^ 2 ^ (bits - 1) : Nat) : Int) - 2 ^ (bits - 1)

section
variable (floats : Floats)

/-- `decode_leaf`. -/
def decodeLeaf (node : Node) (raw : List Byte) : Option (Value floats) :=
  let t := node.type
  if raw.length < t.size ∨ t.size = 0 then none
  else if node.bitSize ≠ 0 then
    let unit := fromBytes (raw.take t.size)
    let v := (unit >>> node.bitShift) % 2 ^ node.bitSize
    if t.encoding = .signed ∧ v.testBit (node.bitSize - 1) then
      some (.int ((v : Int) - 2 ^ node.bitSize))
    else some (.int v)
  else if t.kind = .base ∧ t.encoding = .float then
    if t.size = 4 then some (.float (floats.unpackF32 (raw.take 4)))
    else if t.size = 8 then some (.float (floats.unpackF64 (raw.take 8)))
    else none
  else some (.int (intFromBytes (raw.take t.size) (decide (t.encoding = .signed))))

/-- `Signal.decode`. -/
def Signal.decode (s : Signal) (raw : List Byte) : Option (Value floats) :=
  match s.node with
  | some node => decodeLeaf floats node raw
  | none => some (.int (intFromBytes (raw.take s.size) s.signed))

/-- The end of `Signal.int_decoder`. -/
def Signal.plainInt (s : Signal) (signed : Bool) (v : Nat) : Value floats :=
  if signed then .int (xorSign (8 * s.size) v) else .int v

/-- `Signal.int_decoder`, at a store of the signal's bytes. -/
def Signal.intDecoder (s : Signal) (v : Nat) : Option (Value floats) :=
  match s.node with
  | none => some (s.plainInt floats s.signed v)
  | some node =>
      if node.size ≠ node.type.size ∨ node.type.size = 0 then
        decodeLeaf floats node (toBytes s.size v)
      else if node.bitSize ≠ 0 then
        let field := (v >>> node.bitShift) % 2 ^ node.bitSize
        if node.type.encoding = .signed then some (.int (xorSign node.bitSize field))
        else some (.int field)
      else if node.type.kind = .base ∧ node.type.encoding = .float then
        if s.size = 4 then some (.float (floats.unpackF32 (toBytes 4 v)))
        else if s.size = 8 then some (.float (floats.unpackF64 (toBytes 8 v)))
        else none
      else some (s.plainInt floats (decide (node.type.encoding = .signed)) v)

end

/-! ## The two decoders -/

variable {floats : Floats} {s : Signal} {v bits : Nat}

/-- Flipping the highest bit adds it or takes it off. -/
theorem xor_two_pow (fits : v < 2 ^ (low + 1)) :
    v ^^^ 2 ^ low = if 2 ^ low ≤ v then v - 2 ^ low else v + 2 ^ low := by
  have positive := Nat.two_pow_pos low
  have split := Nat.div_add_mod (v ^^^ 2 ^ low) (2 ^ low)
  have whole := Nat.div_add_mod v (2 ^ low)
  rw [Nat.xor_div_two_pow, Nat.xor_mod_two_pow, Nat.mod_self, Nat.xor_zero,
    Nat.div_self positive] at split
  split_ifs with set
  · have high : v / 2 ^ low = 1 := by
      rw [Nat.pow_succ, Nat.mul_comm] at fits
      have less := Nat.div_lt_of_lt_mul (Nat.mul_comm 2 _ ▸ fits)
      have more := Nat.div_pos set positive
      omega
    rw [high, Nat.xor_self, Nat.mul_zero, Nat.zero_add] at split
    rw [high, Nat.mul_one] at whole
    omega
  · have high : v / 2 ^ low = 0 := Nat.div_eq_of_lt (not_le.mp set)
    rw [high, Nat.zero_xor, Nat.mul_one] at split
    rw [high, Nat.mul_zero, Nat.zero_add] at whole
    omega

/-- Flipping the sign bit and taking it off again sign-extends. -/
theorem xorSign_eq (positive : 0 < bits) (fits : v < 2 ^ bits) :
    xorSign bits v = if 2 ^ (bits - 1) ≤ v then (v : Int) - 2 ^ bits else v := by
  obtain ⟨low, rfl⟩ : ∃ low, bits = low + 1 := ⟨bits - 1, by omega⟩
  have power : (2 : Int) ^ (low + 1) = 2 ^ low + 2 ^ low := by ring
  rw [xorSign, Nat.add_sub_cancel, xor_two_pow fits]
  split_ifs with set
  · rw [Nat.cast_sub set, power]
    push_cast
    ring
  · push_cast
    ring

theorem intFromBytes_toBytes
    (signed : Bool)
    (positive : 0 < size)
    (fits : v < 2 ^ (8 * size)) :
    intFromBytes (toBytes size v) signed =
      if signed then xorSign (8 * size) v else (v : Int) := by
  rw [intFromBytes, fromBytes_toBytes fits, toBytes_length]
  cases signed with
  | false => simp
  | true => simp [xorSign_eq (show 0 < 8 * size by omega) fits]

/-- A bit field has its highest bit or not. -/
theorem testBit_top (positive : 0 < bits) (fits : v < 2 ^ bits) :
    v.testBit (bits - 1) = decide (2 ^ (bits - 1) ≤ v) := by
  obtain ⟨low, rfl⟩ : ∃ low, bits = low + 1 := ⟨bits - 1, by omega⟩
  rw [Nat.add_sub_cancel]
  by_cases set : 2 ^ low ≤ v
  · rw [decide_eq_true set]
    exact Nat.testBit_of_two_pow_le_and_two_pow_add_one_gt set fits
  · rw [decide_eq_false set]
    exact Nat.testBit_lt_two_pow (not_le.mp set)

theorem plainInt_eq (signed : Bool) (positive : 0 < s.size) (fits : v < 2 ^ (8 * s.size)) :
    s.plainInt floats signed v = .int (intFromBytes (toBytes s.size v) signed) := by
  rw [intFromBytes_toBytes _ positive fits, Signal.plainInt]
  split_ifs <;> rfl

/-- The decoder for whole stores decodes the signal's bytes. -/
theorem intDecoder_eq (positive : 0 < s.size) (fits : v < 2 ^ (8 * s.size)) :
    s.intDecoder floats v = s.decode floats (toBytes s.size v) := by
  have whole : (toBytes s.size v).take s.size = toBytes s.size v :=
    List.take_of_length_le (toBytes_length _ _).le
  rw [Signal.intDecoder, Signal.decode]
  cases leaf : s.node with
  | none =>
      dsimp only
      rw [whole, plainInt_eq _ positive fits]
  | some node =>
      have size_eq : s.size = node.type.size := s.size_eq node leaf
      have looked : ¬(node.size ≠ node.type.size ∨ node.type.size = 0) := by
        rw [Node.size]
        omega
      have long : ¬((toBytes s.size v).length < node.type.size ∨ node.type.size = 0) := by
        rw [toBytes_length]
        omega
      dsimp only
      rw [if_neg looked, decodeLeaf, if_neg long, ← size_eq, whole, fromBytes_toBytes fits]
      by_cases field : node.bitSize ≠ 0
      · rw [if_pos field, if_pos field]
        have width : 0 < node.bitSize := Nat.pos_of_ne_zero field
        have bounded : (v >>> node.bitShift) % 2 ^ node.bitSize < 2 ^ node.bitSize :=
          Nat.mod_lt _ (Nat.two_pow_pos _)
        by_cases signed : node.type.encoding = .signed
        · rw [if_pos signed, xorSign_eq width bounded]
          simp only [signed, testBit_top width bounded, true_and, decide_eq_true_eq]
          split_ifs <;> rfl
        · rw [if_neg signed]
          simp only [signed, false_and, if_false]
      · rw [if_neg field, if_neg field]
        by_cases float : node.type.kind = .base ∧ node.type.encoding = .float
        · rw [if_pos float, if_pos float]
          by_cases four : s.size = 4
          · rw [if_pos four, if_pos four, List.take_of_length_le (by rw [toBytes_length, four]),
              four]
          by_cases eight : s.size = 8
          · rw [if_neg four, if_neg four, if_pos eight, if_pos eight,
              List.take_of_length_le (by rw [toBytes_length, eight]), eight]
          · rw [if_neg four, if_neg four, if_neg eight, if_neg eight]
        · rw [if_neg float, if_neg float, plainInt_eq _ positive fits]

end Signals
end TriCoreDap
