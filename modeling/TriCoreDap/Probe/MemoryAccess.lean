import TriCoreDap.Library.Memory
import TriCoreDap.Probe.Bus
import Mathlib.Data.Nat.Bitwise

/-!
# Memory access

`tricore_regs.c`: `tricore_write_mem`, which writes whole words and merges the
bytes of a partial one into the word that is there, and what `tricore_read_mem`
reads afterwards.
-/

namespace TriCoreDap
namespace Probe

/-- Byte `index` of a word replaced: it is masked out and the new one is put in. -/
def setByte (word index : Nat) (byte : Byte) : Nat :=
  (word &&& (0xFFFFFFFF ^^^ 0xFF <<< (8 * index))) ||| byte.toNat <<< (8 * index)

/-- Bytes put into a word from byte `index` on. -/
def mergeBytes : (word index : Nat) → List Byte → Nat
  | word, _, [] => word
  | word, index, byte :: rest => mergeBytes (setByte word index byte) (index + 1) rest

/-- The word that a partial word is merged into; a whole word needs none. -/
def readPartial (wordAddr take : Nat) : Run (Option Word) :=
  if take ≠ 4 then read32 wordAddr else .done (some 0)

/-- The loop of `tricore_write_mem`, `fuel` bounding its rounds. -/
def writeMem : (fuel addr : Nat) → List Byte → Run Bool
  | 0, _, _ => .done true
  | fuel + 1, addr, buf =>
      if buf = [] then .done true
      else do
        let wordAddr := addr / 4 * 4
        let skip := addr - wordAddr
        let take := min (4 - skip) buf.length
        match ← readPartial wordAddr take with
        | none =>
            clearErrorState
            return false
        | some word =>
            if ← write32 wordAddr (mergeBytes word skip (buf.take take)) then
              writeMem fuel (u32 (addr + take)) (buf.drop take)
            else
              clearErrorState
              return false

/-- `tricore_write_mem`: each round writes at least one byte. -/
def tricoreWriteMem (addr : Nat) (buf : List Byte) : Run Bool :=
  writeMem buf.length addr buf

/-! ## A memory behind the link -/

abbrev TargetMemory := Nat → Byte

/-- The little-endian word at an address. -/
def wordAt (memory : TargetMemory) (addr : Nat) : Word :=
  le32 [memory addr, memory (addr + 1), memory (addr + 2), memory (addr + 3)] 0

/-- A target whose words read back as written.  Any access may fail, and has no
effect then; other operations are not asked for here. -/
def memoryTarget : Device Op Reply TargetMemory
  | .read32 addr, memory, reply, memory' =>
      memory' = memory ∧ ∀ word, reply = some word → word = wordAt memory addr
  | .write32 addr value, memory, acknowledged, memory' =>
      memory' = if acknowledged then overwrite addr (wordBytes value) memory else memory
  | .clearErrorState, memory, _, memory' => memory' = memory
  | _, _, _, _ => True

/-! ## Merging bytes into a word -/

variable {word index : Nat} {addr size : Nat} {byte : Byte} {memory : TargetMemory}

theorem testBit_byteOf (word index bit : Nat) (low : bit < 8) :
    (byteOf word index).toNat.testBit bit = word.testBit (8 * index + bit) := by
  rw [byteOf, UInt8.toNat_ofNat', Nat.testBit_mod_two_pow, Nat.testBit_shiftRight]
  simp [low]

theorem byte_ext {left right : Byte}
    (same : ∀ bit, bit < 8 → left.toNat.testBit bit = right.toNat.testBit bit) : left = right := by
  apply UInt8.toNat_inj.mp
  apply Nat.eq_of_testBit_eq
  intro bit
  by_cases low : bit < 8
  · exact same bit low
  · have power : 2 ^ 8 ≤ 2 ^ bit := Nat.pow_le_pow_right (by decide) (not_lt.mp low)
    rw [Nat.testBit_lt_two_pow (left.toNat_lt.trans_le power),
      Nat.testBit_lt_two_pow (right.toNat_lt.trans_le power)]

/-- The mask keeps the bits of the other bytes. -/
theorem testBit_mask (inside : index < 4) (bit : Nat) :
    (0xFFFFFFFF ^^^ 0xFF <<< (8 * index)).testBit bit =
      (decide (bit < 32) && !decide (8 * index ≤ bit ∧ bit < 8 * index + 8)) := by
  rw [show 0xFFFFFFFF = 2 ^ 32 - 1 from rfl, show 0xFF = 2 ^ 8 - 1 from rfl, Nat.testBit_xor,
    Nat.testBit_shiftLeft, Nat.testBit_two_pow_sub_one, Nat.testBit_two_pow_sub_one]
  by_cases here : 8 * index ≤ bit ∧ bit < 8 * index + 8
  · have low : bit < 32 := by omega
    have within : bit - 8 * index < 8 := by omega
    simp [here, low, within]
  · have outside : ¬(bit ≥ 8 * index ∧ bit - 8 * index < 8) := by omega
    rw [← Bool.decide_and, decide_eq_false outside, decide_eq_false here, Bool.xor_false,
      Bool.not_false, Bool.and_true]

theorem byteOf_setByte
    {place : Nat}
    (word : Nat)
    (byte : Byte)
    (inside : index < 4)
    (place_lt : place < 4) :
    byteOf (setByte word index byte) place = if place = index then byte else byteOf word place := by
  apply byte_ext
  intro bit low
  rw [testBit_byteOf _ _ _ low, setByte, Nat.testBit_or, Nat.testBit_and, testBit_mask inside,
    Nat.testBit_shiftLeft]
  split_ifs with here
  · have within : 8 * index ≤ 8 * place + bit ∧ 8 * place + bit < 8 * index + 8 := by omega
    rw [decide_eq_true within, Bool.not_true, Bool.and_false, Bool.and_false, Bool.false_or,
      decide_eq_true within.1, Bool.true_and, here, Nat.add_sub_cancel_left]
  · have outside : ¬(8 * index ≤ 8 * place + bit ∧ 8 * place + bit < 8 * index + 8) := by omega
    have small : 8 * place + bit < 32 := by omega
    have none : (decide (8 * place + bit ≥ 8 * index) &&
        byte.toNat.testBit (8 * place + bit - 8 * index)) = false := by
      rcases Nat.lt_or_ge (8 * place + bit) (8 * index) with below | above
      · rw [decide_eq_false (by omega), Bool.false_and]
      · have power : 2 ^ 8 ≤ 2 ^ (8 * place + bit - 8 * index) :=
          Nat.pow_le_pow_right (by decide) (by omega)
        rw [Nat.testBit_lt_two_pow (byte.toNat_lt.trans_le power), Bool.and_false]
    rw [testBit_byteOf _ _ _ low, none, decide_eq_false outside, decide_eq_true small,
      Bool.not_false, Bool.and_true, Bool.and_true, Bool.or_false]

/-- The merged bytes stand in the word, the others stay. -/
theorem byteOf_mergeBytes
    {place : Nat}
    (word index : Nat)
    (bytes : List Byte)
    (fits : index + bytes.length ≤ 4)
    (place_lt : place < 4) :
    byteOf (mergeBytes word index bytes) place =
      if index ≤ place then (bytes[place - index]?).getD (byteOf word place)
      else byteOf word place := by
  induction bytes generalizing word index with
  | nil => simp [mergeBytes]
  | cons byte rest inductionHypothesis =>
      rw [List.length_cons] at fits
      rw [mergeBytes, inductionHypothesis (setByte word index byte) (index + 1) (by omega),
        byteOf_setByte word byte (by omega) place_lt]
      rcases Nat.lt_trichotomy place index with below | rfl | above
      · rw [if_neg (by omega), if_neg (by omega), if_neg (by omega)]
      · rw [if_neg (by omega), if_pos rfl, if_pos le_rfl, Nat.sub_self]
        rfl
      · rw [if_pos (Nat.succ_le_of_lt above), if_pos (Nat.le_of_lt above), if_neg (by omega),
          show place - index = place - (index + 1) + 1 by omega, List.getElem?_cons_succ]

theorem byteOf_wordAt (memory : TargetMemory) (addr : Nat) (inside : index < 4) :
    byteOf (wordAt memory addr) index = memory (addr + index) := by
  rw [wordAt, byteOf_le32 _ _ inside]
  have cases : index = 0 ∨ index = 1 ∨ index = 2 ∨ index = 3 := by omega
  obtain rfl | rfl | rfl | rfl := cases <;> rfl

theorem getElem?_wordBytes (word : Nat) (inside : index < 4) :
    (wordBytes word)[index]? = some (byteOf word index) := by
  rw [wordBytes, List.getElem?_map, List.getElem?_range inside]
  rfl

/-- A merged word changes the bytes that were merged and no others. -/
theorem overwrite_mergeBytes
    {skip : Nat}
    (wordAddr : Nat)
    (bytes : List Byte)
    (fits : skip + bytes.length ≤ 4)
    (read : bytes.length = 4 ∨ word = wordAt memory wordAddr) :
    overwrite wordAddr (wordBytes (mergeBytes word skip bytes)) memory =
      overwrite (wordAddr + skip) bytes memory := by
  funext addr
  by_cases inside : wordAddr ≤ addr ∧ addr < wordAddr + 4
  · obtain ⟨index, small, rfl⟩ : ∃ index, index < 4 ∧ addr = wordAddr + index :=
      ⟨addr - wordAddr, by omega, by omega⟩
    rw [overwrite_add wordAddr index, getElem?_wordBytes _ small, Option.getD_some,
      byteOf_mergeBytes word skip bytes fits small]
    rcases Nat.lt_or_ge index skip with before | after
    · have apart : wordAddr + index < wordAddr + skip := Nat.add_lt_add_left before wordAddr
      rw [if_neg (Nat.not_le.mpr before), overwrite_outside bytes memory (Or.inl apart)]
      rcases read with four | same
      · omega
      · rw [same, byteOf_wordAt memory wordAddr small]
    · obtain ⟨place, rfl⟩ := Nat.exists_eq_add_of_le after
      rw [if_pos after, Nat.add_sub_cancel_left, ← Nat.add_assoc,
        overwrite_add (wordAddr + skip) place, Nat.add_assoc]
      rcases read with four | same
      · rw [List.getElem?_eq_getElem (by omega)]
        rfl
      · rw [same, byteOf_wordAt memory wordAddr small]
  · have apart : addr < wordAddr ∨ wordAddr + 4 ≤ addr := by omega
    have apart' : addr < wordAddr + skip ∨ wordAddr + skip + bytes.length ≤ addr := by omega
    rw [overwrite_outside bytes memory apart', overwrite_outside _ memory]
    exact apart

/-! ## Writing and reading -/

variable {buf : List Byte} {fuel : Nat}

/-- After a write the memory has a first part of the buffer, all of it if the
write succeeded. -/
def WroteFrom (addr : Nat) (buf : List Byte) (memory : TargetMemory) (result : Bool)
    (memory' : TargetMemory) : Prop :=
  ∃ count, count ≤ buf.length ∧ memory' = overwrite addr (buf.take count) memory ∧
    (result = true → count = buf.length)

theorem u32_add_le (inRange : addr + size ≤ 2 ^ 32) : u32 addr + size ≤ 2 ^ 32 := by
  rw [u32]
  omega

/-- What is written behind the first bytes. -/
theorem WroteFrom.of_rest
    {result : Bool}
    {memory' : TargetMemory}
    (wrote : WroteFrom (u32 (addr + size)) (buf.drop size)
      (overwrite addr (buf.take size) memory) result memory')
    (first : size ≤ buf.length)
    (inRange : addr + buf.length ≤ 2 ^ 32) : WroteFrom addr buf memory result memory' := by
  obtain ⟨count, count_le, memory_eq, whole⟩ := wrote
  rw [List.length_drop] at count_le whole
  refine ⟨size + count, by omega, ?_, fun success => by have := whole success; omega⟩
  rw [memory_eq, List.take_add]
  rcases Nat.eq_zero_or_pos count with rfl | more
  · rw [List.take_zero, overwrite_nil, List.append_nil]
  · have taken : (buf.take size).length = size := by
      rw [List.length_take]
      exact Nat.min_eq_left first
    rw [← overwrite_overwrite, taken, u32_of_lt (by omega)]

theorem holds_readPartial (wordAddr take : Nat) (memory : TargetMemory) :
    (readPartial wordAddr take).Holds memoryTarget (fun _ => True)
      (fun read memory' => memory' = memory ∧
        ∀ word, read = some word → take = 4 ∨ word = wordAt memory wordAddr) memory := by
  rw [readPartial]
  split
  · next merged =>
      refine ⟨trivial, fun reply memory' step => ⟨trivial, step.1, fun word found => ?_⟩⟩
      exact Or.inr (step.2 word found)
  · next whole =>
      exact ⟨trivial, rfl, fun _ _ => Or.inl (not_not.mp whole)⟩

theorem holds_writeMem
    (fuel addr : Nat)
    (buf : List Byte)
    (memory : TargetMemory)
    (enough : buf.length ≤ fuel)
    (inRange : addr + buf.length ≤ 2 ^ 32) :
    (writeMem fuel addr buf).Holds memoryTarget (fun _ => True)
      (WroteFrom addr buf memory) memory := by
  induction fuel generalizing addr buf memory with
  | zero =>
      have empty : buf = [] := List.eq_nil_of_length_eq_zero (Nat.le_zero.mp enough)
      exact ⟨trivial, 0, Nat.zero_le _, by simp, fun _ => by rw [empty]; rfl⟩
  | succ fuel inductionHypothesis =>
      rw [writeMem]
      split
      · next empty => exact ⟨trivial, 0, Nat.zero_le _, by simp, fun _ => by rw [empty]; rfl⟩
      · next nonempty =>
          have positive := List.length_pos_iff.mpr nonempty
          extract_lets wordAddr skip take
          have take_le : take ≤ buf.length := Nat.min_le_right _ _
          have fits : skip + take ≤ 4 := by omega
          have wordAddr_eq : wordAddr + skip = addr := by omega
          have taken : (buf.take take).length = take := by
            rw [List.length_take]
            exact Nat.min_eq_left take_le
          refine (holds_readPartial wordAddr take memory).bind fun read memory₁ _ ⟨same, found⟩ => ?_
          subst same
          cases read with
          | none =>
              refine ⟨trivial, fun _ memory₂ step => ⟨trivial, 0, Nat.zero_le _, ?_, ?_⟩⟩
              · rw [List.take_zero, overwrite_nil]
                exact step
              · exact fun impossible => by cases impossible
          | some word =>
              refine ⟨trivial, fun acknowledged memory₂ step => ?_⟩
              cases acknowledged with
              | false =>
                  refine ⟨trivial, fun _ memory₃ step' => ⟨trivial, 0, Nat.zero_le _, ?_, ?_⟩⟩
                  · rw [List.take_zero, overwrite_nil]
                    exact Eq.trans step' step
                  · exact fun impossible => by cases impossible
              | true =>
                  have merged : memory₂ = overwrite addr (buf.take take) memory₁ := by
                    rw [← wordAddr_eq, ← overwrite_mergeBytes wordAddr (buf.take take)
                      (by rw [taken]; exact fits) (by rw [taken]; exact found word rfl)]
                    exact step
                  have rest := inductionHypothesis (u32 (addr + take)) (buf.drop take) memory₂
                    (by rw [List.length_drop]; omega)
                    (u32_add_le (by rw [List.length_drop]; omega))
                  refine rest.mono (fun _ => id) fun result last _ wrote => ?_
                  rw [merged] at wrote
                  exact wrote.of_rest take_le inRange

theorem holds_readMem_memory
    (memory : TargetMemory)
    (fuel addr size : Nat)
    (enough : size ≤ fuel)
    (inRange : addr + size ≤ 2 ^ 32) :
    (readMem fuel addr size).Holds memoryTarget (fun _ => True)
      (fun result memory' => memory' = memory ∧ ∀ bytes, result = some bytes →
        bytes = (List.range size).map fun index => memory (addr + index)) memory := by
  induction fuel generalizing addr size with
  | zero =>
      obtain rfl := Nat.le_zero.mp enough
      exact ⟨trivial, rfl, fun bytes found => (Option.some.inj found).symm⟩
  | succ fuel inductionHypothesis =>
      rw [readMem]
      split
      · next empty =>
          subst empty
          exact ⟨trivial, rfl, fun bytes found => (Option.some.inj found).symm⟩
      · next nonempty =>
          extract_lets wordAddr skip take
          refine ⟨trivial, fun reply memory₁ step => ?_⟩
          obtain ⟨same, word_eq⟩ := step
          subst same
          cases reply with
          | none =>
              refine ⟨trivial, fun _ memory₂ step => ⟨trivial, step, fun bytes found => ?_⟩⟩
              cases found
          | some word =>
              have rest := inductionHypothesis (u32 (addr + take)) (size - take) (by omega)
                (u32_add_le (by omega))
              refine rest.bind fun result memory₂ _ read => ?_
              obtain ⟨same, read⟩ := read
              cases result with
              | none => exact ⟨trivial, same, fun bytes found => by cases found⟩
              | some later =>
                  refine ⟨trivial, same, fun bytes found => ?_⟩
                  rw [← Option.some.inj found, read later rfl,
                    show size = take + (size - take) by omega, List.range_add, List.map_append,
                    List.map_map, Nat.add_sub_cancel_left]
                  congr 1
                  · refine List.map_congr_left fun index member => ?_
                    have inside := List.mem_range.mp member
                    rw [word_eq word rfl, byteOf_wordAt _ _ (by omega), ← Nat.add_assoc]
                    congr 1
                    omega
                  · refine List.map_congr_left fun index member => ?_
                    have inside := List.mem_range.mp member
                    rw [u32_of_lt (by omega), Function.comp_apply, Nat.add_assoc]

/-- A write changes a first part of the range and nothing else, the whole range
if it succeeds; a read that succeeds then gives the buffer. -/
theorem tricoreReadMem_tricoreWriteMem
    {result : Bool}
    {memory' : TargetMemory}
    (inRange : addr + buf.length ≤ 2 ^ 32)
    (wrote : (tricoreWriteMem addr buf).Returns memoryTarget memory result memory') :
    SameOutside addr buf.length memory memory' ∧
      (∃ count, count ≤ buf.length ∧ memory' = overwrite addr (buf.take count) memory) ∧
      (result = true → memory' = overwrite addr buf memory ∧
        ∀ bytes last, (tricoreReadMem addr buf.length).Returns memoryTarget memory' (some bytes)
          last → bytes = buf) := by
  obtain ⟨-, count, count_le, memory_eq, whole⟩ :=
    (holds_writeMem buf.length addr buf memory le_rfl inRange).of_returns wrote
  refine ⟨?_, ⟨count, count_le, memory_eq⟩, fun success => ?_⟩
  · intro outer outside
    rw [memory_eq]
    refine overwrite_outside _ memory ?_
    rw [List.length_take]
    omega
  · have all : memory' = overwrite addr buf memory := by
      rw [memory_eq, whole success, List.take_length]
    refine ⟨all, fun bytes last read => ?_⟩
    have found := (holds_readMem_memory memory' buf.length addr buf.length le_rfl
      inRange).of_returns read
    rw [found.2.2 bytes rfl, all, map_overwrite]

/-- A memory that answers every access. -/
def willingMemory : (op : Op) → TargetMemory → Reply op × TargetMemory
  | .read32 addr, memory => (some (wordAt memory addr), memory)
  | .write32 addr value, memory => (true, overwrite addr (wordBytes value) memory)
  | .clearErrorState, memory => ((), memory)
  | .deadline _, memory => (0, memory)
  | .writeBlock _ _, memory => (false, memory)
  | .runLoader _ _ _ _, memory => (none, memory)

theorem memoryTarget_willingMemory (op : Op) (memory : TargetMemory) :
    memoryTarget op memory (willingMemory op memory).1 (willingMemory op memory).2 := by
  cases op with
  | read32 addr => exact ⟨rfl, fun _ found => (Option.some.inj found).symm⟩
  | write32 addr value => rfl
  | clearErrorState => rfl
  | deadline timeoutMs => trivial
  | writeBlock addr data => trivial
  | runLoader cmd addr count timeoutMs => trivial

/-- Three bytes from address 2 on, where all bytes are zero. -/
def unalignedWrite : Option Bool × TargetMemory :=
  Program.runFor willingMemory 4 (tricoreWriteMem 2 [1, 2, 3]) fun _ => 0

theorem returns_unalignedWrite :
    (tricoreWriteMem 2 [1, 2, 3]).Returns memoryTarget (fun _ => 0) true unalignedWrite.2 :=
  Program.returns_runFor willingMemory memoryTarget_willingMemory 4 rfl

theorem tricoreReadMem_tricoreWriteMem_unaligned :
    2 + ([1, 2, 3] : List Byte).length ≤ 2 ^ 32 ∧
      (tricoreWriteMem 2 [1, 2, 3]).Returns memoryTarget (fun _ => 0) true unalignedWrite.2 ∧
      SameOutside 2 3 (fun _ => 0) unalignedWrite.2 ∧
      (∃ count, count ≤ 3 ∧
        unalignedWrite.2 = overwrite 2 (([1, 2, 3] : List Byte).take count) fun _ => 0) ∧
      (true = true → unalignedWrite.2 = overwrite 2 [1, 2, 3] (fun _ => 0) ∧
        ∀ bytes last, (tricoreReadMem 2 3).Returns memoryTarget unalignedWrite.2 (some bytes) last →
          bytes = [1, 2, 3]) :=
  ⟨by decide, returns_unalignedWrite,
    tricoreReadMem_tricoreWriteMem (by decide) returns_unalignedWrite⟩

end Probe
end TriCoreDap
