import TriCoreDap.Fpga.HostFrame
import TriCoreDap.Library.Gray

/-!
# What the CRC of a frame detects

The generator's register is the Gray code of the checker's, and the checker's step is
linear and loses nothing, so that a frame has one CRC and no short burst passes.
-/

namespace TriCoreDap
namespace Fpga

/-! ## The two registers -/

theorem galoisStep_encode (s : BitVec 6) (bit : Bool) :
    galoisStep (Gray.encode s) bit = Gray.encode (fiboStep s bit) := by
  revert s bit
  decide +kernel

/-- The registers stay together over any bits. -/
theorem galois_encode (bits : List Bool) (s : BitVec 6) :
    bits.foldl galoisStep (Gray.encode s) = Gray.encode (bits.foldl fiboStep s) := by
  induction bits generalizing s with
  | nil => rfl
  | cons bit rest inductionHypothesis =>
      rw [List.foldl_cons, galoisStep_encode, inductionHypothesis, List.foldl_cons]

theorem galoisSeed_eq : galoisSeed = Gray.encode fiboSeed := by
  decide +kernel

/-! ## Linearity -/

theorem getLsbD_fiboStep (s : BitVec 6) (bit : Bool) (i : Nat) :
    (fiboStep s bit).getLsbD i =
      if i < 5 then s.getLsbD (i + 1)
      else decide (i = 5) && (bit ^^ s.getLsbD 0 ^^ s.getLsbD 1) := by
  rw [fiboStep, BitVec.getLsbD_append]
  split_ifs with low
  · rw [BitVec.getLsbD_extractLsb', decide_eq_true low, Bool.true_and, Nat.add_comm]
  · rw [BitVec.getLsbD_ofBool]
    congr 1
    exact decide_eq_decide.mpr (by omega)

/-- The step is linear over the register and the bit. -/
theorem fiboStep_xor (s t : BitVec 6) (bit flip : Bool) :
    fiboStep (s ^^^ t) (bit ^^ flip) = fiboStep s bit ^^^ fiboStep t flip := by
  apply BitVec.eq_of_getLsbD_eq
  intro i _
  rw [BitVec.getLsbD_xor, getLsbD_fiboStep, getLsbD_fiboStep, getLsbD_fiboStep,
    BitVec.getLsbD_xor, BitVec.getLsbD_xor, BitVec.getLsbD_xor]
  split_ifs
  · rfl
  · cases decide (i = 5) with
    | false => rfl
    | true =>
        simp only [Bool.true_and, Bool.xor_assoc, Bool.xor_left_comm]

theorem foldl_xor (bits error : List Bool) (length : error.length = bits.length)
    (s t : BitVec 6) :
    (List.zipWith xor bits error).foldl fiboStep (s ^^^ t) =
      bits.foldl fiboStep s ^^^ error.foldl fiboStep t := by
  induction bits generalizing error s t with
  | nil =>
      rw [List.length_nil, List.length_eq_zero_iff] at length
      subst length
      rfl
  | cons bit rest inductionHypothesis =>
      obtain ⟨flip, error, rfl⟩ := List.exists_cons_of_length_eq_add_one length
      rw [List.zipWith_cons_cons, List.foldl_cons, List.foldl_cons, List.foldl_cons, fiboStep_xor]
      exact inductionHypothesis error (Nat.succ.inj length) _ _

/-- The bits of a sum. -/
theorem bitsOf_xor (x y count : Nat) :
    bitsOf (x ^^^ y) count = List.zipWith xor (bitsOf x count) (bitsOf y count) := by
  rw [bitsOf, bitsOf, bitsOf, List.zipWith_map, List.zipWith_self]
  exact List.map_congr_left fun i _ => Nat.testBit_xor x y i

/-- Six bits over a register: what the register leaves and what the bits leave. -/
theorem foldl_bitsOf (s x : BitVec 6) :
    (bitsOf x.toNat 6).foldl fiboStep s =
      (bitsOf 0 6).foldl fiboStep s ^^^ (bitsOf x.toNat 6).foldl fiboStep 0 := by
  have split := foldl_xor (bitsOf 0 6) (bitsOf x.toNat 6) (by simp) s 0
  rwa [← bitsOf_xor, Nat.zero_xor, show s ^^^ (0 : BitVec 6) = s from BitVec.xor_zero] at split

/-- No two sixes of bits leave the same in the empty register. -/
theorem foldl_bitsOf_inj (x y : BitVec 6) :
    (bitsOf x.toNat 6).foldl fiboStep 0 = (bitsOf y.toNat 6).foldl fiboStep 0 ↔ x = y := by
  have kernel : ∀ z : BitVec 6, (bitsOf z.toNat 6).foldl fiboStep 0 = 0 → z = 0 := by
    decide +kernel
  constructor
  · intro same
    have sum := foldl_xor (bitsOf x.toNat 6) (bitsOf y.toNat 6) (by simp) 0 0
    rw [same, BitVec.xor_self, BitVec.xor_self, ← bitsOf_xor, ← BitVec.toNat_xor] at sum
    exact BitVec.xor_eq_zero_iff.mp (kernel _ sum)
  · rintro rfl
    rfl

/-- What a register leaves is what its Gray code leaves. -/
theorem foldl_bitsOf_zero (s : BitVec 6) :
    (bitsOf 0 6).foldl fiboStep s = (bitsOf (Gray.encode s).toNat 6).foldl fiboStep 0 := by
  revert s
  decide +kernel

/-- Six bits empty the checker's register only if they are its Gray code. -/
theorem emptied_iff (s x : BitVec 6) :
    (bitsOf x.toNat 6).foldl fiboStep s = 0 ↔ x = Gray.encode s := by
  rw [foldl_bitsOf, foldl_bitsOf_zero]
  exact BitVec.xor_eq_zero_iff.trans ((foldl_bitsOf_inj _ _).trans eq_comm)

theorem exists_bitsOf {bits : List Bool} (six : bits.length = 6) :
    ∃ x : BitVec 6, bits = bitsOf x.toNat 6 := by
  refine ⟨BitVec.ofNat 6 (putBits 0 0 bits), ?_⟩
  apply List.ext_getElem
  · rw [six, length_bitsOf]
  · intro i inside inside'
    rw [length_bitsOf] at inside'
    simp only [bitsOf, List.getElem_map, List.getElem_range, BitVec.toNat_ofNat,
      Nat.testBit_mod_two_pow, testBit_putBits, inside', decide_true, Bool.true_and,
      Nat.zero_testBit, Bool.false_or, Nat.zero_le, Nat.sub_zero]
    rw [List.getD_eq_getElem _ _ inside]

/-- The generator's CRC, as the checker's register has it. -/
theorem bitsOf_dapCrc6 (payload : List Bool) :
    bitsOf (dapCrc6 payload).toNat 6 =
      bitsOf (Gray.encode (payload.foldl fiboStep fiboSeed)).toNat 6 := by
  rw [dapCrc6_eq, BitVec.toNat_setWidth_of_le (by omega), galoisSeed_eq, galois_encode]

/-- The checker accepts a payload with its CRC after it, and with no other six bits. -/
theorem residue_suffix (payload : List Bool) :
    dapCrc6ResidueOk (payload ++ bitsOf (dapCrc6 payload).toNat 6) = true ∧
      ∀ suffix : List Bool, suffix.length = 6 →
        dapCrc6ResidueOk (payload ++ suffix) = true →
          suffix = bitsOf (dapCrc6 payload).toNat 6 := by
  have accepted (suffix : List Bool) :
      dapCrc6ResidueOk (payload ++ suffix) = true ↔
        suffix.foldl fiboStep (payload.foldl fiboStep fiboSeed) = 0 := by
    rw [dapCrc6ResidueOk_eq, List.foldl_append, beq_iff_eq]
  rw [bitsOf_dapCrc6]
  constructor
  · exact (accepted _).mpr ((emptied_iff _ _).mpr rfl)
  · intro suffix six passes
    obtain ⟨x, rfl⟩ := exists_bitsOf six
    rw [accepted, emptied_iff] at passes
    rw [passes]

theorem residue_suffix_sync :
    dapCrc6ResidueOk (bitsOf 0x10 5 ++ bitsOf 63 6 ++ bitsOf 10 6) = false := by
  cases passes : dapCrc6ResidueOk (bitsOf 0x10 5 ++ bitsOf 63 6 ++ bitsOf 10 6) with
  | false => rfl
  | true =>
      have same := (residue_suffix (bitsOf 0x10 5 ++ bitsOf 63 6)).2 (bitsOf 10 6) rfl passes
      exact absurd same (by decide +kernel)

/-! ## Errors -/

theorem fiboStep_false (s : BitVec 6) : fiboStep s false = 0 ↔ s = 0 := by
  revert s
  decide +kernel

/-- Bits without an error neither fill nor empty the register. -/
theorem foldl_false
    {error : List Bool}
    (clean : ∀ flip ∈ error, flip = false)
    (s : BitVec 6) :
    error.foldl fiboStep s = 0 ↔ s = 0 := by
  induction error generalizing s with
  | nil => rfl
  | cons flip rest inductionHypothesis =>
      rw [List.forall_mem_cons] at clean
      rw [List.foldl_cons, inductionHypothesis clean.2, clean.1, fiboStep_false]

/-- A short burst leaves something in the empty register. -/
theorem foldl_burst
    {burst : List Bool}
    (short : burst.length ≤ 6)
    (flips : true ∈ burst) :
    burst.foldl fiboStep 0 ≠ 0 := by
  intro empty
  have padded : (burst ++ List.replicate (6 - burst.length) false).length = 6 := by
    rw [List.length_append, List.length_replicate]
    omega
  obtain ⟨x, bits⟩ := exists_bitsOf padded
  have run : (bitsOf x.toNat 6).foldl fiboStep 0 = 0 := by
    rw [← bits, List.foldl_append, foldl_false]
    · exact empty
    · intro flip member
      exact List.eq_of_mem_replicate member
  rw [emptied_iff] at run
  have member : true ∈ bitsOf x.toNat 6 := by
    rw [← bits]
    exact List.mem_append_left _ flips
  rw [run] at member
  exact absurd member (by decide)

/-- An error in at most six bits, one after the other, is found, wherever it is. -/
theorem short_burst_found
    (codeword error : List Bool)
    (accepted : dapCrc6ResidueOk codeword = true)
    (length : error.length = codeword.length)
    (flips : true ∈ error)
    (start : Nat)
    (short : ∀ i, error[i]? = some true → start ≤ i ∧ i < start + 6) :
    dapCrc6ResidueOk (List.zipWith xor codeword error) = false := by
  rw [dapCrc6ResidueOk_eq, beq_iff_eq] at accepted
  have before : ∀ flip ∈ error.take start, flip = false := by
    intro flip member
    obtain ⟨i, at_i⟩ := List.mem_iff_getElem?.mp member
    rw [List.getElem?_take] at at_i
    cases flip with
    | false => rfl
    | true =>
        split at at_i
        · have := short i at_i
          omega
        · cases at_i
  have after : ∀ flip ∈ error.drop (start + 6), flip = false := by
    intro flip member
    obtain ⟨i, at_i⟩ := List.mem_iff_getElem?.mp member
    rw [List.getElem?_drop] at at_i
    cases flip with
    | false => rfl
    | true =>
        have := short _ at_i
        omega
  have parts : error =
      error.take start ++ ((error.drop start).take 6 ++ error.drop (start + 6)) := by
    rw [← List.drop_drop, List.take_append_drop, List.take_append_drop]
  have burst : ((error.drop start).take 6).foldl fiboStep 0 ≠ 0 := by
    apply foldl_burst
    · rw [List.length_take]
      omega
    · rw [parts, List.mem_append, List.mem_append] at flips
      rcases flips with early | inside | late
      · cases before _ early
      · exact inside
      · cases after _ late
  have left : error.foldl fiboStep 0 ≠ 0 := by
    rw [parts, List.foldl_append, List.foldl_append, (foldl_false before 0).mpr rfl]
    intro empty
    exact burst ((foldl_false after _).mp empty)
  have run : (List.zipWith xor codeword error).foldl fiboStep fiboSeed =
      error.foldl fiboStep 0 := by
    have both := foldl_xor codeword error length fiboSeed 0
    rw [accepted] at both
    simpa using both
  rw [dapCrc6ResidueOk_eq, run]
  exact beq_eq_false_iff_ne.mpr left

/-- The sync frame without its start bit and its trailing zero. -/
def syncCodeword : List Bool := bitsOf 0x10 5 ++ bitsOf 63 6 ++ bitsOf 9 6

theorem short_burst_found_border :
    dapCrc6ResidueOk
      (List.zipWith xor syncCodeword
        (List.replicate 8 false ++ [true, false, true, true, false, true] ++
          List.replicate 3 false)) = false := by
  refine short_burst_found syncCodeword _ (by decide +kernel) (by decide) (by decide) 8 ?_
  have places : ∀ i < 17,
      (List.replicate 8 false ++ [true, false, true, true, false, true] ++
        List.replicate 3 false)[i]? = some true → 8 ≤ i ∧ i < 8 + 6 := by decide
  intro i flipped
  exact places i (List.getElem?_eq_some_iff.mp flipped).1 flipped

end Fpga
end TriCoreDap
