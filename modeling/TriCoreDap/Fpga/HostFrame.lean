import TriCoreDap.Fpga.Crc6

/-!
# The frames that the host builds

`dap_frame.c` lists the bits of a frame; `raw_frame` of `dap_phy_fpga.c` makes a word of
them, or of the pairs of a wide frame.
-/

namespace TriCoreDap
namespace Fpga

/-- The low bits of a field, the first one on the wire first. -/
def bitsOf (value count : Nat) : List Bool := (List.range count).map value.testBit

@[simp] theorem length_bitsOf (value count : Nat) : (bitsOf value count).length = count := by
  rw [bitsOf, List.length_map, List.length_range]

/-- `dap_frame_t`; `len` is the length of the bits. -/
structure DapFrame where
  bit : List Bool
  cmd : Nat
  lenField : Nat
  data : Nat
  dataBits : Nat
  deriving DecidableEq, Repr

/-- `DAP_FRAME_MAX_BITS`. -/
def dapFrameMaxBits : Nat := 1 + 5 + 6 + 63 + 6 + 1

/-- `dap_frame_put`. -/
def dapFramePut (f : DapFrame) (value nbits : Nat) : Option DapFrame :=
  if f.bit.length + nbits > dapFrameMaxBits then none
  else some { f with bit := f.bit ++ bitsOf value nbits }

/-- A bit of the payload, already in order. -/
def DapFrame.append (f : DapFrame) (bit : Bool) : Option DapFrame :=
  if f.bit.length ≥ dapFrameMaxBits then none else some { f with bit := f.bit ++ [bit] }

/-- `dap_frame_build`. -/
def dapFrameBuild (cmd lenField data dataBits : Nat) : Option DapFrame :=
  if cmd > 0x1F ∨ lenField > 63 ∨ dataBits > 63 then none
  else
    let payload := bitsOf cmd 5 ++ bitsOf lenField 6 ++ bitsOf data dataBits
    let crc := (dapCrc6 payload).toNat
    do
      let f ← dapFramePut ⟨[], cmd, lenField, data, dataBits⟩ 1 1
      let f ← payload.foldlM DapFrame.append f
      let f ← dapFramePut f crc 6
      dapFramePut f 0 1

/-- Bits that are put into a word from a place on, lowest first. -/
def putBits (word : Nat) (place : Nat) : List Bool → Nat
  | [] => word
  | bit :: rest => putBits (word ||| bit.toNat <<< place) (place + 1) rest

/-- `dap_frame_word`: the first 64 bits. -/
def dapFrameWord (f : DapFrame) : Nat := putBits 0 0 (f.bit.take 64)

/-- `raw_frame`: the word and its bits, when they fit the DATA register. -/
def rawFrame (cmd lenField data dataBits : Nat) (wide : Bool) : Option (Nat × Nat) :=
  if dataBits > 63 then none
  else
    let payload := bitsOf cmd 5 ++ (if wide then [false] else []) ++ bitsOf lenField 6 ++
      bitsOf data dataBits ++ if wide = true ∧ dataBits % 2 = 1 then [false] else []
    let edge := if wide then 2 else 1
    let total := edge + payload.length + 6 + edge
    if total > 63 then none
    else
      let crc := dapCrc6 payload &&& 0x3F
      let w := putBits (if wide then 3 else 1) edge payload
      some (w ||| crc.toNat <<< (edge + payload.length), total)

/-! ## The bits of the words -/

variable {cmd lenField data dataBits : Nat}

theorem testBit_bit (bit : Bool) (i : Nat) : bit.toNat.testBit i = (decide (i = 0) && bit) := by
  cases i with
  | zero => cases bit <;> rfl
  | succ i => cases bit <;> simp [Nat.testBit_succ]

theorem testBit_putBits (bits : List Bool) (word place i : Nat) :
    (putBits word place bits).testBit i =
      (word.testBit i || (decide (place ≤ i) && bits.getD (i - place) false)) := by
  induction bits generalizing word place with
  | nil => simp [putBits]
  | cons bit rest inductionHypothesis =>
      rw [putBits, inductionHypothesis, Nat.testBit_or, Nat.testBit_shiftLeft, testBit_bit,
        Bool.or_assoc]
      congr 1
      rcases Nat.lt_trichotomy i place with below | same | above
      · have outside : ¬place ≤ i := by omega
        have outside' : ¬place + 1 ≤ i := by omega
        simp [outside, outside']
      · simp [same]
      · obtain ⟨k, rfl⟩ : ∃ k, i = place + (k + 1) := ⟨i - place - 1, by omega⟩
        have next : place + (k + 1) - (place + 1) = k := by omega
        have inside : place + 1 ≤ place + (k + 1) := by omega
        simp [next, inside]

theorem foldlM_append (bits : List Bool) (f : DapFrame)
    (fits : f.bit.length + bits.length ≤ dapFrameMaxBits) :
    bits.foldlM DapFrame.append f = some { f with bit := f.bit ++ bits } := by
  induction bits generalizing f with
  | nil => rw [List.foldlM_nil, List.append_nil]; rfl
  | cons bit rest inductionHypothesis =>
      rw [List.length_cons] at fits
      have room : ¬f.bit.length ≥ dapFrameMaxBits := by omega
      rw [List.foldlM_cons, DapFrame.append, if_neg room]
      change rest.foldlM DapFrame.append { f with bit := f.bit ++ [bit] } = _
      rw [inductionHypothesis]
      · rw [List.append_assoc]
        rfl
      · rw [List.length_append, List.length_singleton]
        omega

/-- A frame fits the list: the start bit, the fields, the CRC and a zero. -/
theorem dapFrameBuild_eq (cmd_le : cmd ≤ 31) (len_le : lenField ≤ 63) (bits_le : dataBits ≤ 63) :
    dapFrameBuild cmd lenField data dataBits =
      some ⟨true :: (bitsOf cmd 5 ++ bitsOf lenField 6 ++ bitsOf data dataBits) ++
        bitsOf (dapCrc6 (bitsOf cmd 5 ++ bitsOf lenField 6 ++ bitsOf data dataBits)).toNat 6 ++
        [false], cmd, lenField, data, dataBits⟩ := by
  have valid : ¬(cmd > 0x1F ∨ lenField > 63 ∨ dataBits > 63) := by omega
  have most : dapFrameMaxBits = 82 := rfl
  rw [dapFrameBuild, if_neg valid]
  generalize payload_eq : bitsOf cmd 5 ++ bitsOf lenField 6 ++ bitsOf data dataBits = payload
  have length : payload.length = 11 + dataBits := by
    rw [← payload_eq]
    simp only [List.length_append, length_bitsOf]
  have put (f : DapFrame) (value nbits : Nat) (fits : f.bit.length + nbits ≤ 82) :
      dapFramePut f value nbits = some { f with bit := f.bit ++ bitsOf value nbits } := by
    rw [dapFramePut, if_neg (by omega)]
  dsimp only
  rw [put ⟨[], cmd, lenField, data, dataBits⟩ 1 1 (Nat.le_add_left 1 81)]
  change (payload.foldlM DapFrame.append ⟨[true], cmd, lenField, data, dataBits⟩).bind _ = _
  rw [foldlM_append payload _ (by simp only [List.length_singleton]; omega), Option.bind_some,
    put _ _ _ (by simp [length]; omega)]
  change dapFramePut _ 0 1 = _
  rw [put _ _ _ (by simp [length]; omega)]
  rfl

theorem dapCrc6_masked (bits : List Bool) : dapCrc6 bits &&& 0x3F = dapCrc6 bits := by
  rw [dapCrc6, BitVec.and_assoc]
  rfl

theorem getD_bitsOf (value count i : Nat) :
    (bitsOf value count).getD i false = (decide (i < count) && value.testBit i) := by
  rw [bitsOf, List.getD_eq_getElem?_getD, List.getElem?_map]
  by_cases inside : i < count
  · simp [inside]
  · simp [inside]

theorem getD_append (xs ys : List Bool) (i : Nat) :
    (xs ++ ys).getD i false =
      if i < xs.length then xs.getD i false else ys.getD (i - xs.length) false := by
  split
  · next inside => exact List.getD_append _ _ _ _ inside
  · next outside => exact List.getD_append_right _ _ _ _ (Nat.not_lt.mp outside)

theorem testBit_lt {value count i : Nat} (value_lt : value < 2 ^ count) :
    (decide (i < count) && value.testBit i) = value.testBit i := by
  by_cases inside : i < count
  · simp [inside]
  · have power : 2 ^ count ≤ 2 ^ i := Nat.pow_le_pow_right (by omega) (by omega)
    simp [inside, Nat.testBit_lt_two_pow (lt_of_lt_of_le value_lt power)]

theorem dapCrc6_lt (bits : List Bool) : (dapCrc6 bits).toNat < 2 ^ 6 := by
  rw [dapCrc6_eq, BitVec.toNat_setWidth_of_le (by omega)]
  exact BitVec.isLt _

/-- A frame as a list: its start, the payload, the CRC and its end. -/
def frameBits (edge : Nat) (payload : List Bool) : List Bool :=
  List.replicate edge true ++ payload ++ bitsOf (dapCrc6 payload).toNat 6 ++
    List.replicate edge false

@[simp] theorem length_frameBits (edge : Nat) (payload : List Bool) :
    (frameBits edge payload).length = edge + payload.length + 6 + edge := by
  simp only [frameBits, List.length_append, List.length_replicate, length_bitsOf]

/-- The bits of the word that `raw_frame` makes. -/
theorem testBit_rawFrame (edge : Nat) (payload : List Bool) (i : Nat) :
    (putBits (2 ^ edge - 1) edge payload |||
      (dapCrc6 payload &&& 0x3F).toNat <<< (edge + payload.length)).testBit i =
      (frameBits edge payload).getD i false := by
  rw [dapCrc6_masked, Nat.testBit_or, Nat.testBit_shiftLeft, testBit_putBits,
    Nat.testBit_two_pow_sub_one, frameBits]
  have crc_lt := dapCrc6_lt payload
  generalize (dapCrc6 payload).toNat = crc at crc_lt
  have start (k : Nat) : (List.replicate edge true).getD k false = decide (k < edge) := by
    rw [List.getD_eq_getElem?_getD, List.getElem?_replicate]
    split <;> simp_all
  have ending (k : Nat) : (List.replicate edge false).getD k false = false := by
    rw [List.getD_eq_getElem?_getD, List.getElem?_replicate]
    split <;> rfl
  simp only [getD_append, getD_bitsOf, start, ending, List.length_append, List.length_replicate,
    length_bitsOf]
  rcases Nat.lt_or_ge i edge with starting | started
  · have past : ¬edge + payload.length ≤ i := by omega
    have before : i < edge + payload.length + 6 := by omega
    have before' : i < edge + payload.length := by omega
    simp [starting, past, before, before', Nat.not_le.mpr starting]
  rcases Nat.lt_or_ge i (edge + payload.length) with paying | paid
  · have before : i < edge + payload.length + 6 := by omega
    simp [started, paying, before, Nat.not_lt.mpr started, Nat.not_le.mpr paying]
  · have none : payload[i - edge]?.getD false = false := by
      rw [List.getElem?_eq_none (by omega), Option.getD_none]
    have bits := testBit_lt (i := i - (edge + payload.length)) crc_lt
    rcases Nat.lt_or_ge i (edge + payload.length + 6) with closing | closed
    · have place : i - (edge + payload.length) < 6 := by omega
      simp [started, paid, closing, none, place, Nat.not_lt.mpr started, Nat.not_lt.mpr paid]
    · have place : ¬i - (edge + payload.length) < 6 := by omega
      simp only [place, decide_false, Bool.false_and] at bits
      simp [started, paid, none, ← bits, Nat.not_lt.mpr started, Nat.not_lt.mpr closed]

/-- The narrow word is that of the listed bits, whenever they fit. -/
theorem rawFrame_narrow (f : DapFrame) (built : dapFrameBuild cmd lenField data dataBits = some f) :
    rawFrame cmd lenField data dataBits false =
      if f.bit.length ≤ 63 then some (dapFrameWord f, f.bit.length) else none := by
  by_cases valid : cmd > 0x1F ∨ lenField > 63 ∨ dataBits > 63
  · rw [dapFrameBuild, if_pos valid] at built
    cases built
  · rw [not_or, not_or, Nat.not_lt, Nat.not_lt, Nat.not_lt] at valid
    obtain ⟨cmd_le, len_le, bits_le⟩ := valid
    rw [dapFrameBuild_eq cmd_le len_le bits_le, Option.some.injEq] at built
    have narrow : ¬dataBits > 63 := by omega
    rw [rawFrame, if_neg narrow, ← built]
    simp only [Bool.false_eq_true, false_and, if_false, List.append_nil]
    generalize bitsOf cmd 5 ++ bitsOf lenField 6 ++ bitsOf data dataBits = payload
    have total : (true :: payload ++ bitsOf (dapCrc6 payload).toNat 6 ++ [false]).length =
        1 + payload.length + 6 + 1 := by
      simp only [List.length_append, List.length_cons, length_bitsOf, List.length_nil]
      omega
    rw [total]
    by_cases fits : 1 + payload.length + 6 + 1 ≤ 63
    · rw [if_neg (by omega), if_pos fits, Option.some.injEq, Prod.mk.injEq]
      refine ⟨?_, rfl⟩
      rw [dapFrameWord, List.take_of_length_le (le_of_eq_of_le total (by omega))]
      apply Nat.eq_of_testBit_eq
      intro i
      refine (testBit_rawFrame 1 payload i).trans ?_
      rw [testBit_putBits, Nat.zero_testBit, Bool.false_or]
      simp only [Nat.zero_le, decide_true, Bool.true_and, Nat.sub_zero]
      rfl
    · rw [if_pos (by omega), if_neg fits]

/-- The wide word has the bits of the padded frame. -/
theorem rawFrame_wide {word total : Nat}
    (raw : rawFrame cmd lenField data dataBits true = some (word, total)) :
    let bits := frameBits 2 (bitsOf cmd 5 ++ [false] ++ bitsOf lenField 6 ++
      bitsOf data dataBits ++ if dataBits % 2 = 1 then [false] else [])
    (∀ i, word.testBit i = bits.getD i false) ∧ total = bits.length := by
  have fits : ¬dataBits > 63 := by
    intro long
    rw [rawFrame, if_pos long] at raw
    cases raw
  rw [rawFrame, if_neg fits] at raw
  simp only [if_true, true_and] at raw
  generalize bitsOf cmd 5 ++ [false] ++ bitsOf lenField 6 ++ bitsOf data dataBits ++
    (if dataBits % 2 = 1 then [false] else []) = payload at raw ⊢
  split at raw
  · cases raw
  · cases raw
    exact ⟨testBit_rawFrame 2 payload, (length_frameBits 2 payload).symm⟩

end Fpga
end TriCoreDap
