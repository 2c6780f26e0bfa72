import TriCoreDap.Web.Lz4RoundTrip

/-!
# The frames of the trace stream

`trace_ws_task` sends each chunk that it reads with a header, packed or stored,
and the host's `zframe.unframe` takes the chunk out again.
-/

namespace TriCoreDap
namespace Web

def traceWsChunk : Nat := 16384

/-- The bytes of `"DTRZ"`. -/
def zmagic : List Byte := [0x44, 0x54, 0x52, 0x5A]

/-- The top bit of the length. -/
def traceWsStored : Nat := 0x80000000

/-- The frame of a chunk where the client takes compressed frames; `pack` says
whether the estimates have it compressed. -/
def frame (pack : Bool) (chunk : List Byte) : List Byte :=
  let packed := if pack then lz4FastCompress chunk (chunk.length - 1) else none
  match packed with
  | some block => zmagic ++ wordBytes chunk.length ++ block
  | none => zmagic ++ wordBytes (chunk.length ||| traceWsStored) ++ chunk

/-- `zframe.unframe`, with the host's block decoder. -/
def unframe
    (decompress : List Byte → Nat → Option (List Byte))
    (frame : List Byte) : Option (List Byte) :=
  if frame.take 4 ≠ zmagic ∨ frame.length < 8 then some frame
  else
    let n := le32 frame 4
    if n &&& traceWsStored ≠ 0 then
      some ((frame.drop 8).take (n &&& (2 ^ 32 - 1 - traceWsStored)))
    else decompress (frame.drop 8) n

section Stored

variable {length : Nat}

theorem and_stored (short : length < traceWsStored) : length &&& traceWsStored = 0 := by
  apply Nat.eq_of_testBit_eq
  intro i
  have stored : traceWsStored = 2 ^ 31 := rfl
  rw [stored] at short ⊢
  rw [Nat.testBit_and, Nat.testBit_two_pow, Nat.zero_testBit]
  by_cases top : 31 = i
  · rw [← top, Nat.testBit_lt_two_pow short, Bool.false_and]
  · rw [decide_eq_false top, Bool.and_false]

theorem or_stored (short : length < traceWsStored) :
    length ||| traceWsStored = traceWsStored + length := by
  have stored : traceWsStored = 2 ^ 31 := rfl
  rw [stored] at short ⊢
  rw [Nat.or_comm]
  exact (Nat.two_pow_add_eq_or_of_lt short 1).symm

/-- The bit that says so is there, and the length is the rest. -/
theorem or_stored_and (short : length < traceWsStored) :
    (length ||| traceWsStored) &&& traceWsStored ≠ 0 ∧
      (length ||| traceWsStored) &&& (2 ^ 32 - 1 - traceWsStored) = length := by
  constructor
  · rw [Nat.and_or_distrib_right, and_stored short, Nat.and_self, Nat.zero_or]
    decide
  · have mask : 2 ^ 32 - 1 - traceWsStored = 2 ^ 31 - 1 := rfl
    have stored : traceWsStored = 2 ^ 31 := rfl
    rw [or_stored short, mask, Nat.and_two_pow_sub_one_eq_mod, stored, Nat.add_mod_left]
    rw [stored] at short
    exact Nat.mod_eq_of_lt short

end Stored

/-- A header is taken off again. -/
theorem unframe_header
    (decompress : List Byte → Nat → Option (List Byte))
    {n : Nat}
    (bound : n < 2 ^ 32)
    (data : List Byte) :
    unframe decompress (zmagic ++ wordBytes n ++ data) =
      if n &&& traceWsStored ≠ 0 then some (data.take (n &&& (2 ^ 32 - 1 - traceWsStored)))
      else decompress data n := by
  have length_header : (zmagic ++ wordBytes n).length = 8 := rfl
  have magic_eq : (zmagic ++ wordBytes n ++ data).take 4 = zmagic := rfl
  have word_eq : le32 (zmagic ++ wordBytes n ++ data) 4 = n := by
    change (byteOf n 0).toNat + (byteOf n 1).toNat <<< 8 + (byteOf n 2).toNat <<< 16 +
      (byteOf n 3).toNat <<< 24 = n
    simp only [byteOf, UInt8.toNat_ofNat']
    omega
  have data_eq : (zmagic ++ wordBytes n ++ data).drop 8 = data := rfl
  rw [unframe, if_neg, word_eq, data_eq]
  rw [not_or, not_not, magic_eq, List.length_append, length_header]
  exact ⟨rfl, by omega⟩

theorem unframe_frame
    {decompress : List Byte → Nat → Option (List Byte)}
    (standard : Lz4.Standard decompress)
    (pack : Bool)
    {chunk : List Byte}
    (fits : chunk.length ≤ traceWsChunk) :
    unframe decompress (frame pack chunk) = some chunk := by
  have short : chunk.length < traceWsStored := Nat.lt_of_le_of_lt fits (by decide)
  unfold frame
  dsimp only
  split
  · next block packed =>
    have compressed : lz4FastCompress chunk (chunk.length - 1) = some block := by
      cases pack
      · cases packed
      · exact packed
    obtain ⟨sequences, anchor, parsed, -, endRules, -⟩ := compress_parse compressed
    rw [unframe_header decompress (Nat.lt_trans short (by decide)), and_stored short,
      if_neg (fun absurd => absurd rfl)]
    exact standard _ _ _ _ _ parsed endRules (compress_decode compressed) (Nat.le_refl _)
  · obtain ⟨isStored, length_eq⟩ := or_stored_and short
    have bound : chunk.length ||| traceWsStored < 2 ^ 32 :=
      Nat.or_lt_two_pow (Nat.lt_trans short (by decide)) (by decide)
    rw [unframe_header decompress bound, if_pos isStored, length_eq, List.take_length]

/-- A block decodes to its source and keeps the rules of the format; a frame carries
its chunk, packed or stored. -/
theorem lz4_round_trip :
    (∀ src cap block, lz4FastCompress src cap = some block →
      Lz4.decode block = some src ∧
        ∃ sequences last, Lz4.parse block = some (sequences, last) ∧
          Lz4.EndRules sequences last src.length) ∧
    ∀ decompress, Lz4.Standard decompress →
      ∀ pack chunk, chunk.length ≤ traceWsChunk →
        unframe decompress (frame pack chunk) = some chunk := by
  constructor
  · intro src cap block packed
    obtain ⟨sequences, anchor, parsed, -, endRules, -⟩ := compress_parse packed
    exact ⟨compress_decode packed, sequences, _, parsed, endRules⟩
  · intro decompress standard pack chunk fits
    exact unframe_frame standard pack fits

/-- Twenty equal bytes: one literal, a match over its own copy, and five literals. -/
def sevens : List Byte := List.replicate 20 7

theorem lz4_round_trip_sevens :
    Lz4.decode [0x1A, 7, 1, 0, 0x50, 7, 7, 7, 7, 7] = some sevens ∧
      unframe Lz4.decompress (frame true sevens) = some sevens :=
  ⟨(lz4_round_trip.1 sevens 19 _ (by decide +kernel)).1,
    lz4_round_trip.2 _ Lz4.standard_decompress true sevens (by decide)⟩

end Web
end TriCoreDap
