import TriCoreDap.Web.Lz4Fast

/-!
# The compressor's blocks

What has been written at each turn of the search are sequences of the block
format that make the source up to `anchor`.  The hash table has no part in it:
whatever an entry is, a match is taken only over equal bytes.
-/

namespace TriCoreDap
namespace Web

open Lz4 (Sequence lengthField lengthBytes lastBytes perform produced MatchesKeep EndRules)

/-! ## Lengths and tokens -/

theorem putLen_eq (len : Nat) :
    putLen len = List.replicate (len / 255) 255 ++ [UInt8.ofNat (len % 255)] := by
  induction len using putLen.induct with
  | case1 len long inductionHypothesis =>
      have split : len / 255 = (len - 255) / 255 + 1 := by omega
      have rest : len % 255 = (len - 255) % 255 := by omega
      rw [putLen, if_pos long, inductionHypothesis, split, rest, List.replicate_succ,
        List.cons_append]
  | case2 len short =>
      rw [putLen, if_neg short, Nat.div_eq_of_lt (by omega), Nat.mod_eq_of_lt (by omega)]
      rfl

theorem putLiteralLen_eq (lit : Nat) :
    putLiteralLen lit = UInt8.ofNat (lengthField lit * 16) :: lengthBytes lit := by
  unfold putLiteralLen lengthField lengthBytes
  by_cases long : lit ≥ 15
  · rw [if_pos long, if_neg (by omega), putLen_eq, Nat.min_eq_right long]
    rfl
  · rw [if_neg long, if_pos (by omega), Nat.min_eq_left (by omega), Nat.shiftLeft_eq]

theorem token_or (high low : Nat) (high_lt : high < 16) (low_lt : low < 16) :
    UInt8.ofNat (high * 16) ||| UInt8.ofNat low = UInt8.ofNat (high * 16 + low) := by
  have all : ∀ high low : Fin 16, UInt8.ofNat (high * 16) ||| UInt8.ofNat low =
      UInt8.ofNat (high * 16 + low) := by
    decide
  exact all ⟨high, high_lt⟩ ⟨low, low_lt⟩

theorem modify_token (front : List Byte) (token : Byte) (rest : List Byte) (f : Byte → Byte) :
    (front ++ token :: rest).modify front.length f = front ++ f token :: rest := by
  induction front with
  | nil => rfl
  | cons byte front inductionHypothesis =>
      rw [List.cons_append, List.length_cons, List.modify_succ_cons, inductionHypothesis,
        List.cons_append]

theorem modify_append_left
    {front : List Byte}
    {index : Nat}
    (inside : index < front.length)
    (rest : List Byte)
    (f : Byte → Byte) :
    (front ++ rest).modify index f = front.modify index f ++ rest := by
  induction front generalizing index with
  | nil => exact absurd inside (Nat.not_lt_zero index)
  | cons byte front inductionHypothesis =>
      cases index with
      | zero => rfl
      | succ index =>
          rw [List.cons_append, List.modify_succ_cons, List.modify_succ_cons,
            inductionHypothesis (Nat.lt_of_succ_lt_succ inside), List.cons_append]

theorem length_lengthBytes_le (length : Nat) : (lengthBytes length).length ≤ length / 255 + 1 := by
  unfold lengthBytes
  split
  · exact Nat.zero_le _
  · rw [List.length_append, List.length_replicate, List.length_singleton]
    omega

/-- What is written for a match is its sequence, and it fits. -/
theorem putSequence_eq
    {src op next : List Byte}
    {cap anchor ip ref mp : Nat}
    (inside : ip ≤ src.length)
    (after : anchor ≤ ip)
    (near : ip - ref < 2 ^ 16)
    (put : putSequence src cap op anchor ip ref mp = some next) :
    next = op ++ Sequence.bytes ⟨(src.drop anchor).take (ip - anchor), ip - ref, mp - ip⟩ ∧
      next.length ≤ cap := by
  have length_literals : ((src.drop anchor).take (ip - anchor)).length = ip - anchor := by
    rw [List.length_take, List.length_drop]
    omega
  unfold putSequence at put
  dsimp only at put
  split at put
  · cases put
  · next room =>
    have written :
        next = op ++ Sequence.bytes ⟨(src.drop anchor).take (ip - anchor), ip - ref, mp - ip⟩ := by
      have tokened (offset : List Byte) :
          op ++ putLiteralLen (ip - anchor) ++ (src.drop anchor).take (ip - anchor) ++ offset =
            op ++ UInt8.ofNat (lengthField (ip - anchor) * 16) ::
              (lengthBytes (ip - anchor) ++ (src.drop anchor).take (ip - anchor) ++ offset) := by
        rw [putLiteralLen_eq]
        simp
      have literals_lt := Lz4.lengthField_lt (ip - anchor)
      rw [tokened, modify_token, modify_token, Nat.mod_eq_of_lt near] at put
      rw [Sequence.bytes, length_literals]
      dsimp only
      split at put
      · next more =>
        have field_eq : lengthField (mp - ip - Lz4.minMatch) = 15 := Nat.min_eq_right more
        have bytes_eq : lengthBytes (mp - ip - Lz4.minMatch) =
            putLen (mp - ip - Lz4.minMatch - 15) := by
          rw [lengthBytes, if_neg (by omega), putLen_eq]
        have token_eq := token_or _ 15 literals_lt (by decide)
        rw [field_eq, bytes_eq, ← token_eq, ← Option.some.inj put]
        simp
      · next less =>
        have field_eq : lengthField (mp - ip - Lz4.minMatch) = mp - ip - Lz4.minMatch :=
          Nat.min_eq_left (by omega)
        have bytes_eq : lengthBytes (mp - ip - Lz4.minMatch) = [] := by
          rw [lengthBytes, if_pos (by omega)]
        have token_eq := token_or _ (mp - ip - Lz4.minMatch) literals_lt (by omega)
        rw [field_eq, bytes_eq, ← token_eq, ← Option.some.inj put]
        simp
    refine ⟨written, ?_⟩
    have literal_le := length_lengthBytes_le (ip - anchor)
    have match_le := length_lengthBytes_le (mp - ip - Lz4.minMatch)
    rw [written, List.length_append, Sequence.bytes, List.length_cons]
    simp only [List.length_append, List.length_cons, List.length_nil, length_literals]
    omega

/-! ## Matches -/

section Matching

variable {src : List Byte}

/-- The bytes from one place on are those from the other on. -/
def Same (src : List Byte) (left right count : Nat) : Prop :=
  ∀ index < count, src.getD (left + index) 0 = src.getD (right + index) 0

/-- Equal words are four equal bytes. -/
theorem same_of_le32_eq (equal : le32 src left = le32 src right) :
    Same src left right Lz4.minMatch := by
  intro index before
  rw [← byteOf_le32 src left before, equal, byteOf_le32 src right before]

theorem back_spec
    (anchor : Nat)
    {ip ref count : Nat}
    (same : Same src ref ip count)
    (before : ref < ip) :
    ∃ steps, (back src anchor ip ref).1 + steps = ip ∧ (back src anchor ip ref).2 + steps = ref ∧
      (anchor ≤ ip → anchor ≤ (back src anchor ip ref).1) ∧
      Same src (back src anchor ip ref).2 (back src anchor ip ref).1 (steps + count) := by
  induction ref generalizing ip count with
  | zero => exact ⟨0, rfl, rfl, id, by simpa [back] using same⟩
  | succ ref inductionHypothesis =>
      rw [back]
      split
      · next condition =>
        have longer : Same src ref (ip - 1) (count + 1) := by
          intro index within
          cases index with
          | zero => exact condition.2.symm
          | succ index =>
              have next := same index (Nat.lt_of_succ_lt_succ within)
              rwa [show ref + (index + 1) = ref + 1 + index by omega,
                show ip - 1 + (index + 1) = ip + index by omega]
        obtain ⟨steps, ip_eq, ref_eq, after, equal⟩ := inductionHypothesis longer (by omega)
        refine ⟨steps + 1, by omega, by omega, fun _ => after (by omega), ?_⟩
        rwa [Nat.add_assoc, Nat.add_comm 1]
      · exact ⟨0, rfl, rfl, id, by simpa using same⟩

theorem forward_spec (src : List Byte) (room mp rp : Nat) :
    mp ≤ forward src room mp rp ∧ forward src room mp rp ≤ mp + room ∧
      Same src rp mp (forward src room mp rp - mp) := by
  induction room generalizing mp rp with
  | zero => exact ⟨Nat.le_refl mp, Nat.le_refl mp, fun _ before => by simp [forward] at before⟩
  | succ room inductionHypothesis =>
      rw [forward]
      split
      · next equal =>
        obtain ⟨further, within, same⟩ := inductionHypothesis (mp + 1) (rp + 1)
        refine ⟨by omega, by omega, ?_⟩
        intro index before
        cases index with
        | zero => exact equal.symm
        | succ index =>
            have next := same index (by omega)
            rwa [Nat.add_assoc, Nat.add_assoc, Nat.add_comm 1] at next
      · exact ⟨Nat.le_refl mp, Nat.le_add_right _ _, fun _ before => by simp at before⟩

/-- Forward goes at least as far as the bytes are known to be equal. -/
theorem forward_ge
    {room mp rp count : Nat}
    (same : Same src rp mp count)
    (within : count ≤ room) : mp + count ≤ forward src room mp rp := by
  induction count generalizing room mp rp with
  | zero => exact (forward_spec src room mp rp).1
  | succ count inductionHypothesis =>
      obtain ⟨room, rfl⟩ := Nat.exists_eq_succ_of_ne_zero (Nat.ne_zero_of_lt within)
      have equal : src.getD mp 0 = src.getD rp 0 := (same 0 (Nat.succ_pos count)).symm
      have rest : Same src (rp + 1) (mp + 1) count := by
        intro index before
        have next := same (index + 1) (Nat.succ_lt_succ before)
        rwa [Nat.add_comm index, ← Nat.add_assoc, ← Nat.add_assoc] at next
      rw [forward, if_pos equal]
      have further := inductionHypothesis rest (Nat.le_of_succ_le_succ within)
      omega

/-- A match from `start` to `mp` that was found at `ip`. -/
structure Matched (src : List Byte) (anchor ip : Nat) (start : Nat × Nat) (mp : Nat) : Prop where
  after : anchor ≤ start.1
  start_le : start.1 ≤ ip
  back_lt : start.2 < start.1
  past : ip + Lz4.minMatch ≤ mp
  lastFive : mp + lastLiterals ≤ src.length
  same : Same src start.2 start.1 (mp - start.1)

/-- Back and forward from four equal bytes. -/
theorem matched
    {anchor ip ref : Nat}
    (early : ip < src.length - mfLimit)
    (after : anchor ≤ ip)
    (before : ref < ip)
    (equal : le32 src ref = le32 src ip) :
    let start := back src anchor ip ref
    Matched src anchor ip start
      (forward src (src.length - lastLiterals - (start.1 + Lz4.minMatch))
        (start.1 + Lz4.minMatch) (start.2 + Lz4.minMatch)) := by
  intro start
  unfold mfLimit at early
  obtain ⟨steps, ip_eq, ref_eq, later, same⟩ :=
    back_spec anchor (same_of_le32_eq equal) before
  specialize later after
  change start.1 + steps = ip at ip_eq
  change start.2 + steps = ref at ref_eq
  change anchor ≤ start.1 at later
  change Same src start.2 start.1 (steps + Lz4.minMatch) at same
  set room := src.length - lastLiterals - (start.1 + Lz4.minMatch) with room_eq
  obtain ⟨further, within, ahead⟩ :=
    forward_spec src room (start.1 + Lz4.minMatch) (start.2 + Lz4.minMatch)
  have past : start.1 + Lz4.minMatch + steps ≤
      forward src room (start.1 + Lz4.minMatch) (start.2 + Lz4.minMatch) := by
    apply forward_ge
    · intro index inSteps
      rw [Nat.add_assoc, Nat.add_assoc]
      exact same _ (by omega)
    · unfold lastLiterals at room_eq
      unfold Lz4.minMatch at *
      omega
  refine ⟨later, by omega, by omega, by omega, ?_, ?_⟩
  · unfold lastLiterals at *
    unfold Lz4.minMatch at *
    omega
  · intro index inMatch
    by_cases first : index < Lz4.minMatch
    · exact same index (by omega)
    · have later := ahead (index - Lz4.minMatch) (by omega)
      rwa [Nat.add_assoc, Nat.add_assoc, Nat.add_sub_cancel' (by omega)] at later

end Matching

/-! ## The search -/

/-- The output is the sequences that make the source up to `anchor`. -/
structure Search.Kept (src : List Byte) (cap : Nat) (search : Search)
    (sequences : List Sequence) : Prop where
  op_eq : search.op = sequences.flatMap Sequence.bytes
  op_le : search.op.length ≤ cap
  fit : ∀ sequence ∈ sequences, sequence.Fits
  performed : sequences.foldlM perform [] = some (src.take search.anchor)
  produced_eq : produced sequences = search.anchor
  matchesKeep : MatchesKeep src.length 0 sequences
  anchor_le : search.anchor ≤ search.ip
  lastFive : sequences = [] ∨ search.anchor + lastLiterals ≤ src.length

namespace Search

variable {src : List Byte} {cap : Nat} {search next : Search} {sequences : List Sequence}

theorem kept_first (src : List Byte) (cap : Nat) : first.Kept src cap [] where
  op_eq := rfl
  op_le := Nat.zero_le cap
  fit := nofun
  performed := rfl
  produced_eq := rfl
  matchesKeep := trivial
  anchor_le := Nat.zero_le 1
  lastFive := Or.inl rfl

/-- Literals from `anchor` on and a match over equal bytes go on with the source. -/
theorem perform_take
    {anchor ip ref mp : Nat}
    (after : anchor ≤ ip)
    (before : ref < ip)
    (further : ip ≤ mp)
    (inside : mp ≤ src.length)
    (same : Same src ref ip (mp - ip)) :
    perform (src.take anchor) ⟨(src.drop anchor).take (ip - anchor), ip - ref, mp - ip⟩ =
      some (src.take mp) := by
  have literals : src.take anchor ++ (src.drop anchor).take (ip - anchor) = src.take ip := by
    rw [← List.take_add, Nat.add_sub_cancel' after]
  have length_take : (src.take ip).length = ip := List.length_take_of_le (by omega)
  rw [perform]
  dsimp only
  rw [literals, length_take, if_pos (by omega), Lz4.copyMatch_take (by omega) (by omega) (by omega),
    Nat.add_sub_cancel' further]
  rwa [Nat.sub_sub_self (Nat.le_of_lt before)]

/-- A turn keeps the invariant and goes forward. -/
theorem kept_turn
    (short : src.length < 65536)
    (kept : search.Kept src cap sequences)
    (early : search.ip < src.length - mfLimit)
    (turned : search.turn src cap = some next) :
    (∃ sequences, next.Kept src cap sequences) ∧ search.ip < next.ip := by
  rw [turn] at turned
  dsimp only at turned
  split at turned
  · -- no match here
    cases turned
    have anchor_le := kept.anchor_le
    refine ⟨⟨sequences, { kept with anchor_le := ?_ }⟩, ?_⟩
    · change search.anchor ≤ search.ip + _
      omega
    · change search.ip < search.ip + _
      omega
  · next found =>
    rw [not_or, not_or, not_not, not_not, Nat.not_le] at found
    obtain ⟨before, -, equal⟩ := found
    obtain ⟨op, put, rfl⟩ := Option.map_eq_some_iff.mp turned
    have found := matched early kept.anchor_le before equal
    dsimp only at found
    set start := back src search.anchor search.ip (search.table (hash4 (le32 src search.ip)))
    set mp := forward src (src.length - lastLiterals - (start.1 + Lz4.minMatch))
      (start.1 + Lz4.minMatch) (start.2 + Lz4.minMatch)
    obtain ⟨after, start_le, back_lt, past, end_le, whole⟩ := found
    unfold mfLimit at early
    unfold lastLiterals at end_le
    obtain ⟨op_eq, op_le⟩ := putSequence_eq (by omega) after (by omega) put
    have length_literals :
        ((src.drop search.anchor).take (start.1 - search.anchor)).length = start.1 - search.anchor := by
      rw [List.length_take, List.length_drop]
      omega
    refine ⟨⟨sequences ++ [⟨(src.drop search.anchor).take (start.1 - search.anchor), start.1 - start.2, mp - start.1⟩],
      ?_⟩, ?_⟩
    · exact
        { op_eq := by
            rw [List.flatMap_append, ← kept.op_eq, List.flatMap_singleton]
            exact op_eq
          op_le := op_le
          fit := by
            intro sequence member
            rcases List.mem_append.mp member with earlier | newest
            · exact kept.fit sequence earlier
            · rw [List.mem_singleton.mp newest]
              exact ⟨by dsimp only; omega, by dsimp only; omega⟩
          performed := by
            rw [List.foldlM_append, kept.performed]
            simp only [Option.bind_eq_bind, Option.bind_some, List.foldlM_cons, List.foldlM_nil]
            rw [perform_take after (by omega) (by omega) (by omega) whole]
            rfl
          produced_eq := by
            rw [Lz4.produced_append, kept.produced_eq, length_literals]
            dsimp only
            omega
          matchesKeep := by
            have keep := kept.matchesKeep
            have produced_eq := kept.produced_eq
            apply Lz4.matchesKeep_append keep
            · rw [length_literals]
              omega
            · dsimp only
              omega
            · rw [length_literals]
              dsimp only
              omega
          anchor_le := Nat.le_refl mp
          lastFive := Or.inr end_le }
    · change search.ip < mp
      unfold Lz4.minMatch at past
      omega

/-- As many turns as the source has bytes reach the end of the search. -/
theorem kept_run
    (short : src.length < 65536)
    {fuel : Nat}
    {final : Search}
    (kept : search.Kept src cap sequences)
    (ran : search.run src cap fuel = some final) :
    (∃ sequences, final.Kept src cap sequences) ∧
      (src.length ≤ fuel + search.ip → src.length - mfLimit ≤ final.ip) := by
  induction fuel generalizing search sequences with
  | zero =>
      cases ran
      exact ⟨⟨sequences, kept⟩, fun enough => by omega⟩
  | succ fuel inductionHypothesis =>
      rw [run] at ran
      split at ran
      · next early =>
        obtain ⟨next, turned, rest⟩ := Option.bind_eq_some_iff.mp ran
        obtain ⟨⟨sequences, nextKept⟩, forward⟩ := kept_turn short kept early turned
        obtain ⟨finalKept, finished⟩ := inductionHypothesis nextKept rest
        exact ⟨finalKept, fun enough => finished (by omega)⟩
      · next late =>
        cases ran
        exact ⟨⟨sequences, kept⟩, fun _ => Nat.not_lt.mp late⟩

end Search

/-! ## Blocks -/

/-- The search ends at its limit, not for want of turns. -/
theorem search_finished
    {src : List Byte}
    {cap : Nat}
    {final : Search}
    (short : src.length < 65536)
    (ran : Search.first.run src cap src.length = some final) :
    src.length - mfLimit ≤ final.ip :=
  (Search.kept_run short (Search.kept_first src cap) ran).2 (Nat.le_add_right _ _)

theorem compress_parse
    {src block : List Byte}
    {cap : Nat}
    (packed : lz4FastCompress src cap = some block) :
    ∃ sequences anchor,
      Lz4.parse block = some (sequences, src.drop anchor) ∧
      sequences.foldlM perform [] = some (src.take anchor) ∧
      EndRules sequences (src.drop anchor) src.length ∧ block.length ≤ cap := by
  unfold lz4FastCompress at packed
  split at packed
  · cases packed
  · next short =>
    rw [Nat.not_le] at short
    obtain ⟨search, searched, put⟩ := Option.bind_eq_some_iff.mp packed
    have kept : ∃ sequences, search.Kept src cap sequences := by
      split at searched
      · exact (Search.kept_run short (Search.kept_first src cap) searched).1
      · cases searched
        exact ⟨[], { Search.kept_first src cap with anchor_le := Nat.le_refl 0 }⟩
    obtain ⟨sequences, kept⟩ := kept
    dsimp only at put
    split at put
    · cases put
    · next room =>
      have length_drop : (src.drop search.anchor).length = src.length - search.anchor :=
        List.length_drop
      have block_eq :
          block = sequences.flatMap Sequence.bytes ++ lastBytes (src.drop search.anchor) := by
        rw [← Option.some.inj put, kept.op_eq, putLiteralLen_eq, lastBytes, length_drop]
        simp
      refine ⟨sequences, search.anchor, ?_, kept.performed, ?_, ?_⟩
      · rw [block_eq]
        exact Lz4.parse_flatMap kept.fit _
      · constructor
        · rw [length_drop]
          refine kept.lastFive.imp_right fun within => ?_
          unfold lastLiterals at within
          omega
        · exact kept.matchesKeep
      · have length_le := length_lengthBytes_le (src.length - search.anchor)
        rw [block_eq, ← kept.op_eq, List.length_append, lastBytes, List.length_cons,
          List.length_append, length_drop]
        omega

theorem compress_decode
    {src block : List Byte}
    {cap : Nat}
    (packed : lz4FastCompress src cap = some block) : Lz4.decode block = some src := by
  obtain ⟨sequences, anchor, parsed, performed, -, -⟩ := compress_parse packed
  rw [Lz4.decode, parsed, Option.bind_some]
  dsimp only
  rw [performed, Option.map_some, List.take_append_drop]

end Web
end TriCoreDap
