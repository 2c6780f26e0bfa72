import TriCoreDap.Fpga.ReplyFifo

/-!
# The reply FIFO across its clocks

Each register of a pointer's crossing holds a count of bytes that were pushed or popped
at some time.  The counts do not wrap; the registers hold them modulo twice the depth.
-/

namespace TriCoreDap
namespace Fpga

variable {AW : Nat}

/-- A count as a pointer has it. -/
abbrev ptr (AW n : Nat) : BitVec (AW + 1) := BitVec.ofNat (AW + 1) n

/-- A count as it crosses. -/
abbrev code (AW n : Nat) : BitVec (AW + 1) := Gray.encode (ptr AW n)

theorem ptr_succ (n : Nat) : ptr AW n + 1#(AW + 1) = ptr AW (n + 1) := by
  rw [ptr, ptr, BitVec.ofNat_add]

theorem slot_ptr (n : Nat) : (ptr AW n).setWidth AW = BitVec.ofNat AW n :=
  BitVec.setWidth_ofNat_of_le (Nat.le_succ AW) n

/-- Counts that are near each other differ as the counters do. -/
theorem ofNat_sub_ofNat_near
    (width : Nat)
    {m n : Nat}
    (le : m ≤ n)
    (near : n < m + 2 ^ width) :
    (BitVec.ofNat width n - BitVec.ofNat width m).toNat = n - m := by
  have split : BitVec.ofNat width n = BitVec.ofNat width (n - m) + BitVec.ofNat width m := by
    rw [← BitVec.ofNat_add, Nat.sub_add_cancel le]
  have small : n - m < 2 ^ width := by omega
  rw [split, BitVec.add_sub_cancel, BitVec.toNat_ofNat, Nat.mod_eq_of_lt small]

theorem ofNat_near_inj
    (width : Nat)
    {m n : Nat}
    (le : m ≤ n)
    (near : n < m + 2 ^ width)
    (same : BitVec.ofNat width m = BitVec.ofNat width n) : m = n := by
  have difference := ofNat_sub_ofNat_near width le near
  rw [same, BitVec.sub_self, BitVec.toNat_zero] at difference
  omega

/-- A sample of a pointer that moves on by at most one. -/
theorem settles_code
    {m n : Nat}
    {seen : BitVec (AW + 1)}
    (le : m ≤ n)
    (step : n ≤ m + 1)
    (settles : Gray.Settles (code AW m) (code AW n) seen) :
    ∃ k, m ≤ k ∧ k ≤ n ∧ seen = code AW k := by
  rcases Nat.eq_or_lt_of_le le with rfl | lt
  · exact ⟨m, le_refl m, le_refl m, Gray.settles_self settles⟩
  · obtain rfl : n = m + 1 := by omega
    have stepped : code AW (m + 1) = Gray.encode (ptr AW m + 1#(AW + 1)) := by rw [ptr_succ]
    rw [stepped] at settles
    rcases settles.eq_or_eq with old | new
    · exact ⟨m, le_refl m, Nat.le_succ m, old⟩
    · exact ⟨m + 1, Nat.le_succ m, le_refl _, new.trans stepped.symm⟩

/-! ## The two sides -/

/-- What the registers of the write side hold, with `pushed` bytes pushed: counts popped
at some time, and the count that is offered as room. -/
structure WriteSide (fifo : ReplyFifo AW) (pushed s1 s2 seen room : Nat) : Prop where
  wrBin : fifo.wrBin = ptr AW pushed
  wrGray : fifo.wrGray = code AW pushed
  rgS1 : fifo.rgS1 = code AW s1
  rgS2 : fifo.rgS2 = code AW s2
  rdBinW : fifo.rdBinW = ptr AW seen
  count : fifo.count = ptr AW room
  full : fifo.full = false
  seen_le : seen ≤ s2
  s2_le : s2 ≤ s1
  /-- The push of the last clock is not yet in `count`. -/
  room_ge : pushed ≤ seen + room + 1
  room_lt : room < 2 ^ AW
  fits : pushed < seen + 2 ^ AW

/-- The read pointer and its copies, with `popped` bytes popped. -/
structure ReadPointer (fifo : ReplyFifo AW) (popped : Nat) : Prop where
  rdBin : fifo.rdBin = ptr AW popped
  rdP1 : fifo.rdP1 = ptr AW (popped + 1)
  rdGray : fifo.rdGray = code AW popped

/-- What the registers of the read side hold, with `popped` bytes popped: counts pushed at
some time. -/
structure ReadSide (fifo : ReplyFifo AW) (popped s1 s2 seen : Nat) : Prop
    extends ReadPointer fifo popped where
  wgS1 : fifo.wgS1 = code AW s1
  wgS2 : fifo.wgS2 = code AW s2
  wrBinR : fifo.wrBinR = ptr AW seen
  popped_le : popped ≤ seen
  seen_le : seen ≤ s2
  s2_le : s2 ≤ s1

variable {fifo : ReplyFifo AW} {pushed popped s1 s2 seen room k : Nat}

theorem WriteSide.held (side : WriteSide fifo pushed s1 s2 seen room) (le : s1 ≤ pushed) :
    fifo.held.toNat = pushed - seen := by
  have depth : 2 ^ AW ≤ 2 ^ (AW + 1) := Nat.pow_le_pow_right (by decide) (Nat.le_succ AW)
  have := side.seen_le
  have := side.s2_le
  have := side.fits
  rw [ReplyFifo.held, side.wrBin, side.rdBinW]
  exact ofNat_sub_ofNat_near (AW + 1) (by omega) (by omega)

theorem ReadSide.level
    (side : ReadSide fifo popped s1 s2 seen)
    (near : seen < popped + 2 ^ AW) : fifo.level.toNat = seen - popped := by
  have depth : 2 ^ AW ≤ 2 ^ (AW + 1) := Nat.pow_le_pow_right (by decide) (Nat.le_succ AW)
  have := side.popped_le
  rw [ReplyFifo.level, side.wrBinR, side.rdBin]
  exact ofNat_sub_ofNat_near (AW + 1) (by omega) (by omega)

theorem ReadSide.rdEmpty_iff
    (side : ReadSide fifo popped s1 s2 seen)
    (near : seen < popped + 2 ^ AW) : fifo.rdEmpty = true ↔ popped = seen := by
  have depth : 2 ^ AW ≤ 2 ^ (AW + 1) := Nat.pow_le_pow_right (by decide) (Nat.le_succ AW)
  rw [ReplyFifo.rdEmpty, beq_iff_eq, side.rdBin, side.wrBinR]
  constructor
  · intro same
    exact ofNat_near_inj (AW + 1) side.popped_le (by omega) same
  · intro same
    rw [same]

/-- A fabric edge without a reset while there is room. -/
theorem WriteSide.writeEdge_eq
    (side : WriteSide fifo pushed s1 s2 seen room)
    {e : FabricEdge AW}
    (running : e.rst = false) :
    fifo.writeEdge false e = { fifo with
      mem := if e.push then Function.update fifo.mem (BitVec.ofNat AW pushed) e.din else fifo.mem
      rgS1 := e.rdGray
      rgS2 := fifo.rgS1
      rdBinW := Gray.decode fifo.rgS2
      wrBin := if e.push then ptr AW (pushed + 1) else fifo.wrBin
      wrGray := if e.push then code AW (pushed + 1) else fifo.wrGray
      count := fifo.held
      empty := fifo.wrBin == fifo.rdBinW
      full := fifo.held.getLsbD AW } := by
  simp only [ReplyFifo.writeEdge, running, side.full, Bool.not_false, Bool.and_true,
    Bool.or_self, Bool.false_eq_true, if_false, side.wrBin, slot_ptr, ptr_succ]

theorem WriteSide.writeEdge
    (side : WriteSide fifo pushed s1 s2 seen room)
    (le : s1 ≤ pushed)
    {e : FabricEdge AW}
    (running : e.rst = false)
    (allowed : e.push = true → fifo.count.toNat + 3 ≤ 2 ^ AW)
    (sample : e.rdGray = code AW k)
    (later : s1 ≤ k) :
    WriteSide (fifo.writeEdge false e) (if e.push then pushed + 1 else pushed) k s1 s2
      (pushed - seen) := by
  have depth : 2 ^ AW < 2 ^ (AW + 1) := Nat.pow_lt_pow_right (by decide) (Nat.lt_succ_self AW)
  have held := side.held le
  have seen_le := side.seen_le
  have s2_le := side.s2_le
  have room_ge := side.room_ge
  have room_lt := side.room_lt
  have fits := side.fits
  have count : fifo.count.toNat = room := by
    rw [side.count, BitVec.toNat_ofNat, Nat.mod_eq_of_lt (by omega)]
  rw [side.writeEdge_eq running]
  constructor
  case wrBin =>
    dsimp only
    split_ifs
    · rfl
    · exact side.wrBin
  case wrGray =>
    dsimp only
    split_ifs
    · rfl
    · exact side.wrGray
  case rgS1 => exact sample
  case rgS2 => exact side.rgS1
  case rdBinW =>
    dsimp only
    rw [side.rgS2, Gray.decode_encode]
  case count => exact BitVec.eq_of_toNat_eq (by rw [held, BitVec.toNat_ofNat, Nat.mod_eq_of_lt (by omega)])
  case full =>
    dsimp only
    rw [BitVec.getLsbD, held]
    exact Nat.testBit_lt_two_pow (by omega)
  case seen_le => exact s2_le
  case s2_le => exact later
  case room_ge => split_ifs <;> omega
  case room_lt => omega
  case fits =>
    split_ifs with push
    · have := allowed push
      omega
    · omega

/-- SCK pops the byte at the pointer, or leaves it. -/
theorem ReadPointer.readEdge (pointer : ReadPointer fifo popped) (sck : Option (SckEdge AW)) :
    ReadPointer (fifo.readEdge false sck)
      (if sck.any SckEdge.pop && !fifo.rdEmpty then popped + 1 else popped) := by
  have moved : ReadPointer { fifo with
      rdBin := fifo.rdP1
      rdP1 := fifo.rdP1 + 1#(AW + 1)
      rdGray := Gray.encode fifo.rdP1 } (popped + 1) := by
    refine ⟨pointer.rdP1, ?_, ?_⟩
    · dsimp only
      rw [pointer.rdP1, ptr_succ]
    · dsimp only
      rw [pointer.rdP1]
  unfold ReplyFifo.readEdge
  rw [if_neg Bool.false_ne_true]
  by_cases pops : sck.any SckEdge.pop && !fifo.rdEmpty
  · rw [if_pos pops, if_pos pops]
    cases sck with
    | none => exact moved
    | some e => exact ⟨moved.rdBin, moved.rdP1, moved.rdGray⟩
  · rw [if_neg pops, if_neg pops]
    cases sck with
    | none => exact pointer
    | some e => exact ⟨pointer.rdBin, pointer.rdP1, pointer.rdGray⟩

/-- With bytes to pop the pointer is behind the reader's view. -/
theorem ReadSide.popped_lt
    (side : ReadSide fifo popped s1 s2 seen)
    (near : seen < popped + 2 ^ AW)
    {pop : Bool}
    (pops : pop && !fifo.rdEmpty) : popped < seen := by
  have unlike : popped ≠ seen := by
    intro same
    simp [(side.rdEmpty_iff near).mpr same] at pops
  have := side.popped_le
  omega

theorem ReadSide.readEdge
    (side : ReadSide fifo popped s1 s2 seen)
    (near : seen < popped + 2 ^ AW)
    {e : SckEdge AW}
    (sample : e.wrGray = code AW k)
    (later : s1 ≤ k) :
    ReadSide (fifo.readEdge false (some e))
      (if e.pop && !fifo.rdEmpty then popped + 1 else popped) k s1 s2 where
  toReadPointer := side.toReadPointer.readEdge (some e)
  wgS1 := sample
  wgS2 := side.wgS1
  wrBinR := by
    change Gray.decode fifo.wgS2 = _
    rw [side.wgS2, Gray.decode_encode]
  popped_le := by
    have := side.popped_le
    have := side.seen_le
    split_ifs with pops
    · have := side.popped_lt near pops
      omega
    · omega
  seen_le := side.s2_le
  s2_le := later

/-! ## Both sides -/

theorem ReplyFifo.readEdge_mem (fifo : ReplyFifo AW) (clear : Bool) (sck : Option (SckEdge AW)) :
    (fifo.readEdge clear sck).mem = fifo.mem := by
  unfold ReplyFifo.readEdge
  cases sck <;> dsimp only <;> split_ifs <;> rfl

theorem ReplyFifo.writeEdge_rdGray (fifo : ReplyFifo AW) (clear : Bool) (e : FabricEdge AW) :
    (fifo.writeEdge clear e).rdGray = fifo.rdGray := by
  unfold ReplyFifo.writeEdge
  split_ifs <;> rfl

theorem ReplyFifo.writeEdge_head (fifo : ReplyFifo AW) (clear : Bool) (e : FabricEdge AW) :
    (fifo.writeEdge clear e).head = fifo.head := by
  unfold ReplyFifo.writeEdge
  split_ifs <;> rfl

/-- The write side is left alone by the read side. -/
theorem WriteSide.apart
    (side : WriteSide fifo pushed s1 s2 seen room)
    (clear : Bool)
    (sck : Option (SckEdge AW)) :
    WriteSide (fifo.readEdge clear sck) pushed s1 s2 seen room := by
  unfold ReplyFifo.readEdge
  cases sck <;> dsimp only <;> split_ifs <;>
    exact ⟨side.wrBin, side.wrGray, side.rgS1, side.rgS2, side.rdBinW, side.count, side.full,
      side.seen_le, side.s2_le, side.room_ge, side.room_lt, side.fits⟩

/-- The read side is left alone by the write side. -/
theorem ReadSide.apart
    (side : ReadSide fifo popped s1 s2 seen)
    (clear : Bool)
    (e : FabricEdge AW) : ReadSide (fifo.writeEdge clear e) popped s1 s2 seen := by
  unfold ReplyFifo.writeEdge
  split_ifs <;>
    exact ⟨⟨side.rdBin, side.rdP1, side.rdGray⟩, side.wgS1, side.wgS2, side.wrBinR,
      side.popped_le, side.seen_le, side.s2_le⟩

namespace Passage

/-- The counts that the registers of a crossing hold. -/
structure Views where
  rdWas : Nat
  rgS1 : Nat
  rgS2 : Nat
  rdBinW : Nat
  count : Nat
  wrWas : Nat
  wgS1 : Nat
  wgS2 : Nat
  wrBinR : Nat

/-- The reader's view after a moment. -/
def Views.nextSeen (v : Views) (m : Moment AW) : Nat :=
  if m.sck.isSome then v.wgS2 else v.wrBinR

/-- Four generations of each pointer, and the bytes between them in the memory. -/
structure Follows (p : Passage AW) (v : Views) : Prop where
  writes : WriteSide p.fifo p.offered.length v.rgS1 v.rgS2 v.rdBinW v.count
  reads : ReadSide p.fifo p.taken.length v.wgS1 v.wgS2 v.wrBinR
  rdWas : p.rdWas = code AW v.rdWas
  wrWas : p.wrWas = code AW v.wrWas
  rgS1_le : v.rgS1 ≤ v.rdWas
  rdWas_le : v.rdWas ≤ p.taken.length
  taken_le : p.taken.length ≤ v.rdWas + 1
  wgS1_le : v.wgS1 ≤ v.wrWas
  wrWas_le : v.wrWas ≤ p.offered.length
  offered_le : p.offered.length ≤ v.wrWas + 1
  stored : ∀ k, p.taken.length ≤ k → ∀ below : k < p.offered.length,
    p.fifo.mem (BitVec.ofNat AW k) = p.offered[k]
  in_order : p.taken <+: p.offered

/-- No view is further than the depth from any other. -/
theorem Follows.bounds {p : Passage AW} {v : Views} (follows : p.Follows v) :
    v.rdBinW ≤ p.taken.length ∧ p.taken.length ≤ v.wrBinR ∧ v.wrBinR ≤ p.offered.length ∧
      p.offered.length < v.rdBinW + 2 ^ AW := by
  have := follows.writes.seen_le
  have := follows.writes.s2_le
  have := follows.rgS1_le
  have := follows.rdWas_le
  have := follows.reads.seen_le
  have := follows.reads.s2_le
  have := follows.wgS1_le
  have := follows.wrWas_le
  exact ⟨by omega, follows.reads.popped_le, by omega, follows.writes.fits⟩

variable {p : Passage AW} {v : Views} {m : Moment AW}

/-- What a moment pops is the next byte. -/
theorem Follows.takes_of_pops
    (follows : p.Follows v)
    {e : SckEdge AW}
    (sck : m.sck = some e)
    (pops : e.pop && !p.fifo.rdEmpty) :
    ∃ below : p.taken.length < p.offered.length, p.takes m = [p.offered[p.taken.length]] := by
  obtain ⟨after, le, seen_le, near⟩ := follows.bounds
  have below : p.taken.length < p.offered.length :=
    lt_of_lt_of_le (follows.reads.popped_lt (by omega) pops) seen_le
  refine ⟨below, ?_⟩
  rw [Passage.takes, sck]
  simp only [pops, if_true]
  rw [follows.reads.rdBin, slot_ptr, follows.stored _ (le_refl _) below]

theorem takes_of_idle (idle : m.sck = none) : p.takes m = [] := by
  rw [Passage.takes, idle]

theorem takes_of_kept
    {e : SckEdge AW}
    (sck : m.sck = some e)
    (kept : ¬(e.pop && !p.fifo.rdEmpty)) : p.takes m = [] := by
  rw [Passage.takes, sck]
  exact if_neg kept

theorem length_takes :
    (p.taken ++ p.takes m).length =
      if m.sck.any SckEdge.pop && !p.fifo.rdEmpty then p.taken.length + 1 else p.taken.length := by
  cases sck : m.sck with
  | none =>
      rw [takes_of_idle sck, List.append_nil, if_neg]
      simp
  | some e =>
      rw [Passage.takes, sck, Option.any_some]
      dsimp only
      split_ifs <;> simp

theorem length_offers :
    (p.offered ++ offers m).length =
      if m.fabric.any FabricEdge.push then p.offered.length + 1 else p.offered.length := by
  rw [offers]
  cases m.fabric with
  | none => simp
  | some e =>
      rw [Option.any_some]
      dsimp only
      split_ifs <;> simp

theorem Follows.in_order_step (follows : p.Follows v) : (p.step m).taken <+: p.offered := by
  change p.taken ++ p.takes m <+: p.offered
  cases sck : m.sck with
  | none =>
      rw [takes_of_idle sck, List.append_nil]
      exact follows.in_order
  | some e =>
      by_cases pops : e.pop && !p.fifo.rdEmpty
      · obtain ⟨below, next⟩ := follows.takes_of_pops sck pops
        have taken : p.taken = p.offered.take p.taken.length :=
          List.prefix_iff_eq_take.mp follows.in_order
        have longer := List.take_append_getElem below
        rw [← taken] at longer
        rw [next, longer]
        exact List.take_prefix _ _
      · rw [takes_of_kept sck pops, List.append_nil]
        exact follows.in_order

/-- The registers of the read side after a moment. -/
theorem reads_moment
    (running : m.clear = false)
    (reads : ReadSide (p.fifo.readEdge false m.sck) popped s1 s2 seen) :
    ReadSide (p.fifo.moment m) popped s1 s2 seen := by
  rw [ReplyFifo.moment, running]
  cases m.fabric with
  | none => exact reads
  | some e => exact reads.apart false e

/-- The read pointer as it crosses after a moment. -/
theorem Follows.rdGray_step (follows : p.Follows v) (running : m.clear = false) :
    (p.fifo.moment m).rdGray = code AW (p.step m).taken.length := by
  have pointer := follows.reads.toReadPointer.readEdge m.sck
  rw [← length_takes] at pointer
  rw [ReplyFifo.moment, running]
  cases m.fabric with
  | none => exact pointer.rdGray
  | some e => exact (ReplyFifo.writeEdge_rdGray _ _ _).trans pointer.rdGray

/-- The write pointer as it crosses after a moment. -/
theorem Follows.wrGray_step (follows : p.Follows v) (allowed : p.Allowed m) :
    (p.fifo.moment m).wrGray = code AW (p.step m).offered.length := by
  have side := follows.writes.apart false m.sck
  change _ = code AW (p.offered ++ offers m).length
  rw [length_offers, ReplyFifo.moment, allowed.1]
  cases fabric : m.fabric with
  | none => exact side.wrGray
  | some e =>
      dsimp only
      rw [side.writeEdge_eq (allowed.2.1 e fabric).1, Option.any_some]
      dsimp only
      split_ifs
      · rfl
      · exact side.wrGray

theorem Follows.wrBefore (follows : p.Follows v) : ∃ b, p.wrBefore m = code AW b ∧
    v.wgS1 ≤ b ∧ b ≤ (p.step m).offered.length ∧ (p.step m).offered.length ≤ b + 1 := by
  have s1_le := follows.wgS1_le
  have was_le := follows.wrWas_le
  have le_was := follows.offered_le
  change ∃ b, _ ∧ _ ∧ b ≤ (p.offered ++ offers m).length ∧ (p.offered ++ offers m).length ≤ b + 1
  rw [length_offers, Passage.wrBefore]
  cases m.fabric with
  | none => exact ⟨v.wrWas, follows.wrWas, s1_le, was_le, le_was⟩
  | some e =>
      refine ⟨p.offered.length, follows.writes.wrGray, by omega, ?_, ?_⟩ <;> split_ifs <;> omega

theorem Follows.rdBefore (follows : p.Follows v) : ∃ b, p.rdBefore m = code AW b ∧
    v.rgS1 ≤ b ∧ b ≤ (p.step m).taken.length ∧ (p.step m).taken.length ≤ b + 1 := by
  have s1_le := follows.rgS1_le
  have was_le := follows.rdWas_le
  have le_was := follows.taken_le
  change ∃ b, _ ∧ _ ∧ b ≤ (p.taken ++ p.takes m).length ∧ (p.taken ++ p.takes m).length ≤ b + 1
  rw [length_takes, Passage.rdBefore]
  cases m.sck with
  | none => exact ⟨v.rdWas, follows.rdWas, s1_le, was_le, le_was⟩
  | some e =>
      refine ⟨p.taken.length, follows.reads.rdGray, by omega, ?_, ?_⟩ <;> split_ifs <;> omega

theorem Follows.reads_step (follows : p.Follows v) (allowed : p.Allowed m) :
    ∃ s1 s2 was, ReadSide (p.step m).fifo (p.step m).taken.length s1 s2 (v.nextSeen m) ∧
      (p.step m).wrWas = code AW was ∧ s1 ≤ was ∧ was ≤ (p.step m).offered.length ∧
      (p.step m).offered.length ≤ was + 1 := by
  obtain ⟨b, before, le, b_le, le_b⟩ := follows.wrBefore (m := m)
  have after := follows.wrGray_step allowed
  change ∃ s1 s2 was,
    ReadSide (p.fifo.moment m) (p.taken ++ p.takes m).length s1 s2 (v.nextSeen m) ∧
    (if m.sck.isSome then (p.fifo.moment m).wrGray else p.wrBefore m) = code AW was ∧ _
  rw [Views.nextSeen]
  cases sck : m.sck with
  | none =>
      refine ⟨v.wgS1, v.wgS2, b, ?_, before, le, b_le, le_b⟩
      apply reads_moment allowed.1
      rw [takes_of_idle sck, List.append_nil, sck]
      exact follows.reads
  | some e =>
      have settles := allowed.2.2 e sck
      rw [before, after] at settles
      obtain ⟨k, b_le_k, k_le, sample⟩ := settles_code b_le le_b settles
      refine ⟨k, v.wgS1, (p.step m).offered.length, ?_, after, k_le, le_refl _, Nat.le_succ _⟩
      obtain ⟨rd_le, le_seen, seen_le, near⟩ := follows.bounds
      apply reads_moment allowed.1
      rw [length_takes, sck, Option.any_some]
      exact follows.reads.readEdge (by omega) sample (by omega)

theorem Follows.writes_step (follows : p.Follows v) (allowed : p.Allowed m) :
    ∃ s1 s2 seen room was,
      WriteSide (p.step m).fifo (p.step m).offered.length s1 s2 seen room ∧
      (p.step m).rdWas = code AW was ∧ s1 ≤ was ∧ was ≤ (p.step m).taken.length ∧
      (p.step m).taken.length ≤ was + 1 := by
  obtain ⟨b, before, le, b_le, le_b⟩ := follows.rdBefore (m := m)
  have after := follows.rdGray_step allowed.1
  have side := follows.writes.apart false m.sck
  change ∃ s1 s2 seen room was,
    WriteSide (p.fifo.moment m) (p.offered ++ offers m).length s1 s2 seen room ∧
    (if m.fabric.isSome then (p.fifo.moment m).rdGray else p.rdBefore m) = code AW was ∧ _
  rw [length_offers]
  cases fabric : m.fabric with
  | none =>
      refine ⟨v.rgS1, v.rgS2, v.rdBinW, v.count, b, ?_, before, le, b_le, le_b⟩
      rw [ReplyFifo.moment, fabric, allowed.1]
      exact side
  | some e =>
      obtain ⟨running, room, settles⟩ := allowed.2.1 e fabric
      rw [before, after] at settles
      obtain ⟨k, b_le_k, k_le, sample⟩ := settles_code b_le le_b settles
      refine ⟨k, v.rgS1, v.rgS2, p.offered.length - v.rdBinW, (p.step m).taken.length, ?_, after,
        k_le, le_refl _, Nat.le_succ _⟩
      obtain ⟨rd_le, le_seen, seen_le, near⟩ := follows.bounds
      have s1_le := follows.rgS1_le
      have was_le := follows.rdWas_le
      rw [ReplyFifo.moment, fabric, allowed.1, Option.any_some]
      refine side.writeEdge (by omega) running ?_ sample (by omega)
      rw [side.count, ← follows.writes.count]
      exact room

/-- A byte is stored where no other unread byte is. -/
theorem Follows.stored_step
    (follows : p.Follows v)
    (allowed : p.Allowed m)
    (index : Nat)
    (unread : (p.step m).taken.length ≤ index)
    (below : index < (p.step m).offered.length) :
    (p.step m).fifo.mem (BitVec.ofNat AW index) = (p.step m).offered[index] := by
  obtain ⟨rd_le, le_seen, seen_le, near⟩ := follows.bounds
  have unread : p.taken.length ≤ index := by
    change (p.taken ++ p.takes m).length ≤ index at unread
    rw [List.length_append] at unread
    omega
  have side := follows.writes.apart false m.sck
  have kept := ReplyFifo.readEdge_mem p.fifo false m.sck
  change (p.fifo.moment m).mem _ = (p.offered ++ offers m)[index]
  change index < (p.offered ++ offers m).length at below
  have stored (inside : index < p.offered.length) :
      p.fifo.mem (BitVec.ofNat AW index) = (p.offered ++ offers m)[index] := by
    rw [List.getElem_append_left inside]
    exact follows.stored index unread inside
  rw [length_offers] at below
  rw [ReplyFifo.moment, allowed.1]
  cases fabric : m.fabric with
  | none =>
      rw [fabric] at below
      dsimp only
      rw [kept]
      exact stored below
  | some e =>
      rw [fabric, Option.any_some] at below
      dsimp only
      rw [side.writeEdge_eq (allowed.2.1 e fabric).1]
      dsimp only
      rw [kept]
      by_cases push : e.push
      · rw [if_pos push] at below ⊢
        rcases Nat.lt_or_ge index p.offered.length with inside | last
        · rw [Function.update_of_ne, stored inside]
          intro same
          have := ofNat_near_inj AW inside.le (by omega) same
          omega
        · obtain rfl : index = p.offered.length := by omega
          rw [Function.update_self]
          simp [offers, fabric, push]
      · rw [if_neg push] at below ⊢
        exact stored below

theorem Follows.step (follows : p.Follows v) (allowed : p.Allowed m) :
    ∃ v', (p.step m).Follows v' ∧ v'.wrBinR = v.nextSeen m := by
  obtain ⟨w1, w2, wrWas, reads, wr_eq, w1_le, wr_le, le_wr⟩ := follows.reads_step allowed
  obtain ⟨r1, r2, rd, count, rdWas, writes, rd_eq, r1_le, rd_le, le_rd⟩ :=
    follows.writes_step allowed
  exact ⟨⟨rdWas, r1, r2, rd, count, wrWas, w1, w2, v.nextSeen m⟩,
    ⟨writes, reads, rd_eq, wr_eq, r1_le, rd_le, le_rd, w1_le, wr_le, le_wr,
      follows.stored_step allowed, follows.in_order_step.trans (List.prefix_append _ _)⟩, rfl⟩

theorem follows_start {fifo : ReplyFifo AW} (reset : fifo.IsReset) :
    (start fifo).Follows ⟨0, 0, 0, 0, 0, 0, 0, 0, 0⟩ := by
  obtain ⟨mem, count, rdLevel, empty, full, head, edge, reset, rfl⟩ := reset
  have zero : (0 : BitVec (AW + 1)) = code AW 0 := by simp [Gray.encode]
  have positive : 0 < 2 ^ AW := Nat.two_pow_pos AW
  have fits : 0 < 0 + 2 ^ AW := (Nat.zero_add _).symm ▸ positive
  have same : (ReplyFifo.configured mem count rdLevel empty full head).writeEdge false edge =
      { ReplyFifo.configured mem 0 rdLevel true false head with
        mem := ((ReplyFifo.configured mem count rdLevel empty full head).writeEdge false
          edge).mem } := by
    simp [ReplyFifo.writeEdge, reset, ReplyFifo.configured]
  rw [same]
  exact
    { writes := ⟨rfl, zero, zero, zero, rfl, rfl, rfl, le_refl _, le_refl _, Nat.zero_le _,
        positive, fits⟩
      reads := ⟨⟨rfl, rfl, zero⟩, zero, zero, rfl, le_refl _, le_refl _, le_refl _⟩
      rdWas := zero
      wrWas := zero
      rgS1_le := le_refl _
      rdWas_le := le_refl _
      taken_le := Nat.zero_le _
      wgS1_le := le_refl _
      wrWas_le := le_refl _
      offered_le := Nat.zero_le _
      stored := fun k _ below => absurd below (Nat.not_lt_zero k)
      in_order := List.prefix_refl _ }

/-! ## The FIFO as its two users see it -/

/-- The bytes popped are those pushed, in order; those not yet popped are in the memory;
neither side thinks that more may be done than can be; no push meets a full FIFO, and the
head is the next byte once the reader has one. -/
structure Sound (p : Passage AW) : Prop where
  in_order : p.taken <+: p.offered
  stored : ∀ k, p.taken.length ≤ k → ∀ below : k < p.offered.length,
    p.fifo.mem (BitVec.ofNat AW k) = p.offered[k]
  level_le : p.fifo.level.toNat ≤ p.offered.length - p.taken.length
  held_ge : p.offered.length - p.taken.length ≤ p.fifo.held.toNat
  pushes : ∀ m, p.Allowed m → ∀ e ∈ m.fabric, e.push = true → p.fifo.full = false
  head : ∀ m, p.Allowed m → ∀ e ∈ m.sck, p.fifo.rdEmpty = false → e.ahead = false →
    p.offered[p.taken.length]? = some (p.step m).fifo.head

theorem head_moment
    {e : SckEdge AW}
    (sck : m.sck = some e) :
    (p.fifo.moment m).head =
      p.fifo.mem ((if e.ahead then p.fifo.rdP1 else p.fifo.rdBin).setWidth AW) := by
  rw [ReplyFifo.moment, sck]
  cases m.fabric with
  | none => rfl
  | some f => exact ReplyFifo.writeEdge_head _ _ _

theorem Follows.sound (follows : p.Follows v) : p.Sound := by
  obtain ⟨rd_le, le_seen, seen_le, near⟩ := follows.bounds
  have room : v.wrBinR < p.taken.length + 2 ^ AW := by omega
  refine ⟨follows.in_order, follows.stored, ?_, ?_, fun m _ e _ _ => follows.writes.full, ?_⟩
  · rw [follows.reads.level room]
    omega
  · have s1_le : v.rgS1 ≤ p.offered.length := by
      have := follows.rgS1_le
      have := follows.rdWas_le
      omega
    rw [follows.writes.held s1_le]
    omega
  · intro m allowed e sck held here
    have filled : (true && !p.fifo.rdEmpty) = true := by rw [held, Bool.not_false, Bool.and_true]
    have below : p.taken.length < v.wrBinR := follows.reads.popped_lt room filled
    have inside : p.taken.length < p.offered.length := by omega
    change _ = some (p.fifo.moment m).head
    rw [head_moment sck, here, if_neg Bool.false_ne_true, follows.reads.rdBin, slot_ptr,
      follows.stored _ (le_refl _) inside, List.getElem?_eq_getElem inside]

/-- Across the two clocks, in any order of their edges, no byte is lost, overwritten or
popped twice. -/
theorem reply_fifo_sound
    {fifo : ReplyFifo AW}
    (reset : fifo.IsReset)
    (moments : List (Moment AW))
    (allowed : Along step Allowed (start fifo) moments) :
    ∀ p ∈ visits step (start fifo) moments, p.Sound := by
  intro p visited
  have kept : ∀ (p : Passage AW) m, (∃ v, p.Follows v) → p.Allowed m →
      ∃ v, (p.step m).Follows v := by
    rintro p m ⟨v, follows⟩ allowed
    obtain ⟨v', follows', -⟩ := follows.step allowed
    exact ⟨v', follows'⟩
  obtain ⟨v, follows⟩ := visits_invariant kept ⟨_, follows_start reset⟩ allowed p visited
  exact follows.sound

/-- A byte is pushed, the next one while SCK has an edge, and the first is popped. -/
def popping : List (Moment 2) :=
  [⟨false, some ⟨false, true, 0xA5, 0⟩, none⟩,
    ⟨false, some ⟨false, true, 0x5A, 0⟩, some ⟨true, false, 1⟩⟩,
    ⟨false, none, some ⟨true, false, 3⟩⟩,
    ⟨false, none, some ⟨true, false, 3⟩⟩,
    ⟨false, none, some ⟨true, false, 3⟩⟩,
    ⟨false, some ⟨false, false, 0, 0⟩, none⟩]

/-- A FIFO of four bytes after its reset. -/
def emptied : ReplyFifo 2 :=
  (ReplyFifo.configured (fun _ => 0) 5 3 false true 7).writeEdge false ⟨true, false, 0, 0⟩

theorem reply_fifo_sound_popping :
    Along step Allowed (start emptied) popping ∧
      ∀ p ∈ visits step (start emptied) popping, p.Sound :=
  have allowed : Along step Allowed (start emptied) popping := by decide +kernel
  ⟨allowed, reply_fifo_sound ⟨_, _, _, _, _, _, _, rfl, rfl⟩ _ allowed⟩

end Passage
end Fpga
end TriCoreDap
