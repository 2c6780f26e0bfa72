import TriCoreDap.Fpga.SpiSlave
import Mathlib.Tactic.IntervalCases

/-!
# Reads on two lines

A read of 0x50 goes through its header, the dummy clocks and the bytes, and the select
may end it after any clock.
-/

namespace TriCoreDap
namespace Fpga

/-! ## What a read delivers -/

/-- The pair `r` of a byte. -/
def pairAt (byte : BitVec 8) (r : Nat) : Pair :=
  (byte.getLsbD (7 - 2 * r), byte.getLsbD (6 - 2 * r))

theorem pairs_pairAt (byte : BitVec 8) :
    [pairAt byte 0, pairAt byte 1, pairAt byte 2, pairAt byte 3] = pairsOf byte := rfl

theorem byteOf_pairs (byte : BitVec 8) :
    byteOf (pairAt byte 0) (pairAt byte 1) (pairAt byte 2) (pairAt byte 3) = byte := by
  revert byte
  decide +kernel

/-- Pairs of bytes that are given by their places. -/
def pairsTo (bytes : Nat → BitVec 8) (count : Nat) : List Pair :=
  (List.range count).map fun i => pairAt (bytes (i / 4)) (i % 4)

theorem pairsTo_succ (bytes : Nat → BitVec 8) (count : Nat) :
    pairsTo bytes (count + 1) =
      pairsTo bytes count ++ [pairAt (bytes (count / 4)) (count % 4)] := by
  rw [pairsTo, List.range_succ, List.map_append, List.map_singleton]
  rfl

theorem pairsTo_four (bytes : Nat → BitVec 8) (count : Nat) :
    pairsTo bytes (4 + count) =
      pairsOf (bytes 0) ++ pairsTo (fun j => bytes (j + 1)) count := by
  rw [pairsTo, List.range_add, List.map_append, List.map_map, ← pairs_pairAt]
  congr 1
  apply List.map_congr_left
  intro i _
  have byte : (4 + i) / 4 = i / 4 + 1 := by omega
  have pair : (4 + i) % 4 = i % 4 := by omega
  rw [Function.comp_apply, byte, pair]

theorem wholeBytes_pairsTo (bytes : Nat → BitVec 8) (count rest : Nat) (less : rest < 4) :
    wholeBytes (pairsTo bytes (4 * count + rest)) = (List.range count).map bytes := by
  induction count generalizing bytes with
  | zero =>
      have short : rest = 0 ∨ rest = 1 ∨ rest = 2 ∨ rest = 3 := by omega
      rcases short with rfl | rfl | rfl | rfl <;> rfl
  | succ count inductionHypothesis =>
      have split : 4 * (count + 1) + rest = 4 + (4 * count + rest) := by omega
      have first : wholeBytes (pairsOf (bytes 0) ++ pairsTo (fun j => bytes (j + 1)) (4 * count + rest)) =
          byteOf (pairAt (bytes 0) 0) (pairAt (bytes 0) 1) (pairAt (bytes 0) 2)
            (pairAt (bytes 0) 3) ::
            wholeBytes (pairsTo (fun j => bytes (j + 1)) (4 * count + rest)) := rfl
      rw [split, pairsTo_four, first, byteOf_pairs, inductionHypothesis,
        List.range_succ_eq_map, List.map_cons, List.map_map]
      rfl

/-- The bytes of a read from `start`: the prefix, as many bytes of the FIFO as it says,
and zeros. -/
def sentByte (stored : List (BitVec 8)) (start level : Nat) (status : BitVec 4) : Nat → BitVec 8
  | 0 => BitVec.ofNat 8 level
  | 1 => status ++ (0#1 ++ BitVec.ofNat 3 (level / 256))
  | j + 2 => if j < level then stored.getD (start + j) 0 else 0

/-- A read sends its prefix, with the level and the status that it met, and at most as many
bytes as it says; what it has popped are the bytes of them whose last clock arrived. -/
structure Read.Delivers (stored : List (BitVec 8)) (read : Read) : Prop where
  level_lt : read.level < 2 ^ 11
  level_le : read.start + read.level ≤ stored.length
  pairs : read.pairs =
    pairsTo (sentByte stored read.start read.level read.status) (read.clocks - 16)
  stop : read.stop = read.start + min read.level ((read.clocks - 16) / 4 - 2)

variable {stored : List (BitVec 8)} {read : Read} {level : Nat} {status : BitVec 4}

theorem sentByte_append
    (inside : read.start + level ≤ stored.length)
    (byte : BitVec 8) :
    sentByte (stored ++ [byte]) read.start level status =
      sentByte stored read.start level status := by
  funext j
  match j with
  | 0 => rfl
  | 1 => rfl
  | j + 2 =>
      rw [sentByte, sentByte]
      split_ifs with below
      · rw [List.getD_append _ _ _ _ (by omega)]
      · rfl

theorem Read.Delivers.push (delivers : read.Delivers stored) (byte : BitVec 8) :
    read.Delivers (stored ++ [byte]) where
  level_lt := delivers.level_lt
  level_le := by
    have := delivers.level_le
    rw [List.length_append]
    omega
  pairs := by rw [delivers.pairs, sentByte_append delivers.level_le]
  stop := delivers.stop

theorem prefixLevel_sent (small : level < 2 ^ 11) :
    prefixLevel (sentByte stored read.start level status 0)
      (sentByte stored read.start level status 1) = level := by
  have low (status : BitVec 4) (bits : BitVec 3) :
      (status ++ (0#1 ++ bits)).toNat % 8 = bits.toNat := by
    revert status bits
    decide +kernel
  rw [prefixLevel, sentByte, sentByte, low, BitVec.toNat_ofNat, BitVec.toNat_ofNat]
  omega

/-- The FIFO bytes of a read are those that it has popped. -/
theorem Read.Delivers.fifoBytes_eq (delivers : read.Delivers stored) :
    fifoBytes read.pairs = (stored.drop read.start).take (read.stop - read.start) := by
  set count := (read.clocks - 16) / 4 with count_def
  have split : read.clocks - 16 = 4 * count + (read.clocks - 16) % 4 := by omega
  have popped : read.stop - read.start = min read.level (count - 2) := by
    have := delivers.stop
    omega
  have whole := wholeBytes_pairsTo (sentByte stored read.start read.level read.status) count
    ((read.clocks - 16) % 4) (Nat.mod_lt _ (by decide))
  rw [← split, ← delivers.pairs] at whole
  rw [fifoBytes, whole, popped]
  match count with
  | 0 => simp
  | 1 => simp
  | count + 2 =>
      have level_le := delivers.level_le
      rw [List.range_succ_eq_map, List.range_succ_eq_map, List.map_cons, List.map_cons,
        List.map_cons, List.map_map, List.map_map]
      change (List.map _ _).take
        (prefixLevel (sentByte stored read.start read.level read.status 0)
          (sentByte stored read.start read.level read.status 1)) = _
      rw [prefixLevel_sent delivers.level_lt]
      apply List.ext_getElem
      · simp only [List.length_take, List.length_map, List.length_range, List.length_drop]
        omega
      · intro i below below'
        simp only [List.length_take, List.length_map, List.length_range] at below
        have inside : read.start + i < stored.length := by omega
        simp only [List.getElem_take, List.getElem_map, List.getElem_range, List.getElem_drop]
        change (if i < read.level then stored.getD (read.start + i) 0 else 0) = _
        rw [if_pos (by omega), List.getD_eq_getElem _ _ inside]

/-! ## The phases of a read -/

namespace Link

variable {AW : Nat}

/-- The header's clocks: its first bits are in the shift register. -/
structure Heading (l : Link AW) : Prop where
  clocks_lt : l.current.clocks < 8
  bitCount : l.slave.bitCount = BitVec.ofNat 3 l.current.clocks
  haveHeader : l.slave.haveHeader = false
  inDummy : l.slave.inDummy = false
  dual : l.slave.dual = false
  dclk : l.slave.dclk = 0
  dbyte : l.slave.dbyte = 0
  pop : l.slave.pop = false
  curFifo : l.slave.curFifo = false
  shiftIn : l.slave.shiftIn.toNat % 2 ^ l.current.clocks =
    header.toNat / 2 ^ (8 - l.current.clocks)
  level : 0 < l.current.clocks → l.queue.level ≤ l.queue.seen - l.queue.popped
  untaken : l.current.level = 0
  stS1 : l.current.clocks = 6 → l.slave.stS1 = l.current.status
  stS2 : l.current.clocks = 7 → l.slave.stS2 = l.current.status
  popped : l.queue.popped = l.current.start
  pairs : l.current.pairs = []

/-- The dummy's clocks: the level is taken. -/
structure Dummy (l : Link AW) : Prop where
  clocks_ge : 8 ≤ l.current.clocks
  clocks_lt : l.current.clocks < 16
  bitCount : l.slave.bitCount = BitVec.ofNat 3 l.current.clocks
  haveHeader : l.slave.haveHeader = true
  isWrite : l.slave.isWrite = false
  port1 : l.slave.port1 = false
  port2 : l.slave.port2 = true
  inDummy : l.slave.inDummy = true
  dual : l.slave.dual = false
  dclk : l.slave.dclk = 0
  dbyte : l.slave.dbyte = 0
  pop : l.slave.pop = false
  curFifo : l.slave.curFifo = false
  budget : l.slave.budget = l.slave.snapLevel
  level : l.queue.popped + l.slave.snapLevel.toNat ≤ l.queue.seen
  snapLevel : l.slave.snapLevel.toNat = l.current.level
  snapStatus : l.slave.snapStatus = l.current.status
  popped : l.queue.popped = l.current.start
  pairs : l.current.pairs = []

/-- The bytes of the read under way. -/
def bytes (l : Link AW) : Nat → BitVec 8 :=
  sentByte l.queue.stored l.current.start l.slave.snapLevel.toNat l.slave.snapStatus

/-- The clocks of the data, `count` of them so far. -/
structure Sending (l : Link AW) (count : Nat) : Prop where
  clocks : l.current.clocks = count + 16
  haveHeader : l.slave.haveHeader = true
  isWrite : l.slave.isWrite = false
  port1 : l.slave.port1 = false
  inDummy : l.slave.inDummy = false
  dual : l.slave.dual = true
  dclk : l.slave.dclk = BitVec.ofNat 2 count
  dbyte : l.slave.dbyte = BitVec.ofNat 2 (min (count / 4) 2)
  curFifo : l.slave.curFifo =
    decide (2 ≤ count / 4 ∧ count / 4 - 2 < l.slave.snapLevel.toNat)
  pop : l.slave.pop = (decide (count % 4 = 3) && l.slave.curFifo)
  budget : l.slave.budget = BitVec.ofNat (AW + 1) (l.slave.snapLevel.toNat - (count / 4 - 2))
  level : l.current.start + l.slave.snapLevel.toNat ≤ l.queue.seen
  snapLevel : l.slave.snapLevel.toNat = l.current.level
  snapStatus : l.slave.snapStatus = l.current.status
  popped : l.queue.popped = l.current.start + min l.slave.snapLevel.toNat (count / 4 - 2)
  /-- A byte is read from the memory on the clock before it is prepared. -/
  head : count % 4 = 3 → 1 ≤ count / 4 → count / 4 - 1 < l.slave.snapLevel.toNat →
    l.queue.head = l.queue.stored.getD (l.current.start + (count / 4 - 1)) 0
  shiftOut : l.slave.shiftOut = l.bytes (count / 4) <<< (2 * (count % 4))
  pairs : l.current.pairs = pairsTo l.bytes count

theorem byteEnd_eq {s : SpiSlave AW} {n : Nat} (bitCount : s.bitCount = BitVec.ofNat 3 n) :
    s.byteEnd = decide (n % 8 = 7) := by
  have seven : (7 : BitVec 3) = BitVec.ofNat 3 7 := rfl
  rw [SpiSlave.byteEnd, bitCount, Bool.beq_eq_decide_eq, decide_eq_decide, seven,
    ← BitVec.toNat_inj, BitVec.toNat_ofNat, BitVec.toNat_ofNat]

theorem dclk_eq {s : SpiSlave AW} {n : Nat} (dclk : s.dclk = BitVec.ofNat 2 n) (k : Nat) :
    (s.dclk == BitVec.ofNat 2 k) = decide (n % 4 = k % 4) := by
  rw [dclk, Bool.beq_eq_decide_eq, decide_eq_decide, ← BitVec.toNat_inj, BitVec.toNat_ofNat,
    BitVec.toNat_ofNat]

theorem header_read : header[7] = false := by decide

/-- The header's next bit is shifted in. -/
theorem shifted_header
    {shiftIn : BitVec 8}
    {n : Nat}
    (less : n < 8)
    (before : shiftIn.toNat % 2 ^ n = header.toNat / 2 ^ (8 - n)) :
    ((shiftIn.setWidth 7).concat (header.getLsbD (7 - n))).toNat % 2 ^ (n + 1) =
      header.toNat / 2 ^ (8 - (n + 1)) := by
  have bit : ∀ n < 8, (header.getLsbD (7 - n)).toNat = header.toNat / 2 ^ (7 - n) % 2 := by
    decide
  have whole : header.toNat = 0x50 := rfl
  rw [BitVec.toNat_concat, BitVec.toNat_setWidth, bit n less]
  rw [whole] at before ⊢
  interval_cases n <;> omega

variable {l : Link AW} {c : Clock}

theorem prefixLow_eq (s : SpiSlave AW) : s.prefixLow = BitVec.ofNat 8 s.snapLevel.toNat := by
  apply BitVec.eq_of_toNat_eq
  rw [SpiSlave.prefixLow, SpiSlave.lvl11, BitVec.toNat_setWidth, BitVec.toNat_setWidth,
    BitVec.toNat_ofNat]
  omega

theorem prefixHigh_eq (s : SpiSlave AW) :
    s.prefixHigh = s.snapStatus ++ (0#1 ++ BitVec.ofNat 3 (s.snapLevel.toNat / 256)) := by
  have top : s.lvl11.extractLsb' 8 3 = BitVec.ofNat 3 (s.snapLevel.toNat / 256) := by
    apply BitVec.eq_of_toNat_eq
    rw [BitVec.extractLsb'_toNat, SpiSlave.lvl11, BitVec.toNat_setWidth, BitVec.toNat_ofNat,
      Nat.shiftRight_eq_div_pow]
    omega
  rw [SpiSlave.prefixHigh, top]

theorem queueAfter_kept (c : Clock) (pop : l.slave.pop = false) :
    (l.queueAfter c).popped = l.queue.popped := by
  simp [queueAfter, Queue.edge, pop]

theorem pairs_kept (single : l.slave.dual = false) (pairs : l.current.pairs = []) :
    l.current.pairs ++ l.samples = [] := by
  simp [pairs, samples, single]

/-- Behind the header the slave keeps what its prefix is made of. -/
theorem snap_kept (headed : l.slave.haveHeader = true) (c : Clock) :
    (l.step (.clock c)).slave.snapLevel = l.slave.snapLevel ∧
      (l.step (.clock c)).slave.snapStatus = l.slave.snapStatus := by
  constructor <;> simp [step, SpiSlave.fall, SpiSlave.rise, headed]

theorem current_kept (late : 8 ≤ l.current.clocks) (c : Clock) :
    (l.step (.clock c)).current.level = l.current.level ∧
      (l.step (.clock c)).current.status = l.current.status :=
  ⟨if_neg (by omega), if_neg (by omega)⟩

/-- The last clock of the header takes the level and the status. -/
theorem Heading.last
    (heading : l.Heading)
    (last : l.current.clocks = 7)
    (fits : l.queue.Fits AW)
    (allowed : l.Allowed (.clock c)) :
    (l.step (.clock c)).Dummy := by
  obtain ⟨bit, seen_le, -⟩ := allowed
  have kept := queueAfter_kept c heading.pop
  have byteEnd : l.slave.byteEnd = true := by
    rw [byteEnd_eq heading.bitCount, last]
    rfl
  have whole : (l.slave.shiftIn.setWidth 7).concat c.si = header := by
    have shifted := shifted_header heading.clocks_lt heading.shiftIn
    rw [← bit heading.clocks_lt, last] at shifted
    rw [Nat.mod_eq_of_lt (BitVec.isLt _)] at shifted
    exact BitVec.eq_of_toNat_eq (shifted.trans (Nat.div_one _))
  have seen := heading.level (by omega)
  have level : (BitVec.ofNat (AW + 1) l.queue.level).toNat = l.queue.level := by
    have := fits.stored_le
    have := fits.seen_le
    have depth : 2 ^ AW < 2 ^ (AW + 1) := Nat.pow_lt_pow_right (by decide) (Nat.lt_succ_self AW)
    rw [BitVec.toNat_ofNat, Nat.mod_eq_of_lt (by omega)]
  have address : header.setWidth 7 = SpiSlave.portFifo2 := rfl
  have fields : (l.step (.clock c)).slave.snapLevel = BitVec.ofNat (AW + 1) l.queue.level := by
    simp [step, SpiSlave.fall, SpiSlave.rise, byteEnd, heading.haveHeader, input]
  constructor
  case clocks_ge =>
    change 8 ≤ l.current.clocks + 1
    omega
  case clocks_lt =>
    change l.current.clocks + 1 < 16
    omega
  case bitCount => simp [step, SpiSlave.fall, SpiSlave.rise, heading.bitCount, BitVec.ofNat_add]
  case haveHeader => simp [step, SpiSlave.fall, SpiSlave.rise, byteEnd, heading.haveHeader]
  case isWrite =>
    simp [step, SpiSlave.fall, SpiSlave.rise, byteEnd, heading.haveHeader, input, whole, header_read]
  case port1 =>
    simp [step, SpiSlave.fall, SpiSlave.rise, byteEnd, heading.haveHeader, input, whole, address,
      SpiSlave.portFifo, SpiSlave.portFifo2]
  case port2 =>
    simp [step, SpiSlave.fall, SpiSlave.rise, byteEnd, heading.haveHeader, input, whole,
      header_read, address]
  case inDummy =>
    simp [step, SpiSlave.fall, SpiSlave.rise, byteEnd, heading.haveHeader, input, whole, header_read]
  case dual =>
    simp [step, SpiSlave.fall, SpiSlave.rise, SpiSlave.dualGo, heading.inDummy, heading.dual]
  case dclk => simp [step, SpiSlave.fall, SpiSlave.rise, heading.dual, heading.dclk]
  case dbyte =>
    simp [step, SpiSlave.fall, SpiSlave.rise, SpiSlave.dualLast, heading.dual, heading.dbyte]
  case pop => simp [step, SpiSlave.fall, SpiSlave.rise, heading.haveHeader, heading.dual]
  case curFifo =>
    simp [step, SpiSlave.fall, SpiSlave.rise, SpiSlave.dualLast, heading.dual, heading.curFifo]
  case budget =>
    simp [step, SpiSlave.fall, SpiSlave.rise, byteEnd, heading.haveHeader, heading.pop]
  case level =>
    rw [fields, level]
    change (l.queueAfter c).popped + l.queue.level ≤ c.seen
    have := fits.popped_le
    omega
  case snapLevel =>
    rw [fields, level]
    exact (if_pos last).symm
  case snapStatus =>
    simp [step, SpiSlave.fall, SpiSlave.rise, byteEnd, heading.haveHeader, last,
      heading.stS2 last]
  case popped => exact kept.trans heading.popped
  case pairs => exact pairs_kept heading.dual heading.pairs

theorem Heading.clock
    (heading : l.Heading)
    (more : l.current.clocks + 1 < 8)
    (allowed : l.Allowed (.clock c)) :
    (l.step (.clock c)).Heading := by
  obtain ⟨bit, seen_le, -⟩ := allowed
  have kept := queueAfter_kept c heading.pop
  have byteEnd : l.slave.byteEnd = false := by
    rw [byteEnd_eq heading.bitCount, decide_eq_false]
    omega
  constructor
  case clocks_lt => exact more
  case bitCount => simp [step, SpiSlave.fall, SpiSlave.rise, heading.bitCount, BitVec.ofNat_add]
  case haveHeader => simp [step, SpiSlave.fall, SpiSlave.rise, byteEnd, heading.haveHeader]
  case inDummy => simp [step, SpiSlave.fall, SpiSlave.rise, byteEnd, heading.inDummy]
  case dual =>
    simp [step, SpiSlave.fall, SpiSlave.rise, SpiSlave.dualGo, byteEnd, heading.dual]
  case dclk => simp [step, SpiSlave.fall, SpiSlave.rise, heading.dual, heading.dclk]
  case dbyte =>
    simp [step, SpiSlave.fall, SpiSlave.rise, SpiSlave.dualLast, heading.dual, heading.dbyte]
  case pop => simp [step, SpiSlave.fall, SpiSlave.rise, byteEnd, heading.dual]
  case curFifo =>
    simp [step, SpiSlave.fall, SpiSlave.rise, SpiSlave.dualLast, heading.dual, heading.curFifo]
  case shiftIn =>
    change ((l.slave.shiftIn.setWidth 7).concat c.si).toNat % 2 ^ (l.current.clocks + 1) = _
    rw [bit heading.clocks_lt]
    exact shifted_header heading.clocks_lt heading.shiftIn
  case level =>
    intro _
    change l.queue.seen - l.queue.popped ≤ c.seen - (l.queueAfter c).popped
    omega
  case untaken => exact (if_neg (by omega)).trans heading.untaken
  case stS1 =>
    intro six
    have five : l.current.clocks = 5 := Nat.succ.inj six
    exact (if_pos five).symm
  case stS2 =>
    intro seven
    have six : l.current.clocks = 6 := Nat.succ.inj seven
    exact (heading.stS1 six).trans (if_neg (by omega)).symm
  case popped => exact kept.trans heading.popped
  case pairs => exact pairs_kept heading.dual heading.pairs

theorem Dummy.clock
    (dummy : l.Dummy)
    (more : l.current.clocks + 1 < 16)
    (allowed : l.Allowed (.clock c)) : (l.step (.clock c)).Dummy := by
  obtain ⟨-, seen_le, -⟩ := allowed
  have kept := queueAfter_kept c dummy.pop
  have before := dummy.clocks_ge
  have byteEnd : l.slave.byteEnd = false := by
    rw [byteEnd_eq dummy.bitCount, decide_eq_false]
    omega
  have taken := snap_kept dummy.haveHeader c
  have read := current_kept before c
  constructor
  case clocks_ge => exact Nat.le_succ_of_le before
  case clocks_lt => exact more
  case bitCount => simp [step, SpiSlave.fall, SpiSlave.rise, dummy.bitCount, BitVec.ofNat_add]
  case haveHeader => simp [step, SpiSlave.fall, SpiSlave.rise, dummy.haveHeader]
  case isWrite => simp [step, SpiSlave.fall, SpiSlave.rise, byteEnd, dummy.isWrite]
  case port1 => simp [step, SpiSlave.fall, SpiSlave.rise, byteEnd, dummy.port1]
  case port2 => simp [step, SpiSlave.fall, SpiSlave.rise, byteEnd, dummy.port2]
  case inDummy => simp [step, SpiSlave.fall, SpiSlave.rise, byteEnd, dummy.inDummy]
  case dual => simp [step, SpiSlave.fall, SpiSlave.rise, SpiSlave.dualGo, byteEnd, dummy.dual]
  case dclk => simp [step, SpiSlave.fall, SpiSlave.rise, dummy.dual, dummy.dclk]
  case dbyte =>
    simp [step, SpiSlave.fall, SpiSlave.rise, SpiSlave.dualLast, dummy.dual, dummy.dbyte]
  case pop => simp [step, SpiSlave.fall, SpiSlave.rise, byteEnd, dummy.dual]
  case curFifo =>
    simp [step, SpiSlave.fall, SpiSlave.rise, SpiSlave.dualLast, dummy.dual, dummy.curFifo]
  case budget => simp [step, SpiSlave.fall, SpiSlave.rise, byteEnd, dummy.pop, dummy.budget]
  case level =>
    rw [taken.1]
    have := dummy.level
    change (l.queueAfter c).popped + _ ≤ c.seen
    omega
  case snapLevel => rw [taken.1, read.1, dummy.snapLevel]
  case snapStatus => rw [taken.2, read.2, dummy.snapStatus]
  case popped => exact kept.trans dummy.popped
  case pairs => exact pairs_kept dummy.dual dummy.pairs

/-- The dummy's last clock turns the lines round and loads the prefix. -/
theorem Dummy.last
    (dummy : l.Dummy)
    (last : l.current.clocks = 15)
    (allowed : l.Allowed (.clock c)) : (l.step (.clock c)).Sending 0 := by
  obtain ⟨-, seen_le, -⟩ := allowed
  have kept := queueAfter_kept c dummy.pop
  have byteEnd : l.slave.byteEnd = true := by
    rw [byteEnd_eq dummy.bitCount, last]
    rfl
  obtain ⟨taken, status⟩ := snap_kept dummy.haveHeader c
  have read := current_kept dummy.clocks_ge c
  constructor
  case clocks =>
    change l.current.clocks + 1 = _
    omega
  case haveHeader => simp [step, SpiSlave.fall, SpiSlave.rise, dummy.haveHeader]
  case isWrite => simp [step, SpiSlave.fall, SpiSlave.rise, dummy.haveHeader, dummy.isWrite]
  case port1 => simp [step, SpiSlave.fall, SpiSlave.rise, dummy.haveHeader, dummy.port1]
  case inDummy => simp [step, SpiSlave.fall, SpiSlave.rise, byteEnd, dummy.haveHeader]
  case dual =>
    simp [step, SpiSlave.fall, SpiSlave.rise, SpiSlave.dualGo, byteEnd, dummy.inDummy, dummy.port2]
  case dclk => simp [step, SpiSlave.fall, SpiSlave.rise, dummy.dual, dummy.dclk]
  case dbyte =>
    simp [step, SpiSlave.fall, SpiSlave.rise, SpiSlave.dualLast, dummy.dual, dummy.dbyte]
  case curFifo =>
    simp [step, SpiSlave.fall, SpiSlave.rise, SpiSlave.dualLast, dummy.dual, dummy.curFifo]
  case pop => simp [step, SpiSlave.fall, SpiSlave.rise, dummy.dual, dummy.port1]
  case budget =>
    rw [taken]
    simp [step, SpiSlave.fall, SpiSlave.rise, dummy.haveHeader, dummy.pop, dummy.budget]
  case level =>
    rw [taken]
    have := dummy.level
    have := dummy.popped
    change l.current.start + _ ≤ c.seen
    omega
  case snapLevel => rw [taken, read.1, dummy.snapLevel]
  case snapStatus => rw [status, read.2, dummy.snapStatus]
  case popped =>
    change (l.queueAfter c).popped = l.current.start + min _ 0
    rw [kept, dummy.popped, Nat.min_zero, Nat.add_zero]
  case head => exact fun odd => absurd odd (by decide)
  case shiftOut =>
    have low : (l.step (.clock c)).bytes 0 = l.slave.prefixLow := by
      rw [prefixLow_eq, bytes, taken]
      rfl
    rw [low]
    simp [step, SpiSlave.fall, SpiSlave.rise, SpiSlave.dualNext, SpiSlave.dualGo, byteEnd,
      dummy.inDummy, dummy.port2, dummy.dual, dummy.haveHeader]
  case pairs => exact pairs_kept dummy.dual dummy.pairs

/-- A pair of a byte is on the lines. -/
theorem getLsbD_shiftLeft_pair (byte : BitVec 8) (r : Nat) (less : r < 4) :
    ((byte <<< (2 * r)).getLsbD 7, (byte <<< (2 * r)).getLsbD 6) = pairAt byte r := by
  have seven : ¬7 < 2 * r := by omega
  have six : ¬6 < 2 * r := by omega
  rw [pairAt, BitVec.getLsbD_shiftLeft, BitVec.getLsbD_shiftLeft, decide_eq_false seven,
    decide_eq_false six]
  rfl

theorem Sending.samples {count : Nat} (sending : l.Sending count) :
    l.current.pairs ++ l.samples = pairsTo l.bytes (count + 1) := by
  rw [pairsTo_succ, sending.pairs, Link.samples, if_pos sending.dual, sending.shiftOut,
    getLsbD_shiftLeft_pair _ _ (Nat.mod_lt _ (by decide))]

/-- The bytes of a read stay while it is sent. -/
theorem Sending.bytes_step {count : Nat} (sending : l.Sending count) (c : Clock) :
    (l.step (.clock c)).bytes = l.bytes := by
  obtain ⟨level, status⟩ := snap_kept sending.haveHeader c
  rw [bytes, level, status]
  rfl

/-- The queue pops on the last clock of a FIFO byte. -/
theorem Sending.popped_step {count : Nat} (sending : l.Sending count) (c : Clock) :
    (l.queueAfter c).popped =
      l.current.start + min l.slave.snapLevel.toNat ((count + 1) / 4 - 2) := by
  have level := sending.level
  have popped := sending.popped
  change (if l.slave.pop = true ∧ l.queue.popped < l.queue.seen then l.queue.popped + 1
    else l.queue.popped) = _
  simp only [sending.pop, sending.curFifo, Bool.and_eq_true, decide_eq_true_eq]
  split_ifs <;> omega

/-- What the byte after this one is, on this one's last clock. -/
theorem Sending.budgetLeft
    {count : Nat}
    (sending : l.Sending count)
    (last : count % 4 = 3)
    (fifo : 1 ≤ count / 4) :
    l.slave.budgetLeft = decide (count / 4 - 1 < l.slave.snapLevel.toNat) := by
  have small := l.slave.snapLevel.isLt
  have one : 1 < 2 ^ (AW + 1) := Nat.one_lt_two_pow (Nat.succ_ne_zero AW)
  have differs {k m : Nat} (k_lt : k < 2 ^ (AW + 1)) (m_lt : m < 2 ^ (AW + 1)) :
      (BitVec.ofNat (AW + 1) k != BitVec.ofNat (AW + 1) m) = decide (k ≠ m) := by
    have same : BitVec.ofNat (AW + 1) k = BitVec.ofNat (AW + 1) m ↔ k = m := by
      rw [← BitVec.toNat_inj, BitVec.toNat_ofNat, BitVec.toNat_ofNat, Nat.mod_eq_of_lt k_lt,
        Nat.mod_eq_of_lt m_lt]
    rw [bne, Bool.beq_eq_decide_eq, decide_eq_decide.mpr same, decide_not]
  have zero_eq : (0 : BitVec (AW + 1)) = BitVec.ofNat (AW + 1) 0 := rfl
  have one_eq : (1 : BitVec (AW + 1)) = BitVec.ofNat (AW + 1) 1 := rfl
  rw [SpiSlave.budgetLeft, sending.budget, zero_eq, one_eq, differs (by omega) one,
    differs (by omega) (by omega)]
  by_cases popping : l.slave.pop = true
  · rw [if_pos popping, decide_eq_decide]
    rw [sending.pop, sending.curFifo, Bool.and_eq_true, decide_eq_true_eq, decide_eq_true_eq]
      at popping
    omega
  · rw [if_neg popping, decide_eq_decide]
    rw [sending.pop, sending.curFifo, Bool.and_eq_true, decide_eq_true_eq, decide_eq_true_eq]
      at popping
    omega

theorem Sending.dualLast {count : Nat} (sending : l.Sending count) :
    l.slave.dualLast = decide (count % 4 = 3) := by
  rw [SpiSlave.dualLast, sending.dual, Bool.true_and]
  exact dclk_eq sending.dclk 3

theorem Sending.dbyteNext {count : Nat} (sending : l.Sending count) :
    l.slave.dbyteNext = BitVec.ofNat 2 (min (count / 4 + 1) 2) := by
  rw [SpiSlave.dbyteNext, sending.dbyte]
  have places : min (count / 4) 2 = 0 ∧ min (count / 4 + 1) 2 = 1 ∨
      min (count / 4) 2 = 1 ∧ min (count / 4 + 1) 2 = 2 ∨
      min (count / 4) 2 = 2 ∧ min (count / 4 + 1) 2 = 2 := by
    omega
  rcases places with ⟨now, next⟩ | ⟨now, next⟩ | ⟨now, next⟩ <;> rw [now, next] <;> rfl

theorem Sending.dbyte_step {count : Nat} (sending : l.Sending count) :
    (if l.slave.dualLast then l.slave.dbyteNext else l.slave.dbyte) =
      BitVec.ofNat 2 (min ((count + 1) / 4) 2) := by
  simp only [sending.dualLast, sending.dbyteNext, sending.dbyte, decide_eq_true_eq]
  split_ifs with last
  · have next : (count + 1) / 4 = count / 4 + 1 := by omega
    rw [next]
  · have same : (count + 1) / 4 = count / 4 := by omega
    rw [same]

theorem Sending.curFifo_step {count : Nat} (sending : l.Sending count) :
    (if l.slave.dualLast then l.slave.dbyteNext == 2 && l.slave.budgetLeft
      else l.slave.curFifo) =
      decide (2 ≤ (count + 1) / 4 ∧ (count + 1) / 4 - 2 < l.slave.snapLevel.toNat) := by
  rw [sending.dualLast]
  by_cases last : count % 4 = 3
  · have next : (count + 1) / 4 = count / 4 + 1 := by omega
    rw [if_pos (decide_eq_true last), sending.dbyteNext, next]
    by_cases fifo : 1 ≤ count / 4
    · have two : min (count / 4 + 1) 2 = 2 := by omega
      have left : 2 ≤ count / 4 + 1 ∧ count / 4 + 1 - 2 < l.slave.snapLevel.toNat ↔
          count / 4 - 1 < l.slave.snapLevel.toNat := by
        omega
      rw [two, sending.budgetLeft last fifo, decide_eq_decide.mpr left]
      rfl
    · have one : min (count / 4 + 1) 2 = 1 := by omega
      have none : ¬(2 ≤ count / 4 + 1 ∧ count / 4 + 1 - 2 < l.slave.snapLevel.toNat) := by omega
      rw [one, decide_eq_false none]
      rfl
  · have same : (count + 1) / 4 = count / 4 := by omega
    rw [if_neg (by simpa using last), sending.curFifo, same]

theorem Sending.budget_step {count : Nat} (sending : l.Sending count) :
    (if l.slave.pop then l.slave.budget - 1 else l.slave.budget) =
      BitVec.ofNat (AW + 1) (l.slave.snapLevel.toNat - ((count + 1) / 4 - 2)) := by
  rw [sending.budget]
  by_cases popping : l.slave.pop = true
  · rw [if_pos popping]
    rw [sending.pop, sending.curFifo, Bool.and_eq_true, decide_eq_true_eq, decide_eq_true_eq]
      at popping
    have one : l.slave.snapLevel.toNat - (count / 4 - 2) =
        l.slave.snapLevel.toNat - ((count + 1) / 4 - 2) + 1 := by
      omega
    rw [one, BitVec.ofNat_add]
    exact BitVec.add_sub_cancel _ _
  · rw [if_neg popping]
    rw [sending.pop, sending.curFifo, Bool.and_eq_true, decide_eq_true_eq, decide_eq_true_eq]
      at popping
    have same : l.slave.snapLevel.toNat - (count / 4 - 2) =
        l.slave.snapLevel.toNat - ((count + 1) / 4 - 2) := by
      omega
    rw [same]

/-- The head is the byte that is prepared on the next clock. -/
theorem Sending.head_step
    {count : Nat}
    (sending : l.Sending count)
    (fits : l.queue.Fits AW)
    (last : (count + 1) % 4 = 3)
    (fifo : 1 ≤ (count + 1) / 4)
    (left : (count + 1) / 4 - 1 < l.slave.snapLevel.toNat) :
    (l.queueAfter c).head =
      l.queue.stored.getD (l.current.start + ((count + 1) / 4 - 1)) 0 := by
  have popped := sending.popped
  have level := sending.level
  have seen_le := fits.seen_le
  have index : (if l.slave.curFifo then l.queue.popped + 1 else l.queue.popped) =
      l.current.start + ((count + 1) / 4 - 1) := by
    simp only [sending.curFifo, decide_eq_true_eq]
    split_ifs <;> omega
  have inside : l.current.start + ((count + 1) / 4 - 1) < l.queue.stored.length := by omega
  change l.queue.byteAt c.junk (if l.slave.curFifo then l.queue.popped + 1
    else l.queue.popped) = _
  rw [index, Queue.byteAt, if_pos (by omega), List.getD_eq_getElem _ _ inside,
    List.getD_eq_getElem _ _ inside]

/-- What is prepared on a byte's last clock is the next byte. -/
theorem Sending.prep_step {count : Nat} (sending : l.Sending count) (last : count % 4 = 3) :
    (if l.slave.dbyteNext == 1 then l.slave.prefixHigh
      else if l.slave.budgetLeft then l.queue.head else 0) = l.bytes (count / 4 + 1) := by
  rw [sending.dbyteNext]
  by_cases fifo : 1 ≤ count / 4
  · obtain ⟨place, place_eq⟩ : ∃ place, count / 4 = place + 1 := ⟨count / 4 - 1, by omega⟩
    have two : min (count / 4 + 1) 2 = 2 := by omega
    have head := sending.head last fifo
    have left := sending.budgetLeft last fifo
    rw [place_eq, Nat.add_sub_cancel] at head left
    have other : (BitVec.ofNat 2 2 == 1) = false := rfl
    rw [two, other, if_neg Bool.false_ne_true, left, place_eq]
    change _ = if place < l.slave.snapLevel.toNat then _ else _
    by_cases inside : place < l.slave.snapLevel.toNat
    · rw [if_pos (decide_eq_true inside), if_pos inside, head inside]
    · rw [if_neg (by simpa using inside), if_neg inside]
  · have none : count / 4 = 0 := by omega
    rw [none, prefixHigh_eq]
    rfl

theorem Sending.shiftOut_step {count : Nat} (sending : l.Sending count) :
    (l.step (.clock c)).slave.shiftOut =
      l.bytes ((count + 1) / 4) <<< (2 * ((count + 1) % 4)) := by
  have dclk : (l.slave.dclk == 3) = decide (count % 4 = 3) := dclk_eq sending.dclk 3
  by_cases last : count % 4 = 3
  · have byte : (count + 1) / 4 = count / 4 + 1 := by omega
    have pair : (count + 1) % 4 = 0 := by omega
    have now : l.slave.dclk = 3#2 := beq_iff_eq.mp (dclk.trans (decide_eq_true last))
    rw [byte, pair, ← sending.prep_step last]
    simp [step, SpiSlave.fall, SpiSlave.rise, SpiSlave.dualNext, sending.dual, now,
      sending.haveHeader, input]
  · have byte : (count + 1) / 4 = count / 4 := by omega
    have pair : 2 * ((count + 1) % 4) = 2 * (count % 4) + 2 := by omega
    have later : ¬l.slave.dclk = 3#2 := fun now =>
      last (of_decide_eq_true (dclk.symm.trans (beq_iff_eq.mpr now)))
    rw [byte, pair, BitVec.shiftLeft_add, ← sending.shiftOut]
    simp [step, SpiSlave.fall, SpiSlave.rise, SpiSlave.dualNext, sending.dual, later]

/-- The pop that the next clock makes. -/
theorem Sending.pop_step {count : Nat} (sending : l.Sending count) :
    (l.step (.clock c)).slave.pop =
      (decide ((count + 1) % 4 = 3) && (l.step (.clock c)).slave.curFifo) := by
  have dclk : (l.slave.dclk == 2) = decide (count % 4 = 2) := dclk_eq sending.dclk 2
  have next : (count + 1) % 4 = 3 ↔ count % 4 = 2 := by omega
  simp only [step, SpiSlave.fall, SpiSlave.rise, sending.dual, if_true, dclk, sending.dualLast,
    decide_eq_decide.mpr next]
  by_cases now : count % 4 = 2
  · have early : ¬count % 4 = 3 := by omega
    rw [if_neg (by simpa using early)]
  · rw [decide_eq_false now, Bool.false_and, Bool.false_and]

/-- One more clock of the data. -/
theorem Sending.clock
    {count : Nat}
    (sending : l.Sending count)
    (fits : l.queue.Fits AW)
    (allowed : l.Allowed (.clock c)) : (l.step (.clock c)).Sending (count + 1) := by
  obtain ⟨-, seen_le, -⟩ := allowed
  obtain ⟨level, status⟩ := snap_kept sending.haveHeader c
  have bytes := sending.bytes_step c
  have late : 8 ≤ l.current.clocks := by
    rw [sending.clocks]
    omega
  have read := current_kept late c
  have popped := sending.popped_step c
  have go : l.slave.dualGo = false := by simp [SpiSlave.dualGo, sending.inDummy]
  have dclk (k : Nat) := dclk_eq sending.dclk k
  constructor
  case clocks =>
    change l.current.clocks + 1 = _
    rw [sending.clocks, Nat.add_right_comm]
  case haveHeader => simp [step, SpiSlave.fall, SpiSlave.rise, sending.haveHeader]
  case isWrite => simp [step, SpiSlave.fall, SpiSlave.rise, sending.haveHeader, sending.isWrite]
  case port1 => simp [step, SpiSlave.fall, SpiSlave.rise, sending.haveHeader, sending.port1]
  case inDummy => simp [step, SpiSlave.fall, SpiSlave.rise, sending.haveHeader, sending.inDummy]
  case dual => simp [step, SpiSlave.fall, SpiSlave.rise, sending.dual]
  case dclk => simp [step, SpiSlave.fall, SpiSlave.rise, sending.dual, sending.dclk, BitVec.ofNat_add]
  case dbyte => exact sending.dbyte_step
  case curFifo =>
    rw [level]
    exact sending.curFifo_step
  case pop => exact sending.pop_step
  case budget =>
    rw [level, ← sending.budget_step]
    simp [step, SpiSlave.fall, SpiSlave.rise, sending.haveHeader]
  case level =>
    rw [level]
    have := sending.level
    change l.current.start + _ ≤ c.seen
    omega
  case snapLevel => rw [level, read.1, sending.snapLevel]
  case snapStatus => rw [status, read.2, sending.snapStatus]
  case popped =>
    rw [level]
    exact popped
  case head =>
    rw [level]
    exact sending.head_step fits
  case shiftOut =>
    rw [bytes]
    exact sending.shiftOut_step
  case pairs =>
    rw [bytes]
    exact sending.samples

/-! ## Runs -/

theorem Heading.push (heading : l.Heading) (byte : BitVec 8) : (l.step (.push byte)).Heading :=
  ⟨heading.clocks_lt, heading.bitCount, heading.haveHeader, heading.inDummy, heading.dual,
    heading.dclk, heading.dbyte, heading.pop, heading.curFifo, heading.shiftIn, heading.level,
    heading.untaken, heading.stS1, heading.stS2, heading.popped, heading.pairs⟩

theorem Dummy.push (dummy : l.Dummy) (byte : BitVec 8) : (l.step (.push byte)).Dummy :=
  ⟨dummy.clocks_ge, dummy.clocks_lt, dummy.bitCount, dummy.haveHeader, dummy.isWrite,
    dummy.port1, dummy.port2, dummy.inDummy, dummy.dual, dummy.dclk, dummy.dbyte, dummy.pop,
    dummy.curFifo, dummy.budget, dummy.level, dummy.snapLevel, dummy.snapStatus, dummy.popped,
    dummy.pairs⟩

theorem Sending.push
    {count : Nat}
    (sending : l.Sending count)
    (fits : l.queue.Fits AW)
    (byte : BitVec 8) : (l.step (.push byte)).Sending count := by
  have level := sending.level
  have seen_le := fits.seen_le
  have inside : l.current.start + l.slave.snapLevel.toNat ≤ l.queue.stored.length := by omega
  have bytes : (l.step (.push byte)).bytes = l.bytes := sentByte_append inside byte
  have shiftOut := sending.shiftOut
  have pairs := sending.pairs
  rw [← bytes] at shiftOut pairs
  refine ⟨sending.clocks, sending.haveHeader, sending.isWrite, sending.port1, sending.inDummy,
    sending.dual, sending.dclk, sending.dbyte, sending.curFifo, sending.pop, sending.budget,
    sending.level, sending.snapLevel, sending.snapStatus, sending.popped, fun last fifo left => ?_, shiftOut, pairs⟩
  have left : count / 4 - 1 < l.slave.snapLevel.toNat := left
  change l.queue.head = (l.queue.stored ++ [byte]).getD (l.current.start + (count / 4 - 1)) 0
  rw [sending.head last fifo left, List.getD_append _ _ _ _ (by omega)]

theorem no_bits (shiftIn : BitVec 8) : shiftIn.toNat % 2 ^ 0 = header.toNat / 2 ^ 8 :=
  (Nat.mod_one _).trans (by decide)

/-- A slave that is not selected waits for a header. -/
theorem heading_deselect (l : Link AW) : (l.step .deselect).Heading where
  clocks_lt := Nat.zero_lt_succ 7
  bitCount := rfl
  haveHeader := rfl
  inDummy := rfl
  dual := rfl
  dclk := rfl
  dbyte := rfl
  pop := rfl
  curFifo := rfl
  shiftIn := no_bits _
  level := fun none => absurd none (Nat.not_lt_zero 0)
  untaken := rfl
  stS1 := fun none => absurd none (Nat.zero_ne_add_one 5)
  stS2 := fun none => absurd none (Nat.zero_ne_add_one 6)
  popped := rfl
  pairs := rfl

theorem fits_edge
    {q : Queue}
    (fits : q.Fits AW)
    {seen : Nat}
    (seen_le : q.seen ≤ seen)
    (le_stored : seen ≤ q.stored.length)
    (pop ahead : Bool)
    (junk : BitVec 8) : (q.edge pop ahead seen junk).Fits AW := by
  have := fits.popped_le
  have := fits.stored_le
  have popped : (q.edge pop ahead seen junk).popped =
      if pop = true ∧ q.popped < q.seen then q.popped + 1 else q.popped := rfl
  constructor
  · change _ ≤ seen
    rw [popped]
    split_ifs <;> omega
  · exact le_stored
  · change q.stored.length ≤ _
    rw [popped]
    split_ifs <;> omega

/-- The phase of the read under way; the reads before it, in order. -/
structure Kept (l : Link AW) : Prop where
  fits : l.queue.Fits AW
  stop : l.current.stop = l.queue.popped
  phase : l.Heading ∨ l.Dummy ∨ ∃ count, l.Sending count
  delivers : ∀ read ∈ l.finished, read.Delivers l.queue.stored
  in_order : l.finished.flatMap (fun read => fifoBytes read.pairs) =
    l.queue.stored.take l.current.start

/-- The read under way, at any clock of it. -/
theorem Kept.current (kept : l.Kept) (small : AW ≤ 10) : l.current.Delivers l.queue.stored := by
  have popped_le := kept.fits.popped_le
  have seen_le := kept.fits.seen_le
  have small_level (level : BitVec (AW + 1)) : level.toNat < 2 ^ 11 :=
    lt_of_lt_of_le level.isLt (Nat.pow_le_pow_right (by decide) (by omega))
  have early (clocks : l.current.clocks < 16) (popped : l.queue.popped = l.current.start)
      (pairs : l.current.pairs = []) (level_lt : l.current.level < 2 ^ 11)
      (level_le : l.current.start + l.current.level ≤ l.queue.stored.length) :
      l.current.Delivers l.queue.stored := by
    have none : l.current.clocks - 16 = 0 := by omega
    refine ⟨level_lt, level_le, ?_, ?_⟩
    · rw [pairs, none]
      rfl
    · rw [kept.stop, popped, none, Nat.zero_div, Nat.zero_sub, Nat.min_zero, Nat.add_zero]
  rcases kept.phase with heading | dummy | ⟨count, sending⟩
  · have clocks_lt := heading.clocks_lt
    have popped := heading.popped
    refine early (by omega) popped heading.pairs ?_ ?_
    · rw [heading.untaken]
      decide
    · rw [heading.untaken]
      omega
  · have level := dummy.level
    rw [dummy.snapLevel] at level
    refine early dummy.clocks_lt dummy.popped dummy.pairs ?_ ?_
    · rw [← dummy.snapLevel]
      exact small_level _
    · rw [← dummy.popped]
      omega
  · have level := sending.level
    have sent : l.current.clocks - 16 = count := by
      rw [sending.clocks, Nat.add_sub_cancel]
    have bytes := sending.pairs
    rw [Link.bytes, sending.snapLevel, sending.snapStatus] at bytes
    refine ⟨?_, ?_, ?_, ?_⟩
    · rw [← sending.snapLevel]
      exact small_level _
    · rw [← sending.snapLevel]
      omega
    · rw [sent]
      exact bytes
    · rw [sent, kept.stop, ← sending.snapLevel]
      exact sending.popped

/-- Two lists in turn. -/
theorem Kept.in_order_current (kept : l.Kept) (small : AW ≤ 10) :
    (l.finished ++ [l.current]).flatMap (fun read => fifoBytes read.pairs) =
      l.queue.stored.take l.queue.popped := by
  have delivers := kept.current small
  have stop := delivers.stop
  have split : l.queue.popped = l.current.start + (l.current.stop - l.current.start) := by
    rw [← kept.stop]
    omega
  rw [List.flatMap_append, kept.in_order, List.flatMap_singleton, delivers.fifoBytes_eq, split,
    List.take_add]

theorem Kept.step {event : LinkEvent} (small : AW ≤ 10) (kept : l.Kept) (allowed : l.Allowed event) :
    (l.step event).Kept := by
  have popped_le := kept.fits.popped_le
  have seen_le := kept.fits.seen_le
  cases event with
  | push byte =>
      have room : l.queue.stored.length < l.queue.popped + 2 ^ AW := allowed
      refine ⟨⟨popped_le, ?_, ?_⟩, kept.stop, ?_, fun read member => ?_, ?_⟩
      · change l.queue.seen ≤ (l.queue.stored ++ [byte]).length
        rw [List.length_append]
        omega
      · change (l.queue.stored ++ [byte]).length ≤ _
        rw [List.length_append]
        exact room
      · rcases kept.phase with heading | dummy | ⟨count, sending⟩
        · exact Or.inl (heading.push byte)
        · exact Or.inr (Or.inl (dummy.push byte))
        · exact Or.inr (Or.inr ⟨count, sending.push kept.fits byte⟩)
      · exact (kept.delivers read member).push byte
      · have := (kept.current small).level_le
        change _ = (l.queue.stored ++ [byte]).take l.current.start
        rw [List.take_append_of_le_length (by omega)]
        exact kept.in_order
  | clock c =>
      obtain ⟨seen_le', le_stored⟩ := allowed.2
      refine ⟨fits_edge kept.fits seen_le' le_stored _ _ _, rfl, ?_, kept.delivers, kept.in_order⟩
      rcases kept.phase with heading | dummy | ⟨count, sending⟩
      · rcases Nat.lt_or_ge (l.current.clocks + 1) 8 with more | last
        · exact Or.inl (heading.clock more allowed)
        · have := heading.clocks_lt
          exact Or.inr (Or.inl (heading.last (by omega) kept.fits allowed))
      · rcases Nat.lt_or_ge (l.current.clocks + 1) 16 with more | last
        · exact Or.inr (Or.inl (dummy.clock more allowed))
        · have := dummy.clocks_lt
          exact Or.inr (Or.inr ⟨0, dummy.last (by omega) allowed⟩)
      · exact Or.inr (Or.inr ⟨count + 1, sending.clock kept.fits allowed⟩)
  | deselect =>
      refine ⟨kept.fits, rfl, Or.inl (heading_deselect l), fun read member => ?_,
        kept.in_order_current small⟩
      rcases List.mem_append.mp member with earlier | now
      · exact kept.delivers read earlier
      · rw [List.mem_singleton.mp now]
        exact kept.current small

/-- Every read delivers its prefix and no more FIFO bytes than it says, and the FIFO bytes
of all reads are those that were popped, in order. -/
structure Sound (l : Link AW) : Prop where
  delivers : ∀ read ∈ l.finished ++ [l.current], read.Delivers l.queue.stored
  in_order : (l.finished ++ [l.current]).flatMap (fun read => fifoBytes read.pairs) =
    l.queue.stored.take l.queue.popped
  popped : l.current.stop = l.queue.popped

/-- Reads of 0x50 lose nothing, wherever the select ends them. -/
theorem dual_reads_sound
    (small : AW ≤ 10)
    (slave : SpiSlave AW)
    {queue : Queue}
    (fits : queue.Fits AW)
    (fresh : queue.popped = 0)
    (events : List LinkEvent)
    (allowed : Along step Allowed (start slave queue) events) :
    ∀ l ∈ visits step (start slave queue) events, l.Sound := by
  have begun : (start slave queue).Kept := by
    refine ⟨fits, fresh.symm, Or.inl ?_, fun read none => absurd none List.not_mem_nil, rfl⟩
    exact ⟨Nat.zero_lt_succ 7, rfl, rfl, rfl, rfl, rfl, rfl, rfl, rfl, no_bits _,
      fun none => absurd none (Nat.not_lt_zero 0), rfl,
      fun none => absurd none (Nat.zero_ne_add_one 5),
      fun none => absurd none (Nat.zero_ne_add_one 6), fresh, rfl⟩
  intro l visited
  have kept := visits_invariant (fun l event => Kept.step small) begun allowed l visited
  refine ⟨fun read member => ?_, kept.in_order_current small, kept.stop⟩
  rcases List.mem_append.mp member with earlier | now
  · exact kept.delivers read earlier
  · rw [List.mem_singleton.mp now]
    exact kept.current small

/-- A slave with nothing under way. -/
def quiet : SpiSlave 2 :=
  ⟨0, false, 0, 0, false, false, false, false, false, 0, 0, false, false, false,
    0, 0, 0, 0, 0, 0, 0, false, false, 0, false, false, false⟩

/-- A read that the select ends in its second FIFO byte, and one that has them all. -/
def cutting : List LinkEvent :=
  (List.range 30).map (fun k => .clock ⟨header.getLsbD (7 - k), 9, 0, 2, 0⟩) ++
    [.deselect, .push 0xC3] ++
    (List.range 36).map fun k => .clock ⟨header.getLsbD (7 - k), 4, 0, 3, 0⟩

theorem dual_reads_sound_cutting :
    Along step Allowed (start quiet ⟨[0xA5, 0x5A], 0, 0, 0, 0⟩) cutting ∧
      ∀ l ∈ visits step (start quiet ⟨[0xA5, 0x5A], 0, 0, 0, 0⟩) cutting, l.Sound :=
  have allowed : Along step Allowed (start quiet ⟨[0xA5, 0x5A], 0, 0, 0, 0⟩) cutting := by
    decide +kernel
  ⟨allowed, dual_reads_sound (by decide) _ ⟨by decide, by decide, by decide⟩ rfl _ allowed⟩

end Link
end Fpga
end TriCoreDap
