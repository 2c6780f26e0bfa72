import TriCoreDap.Fpga.ReplyFields
import TriCoreDap.Fpga.FrameSent

/-!
# A reply, sample by sample

The registers that a reply's samples change, apart from the clocks between them.  The
hunt counts the busy samples; behind the start bit each field's samples shift into its
register and through the checker.
-/

namespace TriCoreDap
namespace Fpga

/-- What a line pair shows in the order of the bits: DAP1 alone, or both in wide mode. -/
def lineBits (wide : Bool) (pairs : List (Bool × Bool)) : List Bool :=
  if wide then FrameTx.bothLines pairs else pairs.map Prod.fst

/-- The checker takes the bits in that order. -/
theorem foldl_crcClock
    (step : BitVec 6 → Bool → BitVec 6)
    (wide : Bool)
    (pairs : List (Bool × Bool))
    (s : BitVec 6) :
    pairs.foldl (crcClock step wide) s = (lineBits wide pairs).foldl step s := by
  unfold lineBits
  cases wide with
  | false =>
      rw [if_neg Bool.false_ne_true, List.foldl_map]
      rfl
  | true =>
      rw [if_pos rfl]
      induction pairs generalizing s with
      | nil => rfl
      | cons pair rest inductionHypothesis =>
          rw [List.foldl_cons, inductionHypothesis]
          rfl

theorem lineBits_append (wide : Bool) (front back : List (Bool × Bool)) :
    lineBits wide (front ++ back) = lineBits wide front ++ lineBits wide back := by
  unfold lineBits
  cases wide with
  | false => exact List.map_append
  | true => exact FrameTx.bothLines_append front back

/-- In wide mode the even bits are DAP1's and the odd ones DAP2's. -/
theorem getD_bothLines (pairs : List (Bool × Bool)) (k : Nat) :
    (FrameTx.bothLines pairs).getD k false =
      if k % 2 = 0 then (pairs.map Prod.fst).getD (k / 2) false
      else (pairs.map Prod.snd).getD (k / 2) false := by
  induction pairs generalizing k with
  | nil => simp [FrameTx.bothLines]
  | cons pair rest inductionHypothesis =>
      rw [FrameTx.bothLines_cons]
      rcases k with _ | _ | k
      · rfl
      · rfl
      · have half : (k + 1 + 1) / 2 = k / 2 + 1 := by omega
        have parity : (k + 1 + 1) % 2 = k % 2 := by omega
        rw [half, parity, List.map_cons, List.map_cons]
        exact inductionHypothesis k

/-! ## The shift registers -/

namespace RxCapture

theorem getLsbD_entry (n last b : Nat) :
    (1#n <<< last).getLsbD b = (decide (b < n) && decide (b = last)) := by
  rw [BitVec.getLsbD_shiftLeft, BitVec.getLsbD_one, Bool.eq_iff_iff]
  simp only [Bool.and_eq_true, Bool.not_eq_true', decide_eq_true_eq, decide_eq_false_iff_not]
  omega

/-- A sample goes in at the entry point, the rest moves down. -/
theorem getLsbD_shiftIn {n last : Nat} (field : BitVec n) (bit : Bool) (b : Nat) :
    (shiftIn field (1#n <<< last) bit).getLsbD b =
      (decide (b < n) && if b = last then bit else field.getLsbD (b + 1)) := by
  have moved : (field >>> 1).getLsbD b = field.getLsbD (b + 1) := by
    rw [BitVec.getLsbD_ushiftRight, Nat.add_comm]
  have entry := getLsbD_entry n last b
  unfold shiftIn
  generalize 1#n <<< last = place at entry ⊢
  have entering : (if bit then place else 0).getLsbD b = (bit && place.getLsbD b) := by
    cases bit <;> simp
  rw [BitVec.getLsbD_or, BitVec.getLsbD_and, BitVec.getLsbD_not, moved, entering, entry]
  by_cases within : b < n
  · rw [decide_eq_true within]
    cases bit <;> by_cases newest : b = last <;> simp [newest]
  · have above : field.getLsbD (b + 1) = false := BitVec.getLsbD_of_ge _ _ (by omega)
    rw [decide_eq_false within, above]
    simp

/-- A field as far as its samples are in: they end at its last position, above what was
there before. -/
theorem getLsbD_shifted
    {n last : Nat}
    (last_lt : last < n)
    (before : BitVec n)
    (bits : List Bool)
    (fits : bits.length ≤ last + 1)
    (b : Nat) :
    (bits.foldl (fun field bit => shiftIn field (1#n <<< last) bit) before).getLsbD b =
      if b ≤ last ∧ last + 1 ≤ b + bits.length then
        bits.getD (b + bits.length - (last + 1)) false
      else before.getLsbD (b + bits.length) := by
  induction bits using List.reverseRecOn generalizing b with
  | nil =>
      have none : ¬(b ≤ last ∧ last + 1 ≤ b + 0) := by omega
      rw [List.foldl_nil, List.length_nil, if_neg none, Nat.add_zero]
  | append_singleton bits bit inductionHypothesis =>
      rw [List.length_append, List.length_singleton] at fits
      rw [List.foldl_append, List.foldl_cons, List.foldl_nil, getLsbD_shiftIn,
        inductionHypothesis (by omega), List.length_append, List.length_singleton]
      have moved : b + 1 + bits.length = b + (bits.length + 1) := by omega
      by_cases newest : b = last
      · have place : b + (bits.length + 1) - (last + 1) = bits.length := by omega
        rw [if_pos newest, place, decide_eq_true (by omega), if_pos (by omega)]
        simp
      · rw [if_neg newest, moved]
        by_cases shown : b ≤ last ∧ last + 1 ≤ b + (bits.length + 1)
        · have within : b + (bits.length + 1) - (last + 1) < bits.length := by omega
          rw [if_pos shown, if_pos (by omega), decide_eq_true (by omega), Bool.true_and]
          simp [List.getElem?_append_left within]
        · rw [if_neg shown, if_neg (by omega)]
          by_cases inside : b < n
          · rw [decide_eq_true inside, Bool.true_and]
          · rw [decide_eq_false inside, Bool.false_and, BitVec.getLsbD_of_ge _ _ (by omega)]

/-- A field whose samples are all in has them from its bottom. -/
theorem getLsbD_filled
    {n last : Nat}
    (last_lt : last < n)
    (before : BitVec n)
    (bits : List Bool)
    (full : bits.length = last + 1)
    (b : Nat)
    (within : b ≤ last) :
    (bits.foldl (fun field bit => shiftIn field (1#n <<< last) bit) before).getLsbD b =
      bits.getD b false := by
  rw [getLsbD_shifted last_lt before bits (by omega), if_pos (by omega), full,
    Nat.add_sub_cancel]

/-- A field that was empty has nothing else. -/
theorem getLsbD_full
    {n last : Nat}
    (last_lt : last < n)
    (bits : List Bool)
    (full : bits.length = last + 1)
    (b : Nat) :
    (bits.foldl (fun field bit => shiftIn field (1#n <<< last) bit) 0#n).getLsbD b =
      bits.getD b false := by
  by_cases within : b ≤ last
  · exact getLsbD_filled last_lt 0 bits full b within
  · have beyond : bits.length ≤ b := by omega
    rw [getLsbD_shifted last_lt 0#n bits (by omega), if_neg (by omega),
      List.getD_eq_default _ _ beyond]
    exact BitVec.getLsbD_zero

/-- The narrower registers have the same entry point. -/
theorem setWidth_entry (n v last : Nat) (v_le : v ≤ n) :
    (1#n <<< last).setWidth v = 1#v <<< last := by
  apply BitVec.eq_of_getLsbD_eq
  intro b b_lt
  rw [BitVec.getLsbD_setWidth, getLsbD_entry, getLsbD_entry, decide_eq_true b_lt,
    decide_eq_true (show b < n by omega)]
  simp

end RxCapture

/-! ## The samples -/

/-- The registers of a reply that its samples change. -/
structure Reply where
  frame : RxFrame
  payEven : BitVec 63
  payOdd : BitVec 32
  crcEven : BitVec 6
  crcOdd : BitVec 3
  check : BitVec 6

/-- What both registers of DAP1 and that of DAP2 show for a bit or a pair. -/
def RxLines.of (pair : Bool × Bool) : RxLines := ⟨pair.1, pair.1, pair.2⟩

namespace Reply

/-- The reply after a sample. -/
def take (r : Reply) (pair : Bool × Bool) : Reply :=
  let last := r.frame.nbitsLast.toNat
  let crcLast := r.frame.crcLast.toNat
  { frame := r.frame.sample (r.frame.state == .hunt) (.of pair)
    payEven :=
      if r.frame.state == .data then RxCapture.shiftIn r.payEven (1#63 <<< last) pair.1
      else r.payEven
    payOdd :=
      if r.frame.state == .data then RxCapture.shiftIn r.payOdd (1#32 <<< last) pair.2
      else r.payOdd
    crcEven :=
      if r.frame.state == .crc then RxCapture.shiftIn r.crcEven (1#6 <<< crcLast) pair.1
      else r.crcEven
    crcOdd :=
      if r.frame.state == .crc then RxCapture.shiftIn r.crcOdd (1#3 <<< crcLast) pair.2
      else r.crcOdd
    check :=
      if r.frame.state == .data || r.frame.state == .crc then
        crcClock fiboStep r.frame.wideR r.check pair
      else r.check }

/-- The reply after the first samples of a line. -/
def upTo (r : Reply) (line : Nat → Bool × Bool) : Nat → Reply
  | 0 => r
  | k + 1 => (r.upTo line k).take (line k)

end Reply

namespace RxFrame

variable {W : Nat} {f : RxFrame} {i : RxInput W} {hunting : Bool} {l : RxLines}

/-- The parameters of a reply are those it was started with. -/
structure Taken (f : RxFrame) (i : RxInput W) : Prop where
  nbitsR : f.nbitsR = i.replyBits
  nbitsLast : f.nbitsLast = i.nbitsLastIn
  crcR : f.crcR = i.expectCrc
  wideR : f.wideR = i.wide
  trailR : f.trailR = i.trailClocks

theorem Taken.sample (taken : f.Taken i) : (f.sample hunting l).Taken i :=
  ⟨taken.nbitsR, taken.nbitsLast, taken.crcR, taken.wideR, taken.trailR⟩

theorem fallen_eq (quiet : f.done = false ∧ f.pdone = false) : f.fallen = f := by
  cases f
  simp_all [fallen]

/-- The samples of the CRC that a reply has. -/
def crcsOf (i : RxInput W) : Nat := if i.checks then i.crcSamples else 0

theorem Taken.positions (taken : f.Taken i) : f.positions = i.positions := by
  have payload := (RxInput.nbitsLastIn_spec i).2
  have crc := crcLast_samples f taken.wideR
  unfold RxFrame.positions RxInput.positions RxInput.checks crcCount
  rw [taken.crcR, crc, taken.nbitsR, taken.nbitsLast, taken.trailR]
  by_cases empty : i.replyBits = 0#7
  · simp [empty, RxInput.payloadSamples_empty empty]
  · have some : i.replyBits ≠ 0#7 := empty
    rw [payload some]
    simp [some]

/-- The entry point of the payload is its last position. -/
theorem Taken.payload_last (taken : f.Taken i) (some : i.replyBits ≠ 0) :
    f.nbitsLast.toNat + 1 = i.payloadSamples := by
  rw [taken.nbitsLast]
  exact (RxInput.nbitsLastIn_spec i).2 some

end RxFrame

namespace Reply

variable {W : Nat} {r : Reply} {i : RxInput W} {pair : Bool × Bool} {w : Nat}
variable {pay crc trail : List (Bool × Bool)}

/-- A reply whose start bit has not come, some busy samples on. -/
structure Hunted (r : Reply) (i : RxInput W) (w : Nat) : Prop where
  taken : r.frame.Taken i
  sound : r.frame.Sound
  state : r.frame.state = .hunt
  quiet : r.frame.done = false ∧ r.frame.pdone = false
  limit : r.frame.atLimit = decide (i.maxWait.toNat ≤ w + 1)
  waitLeft : r.frame.waitLeft.toNat = i.maxWait.toNat - 1 - w
  waitCycles : r.frame.waitCycles.toNat = w
  timedOut : r.frame.timedOut = false
  payEven : r.payEven = 0
  payOdd : r.payOdd = 0
  crcEven : r.crcEven = 0
  crcOdd : r.crcOdd = 0
  check : r.check = fiboSeed

/-- How far the fields are: the samples of the one that is read and of those before. -/
def Stage (f : RxFrame) (i : RxInput W) (pay crc trail : List (Bool × Bool)) : Prop :=
  match f.state with
  | .data => pay.length + f.left.toNat + 1 = i.payloadSamples ∧ crc = [] ∧ trail = []
  | .crc =>
      pay.length = i.payloadSamples ∧ crc.length + f.left.toNat + 1 = RxFrame.crcsOf i ∧ trail = []
  | .trail | .ending => pay.length = i.payloadSamples ∧ crc.length = RxFrame.crcsOf i
  | .idle | .hunt => False

/-- A reply whose start bit came after some busy samples, with the samples behind it. -/
structure Read
    (r : Reply)
    (i : RxInput W)
    (w : Nat)
    (pay crc trail : List (Bool × Bool)) : Prop where
  taken : r.frame.Taken i
  sound : r.frame.Sound
  quiet : r.frame.done = false ∧ r.frame.pdone = false
  waitCycles : r.frame.waitCycles.toNat = w
  timedOut : r.frame.timedOut = false
  remaining : r.frame.remaining + (pay ++ crc ++ trail).length = i.positions
  within : r.frame.inFields ∨ r.frame.state = .ending
  stage : Stage r.frame i pay crc trail
  payEven : r.payEven = (pay.map Prod.fst).foldl
    (fun field bit => RxCapture.shiftIn field (1#63 <<< i.nbitsLastIn.toNat) bit) 0
  payOdd : r.payOdd = (pay.map Prod.snd).foldl
    (fun field bit => RxCapture.shiftIn field (1#32 <<< i.nbitsLastIn.toNat) bit) 0
  crcEven : r.crcEven = (crc.map Prod.fst).foldl
    (fun field bit => RxCapture.shiftIn field (1#6 <<< (i.crcSamples - 1)) bit) 0
  crcOdd : r.crcOdd = (crc.map Prod.snd).foldl
    (fun field bit => RxCapture.shiftIn field (1#3 <<< (i.crcSamples - 1)) bit) 0
  check : r.check = (pay ++ crc).foldl (crcClock fiboStep i.wide) fiboSeed

/-- A busy sample within the limit. -/
theorem Hunted.busy
    (hunted : r.Hunted i w)
    (low : pair.1 = false)
    (allowed : w + 1 < i.maxWait.toNat) :
    (r.take pair).Hunted i (w + 1) := by
  have atLimit : r.frame.atLimit = false := by
    rw [hunted.limit]
    exact decide_eq_false (by omega)
  have hunting : (r.frame.state == .hunt) = true := by simp [hunted.state]
  have left := hunted.waitLeft
  have cycles := hunted.waitCycles
  have below := i.maxWait.isLt
  have frame : (r.take pair).frame = r.frame.sample true (.of pair) := by
    rw [← hunting]
    rfl
  obtain ⟨sound, state, counted, fewer, ends, pdone⟩ :=
    hunted.sound.sample_busy (l := .of pair) hunted.state low atLimit
  have ahead := (RxFrame.countdown r.frame.waitLeft).1 fun zero => by
    rw [zero] at left
    change 0 = _ at left
    omega
  have notFields : (r.frame.state == .data) = false ∧ (r.frame.state == .crc) = false := by
    simp [hunted.state]
  exact {
    taken := by rw [frame]; exact hunted.taken.sample
    sound := by rw [frame]; exact sound
    state := by rw [frame]; exact state
    quiet := by rw [frame]; exact ⟨hunted.quiet.1, pdone⟩
    limit := by
      rw [frame, ends, Bool.eq_iff_iff, beq_iff_eq, decide_eq_true_iff, ← BitVec.toNat_inj, left]
      change _ = 1 ↔ _
      omega
    waitLeft := by
      rw [frame, fewer]
      omega
    waitCycles := by
      have one : (1 : BitVec 16).toNat = 1 := rfl
      rw [frame, counted, BitVec.toNat_add, one, cycles]
      omega
    timedOut := by
      rw [frame]
      simp [RxFrame.sample, hunted.timedOut, atLimit]
    payEven := by rw [← hunted.payEven]; simp [take, notFields]
    payOdd := by rw [← hunted.payOdd]; simp [take, notFields]
    crcEven := by rw [← hunted.crcEven]; simp [take, notFields]
    crcOdd := by rw [← hunted.crcOdd]; simp [take, notFields]
    check := by rw [← hunted.check]; simp [take, notFields] }

/-- A busy sample at the limit. -/
theorem Hunted.timeout
    (hunted : r.Hunted i w)
    (low : pair.1 = false)
    (limit : i.maxWait.toNat ≤ w + 1) :
    (r.take pair).frame.state = .ending ∧ (r.take pair).frame.timedOut = true ∧
      (r.take pair).frame.done = false ∧ (r.take pair).frame.pdone = false := by
  have atLimit : r.frame.atLimit = true := by
    rw [hunted.limit]
    exact decide_eq_true limit
  have line : (RxLines.of pair).dap1Ctl = false := low
  refine ⟨?_, ?_, hunted.quiet.1, ?_⟩
  · simp [take, RxFrame.sample, RxFrame.nextState, hunted.state, line, atLimit]
  · simp [take, RxFrame.sample, hunted.state, line, atLimit]
  · simp [take, RxFrame.sample, hunted.state]

theorem crcs_of_empty (empty : i.replyBits = 0#7) : RxFrame.crcsOf i = 0 := by
  simp [RxFrame.crcsOf, RxInput.checks, empty]

/-- The start bit. -/
theorem Hunted.start (hunted : r.Hunted i w) (high : pair.1 = true) :
    (r.take pair).Read i w [] [] [] := by
  have line : (RxLines.of pair).dap1Ctl = true := high
  have hunting : (r.frame.state == .hunt) = true := by simp [hunted.state]
  have frame : (r.take pair).frame = r.frame.sample true (.of pair) := by
    rw [← hunting]
    rfl
  obtain ⟨sound, remaining, within⟩ : (r.frame.sample true (.of pair)).Sound ∧ _ :=
    hunted.sound.sample_start hunted.state line
  have notFields : (r.frame.state == .data) = false ∧ (r.frame.state == .crc) = false := by
    simp [hunted.state]
  exact {
    taken := by rw [frame]; exact hunted.taken.sample
    sound := by rw [frame]; exact sound
    quiet := by
      rw [frame]
      exact ⟨hunted.quiet.1, by simp [RxFrame.sample, hunted.state]⟩
    waitCycles := by
      rw [frame]
      simp [RxFrame.sample, RxFrame.waits, line, hunted.waitCycles]
    timedOut := by
      rw [frame]
      simp [RxFrame.sample, line, hunted.timedOut]
    remaining := by
      rw [frame, remaining]
      exact hunted.taken.positions
    within := by rw [frame]; exact within
    stage := by
      rw [frame]
      by_cases empty : i.replyBits = 0#7
      · have none : r.frame.nbitsR = 0#7 := hunted.taken.nbitsR.trans empty
        have after : (r.frame.sample true (.of pair)).state = r.frame.afterFields := by
          simp [RxFrame.sample, RxFrame.nextState, hunted.state, line, none]
        unfold Stage
        rw [after, RxFrame.afterFields, crcs_of_empty empty, RxInput.payloadSamples_empty empty]
        cases r.frame.hasTrail <;> exact ⟨rfl, rfl⟩
      · have some : i.replyBits ≠ 0#7 := empty
        have kept : r.frame.nbitsR ≠ 0#7 := by rw [hunted.taken.nbitsR]; exact some
        have data : (r.frame.sample true (.of pair)).state = .data := by
          simp [RxFrame.sample, RxFrame.nextState, hunted.state, line, kept]
        have left : (r.frame.sample true (.of pair)).left = r.frame.nbitsLast := by
          simp [RxFrame.sample, hunted.state]
        have last := hunted.taken.payload_last some
        unfold Stage
        rw [data, left]
        exact ⟨by rw [List.length_nil, Nat.zero_add]; exact last, rfl, rfl⟩
    payEven := by simp [take, notFields, hunted.payEven]
    payOdd := by simp [take, notFields, hunted.payOdd]
    crcEven := by simp [take, notFields, hunted.crcEven]
    crcOdd := by simp [take, notFields, hunted.crcOdd]
    check := by simp [take, notFields, hunted.check] }

/-- What a sample of the fields leaves besides the fields themselves. -/
theorem Read.kept
    (read : r.Read i w pay crc trail)
    (inFields : r.frame.inFields) :
    (r.take pair).frame.Taken i ∧
      (r.take pair).frame.Sound ∧
      ((r.take pair).frame.done = false ∧ (r.take pair).frame.pdone = false) ∧
      (r.take pair).frame.waitCycles.toNat = w ∧
      (r.take pair).frame.timedOut = false ∧
      (r.take pair).frame.remaining + (pay ++ crc ++ trail).length + 1 = i.positions ∧
      ((r.take pair).frame.inFields ∨ (r.take pair).frame.state = .ending) := by
  have notHunt : (r.frame.state == .hunt) = false := by
    rcases inFields with state | state | state <;> simp [state]
  have frame : (r.take pair).frame = r.frame.sample false (.of pair) := by
    rw [← notHunt]
    rfl
  obtain ⟨sound, fewer, within⟩ : (r.frame.sample false (.of pair)).Sound ∧ _ :=
    read.sound.in_fields inFields
  have remaining := read.remaining
  have single := read.sound.single
  rw [frame]
  refine ⟨read.taken.sample, sound, ⟨read.quiet.1, ?_⟩, ?_, ?_, by omega, within⟩
  · simp [RxFrame.sample, single]
  · simp [RxFrame.sample, RxFrame.waits, read.waitCycles]
  · simp [RxFrame.sample, notHunt, read.timedOut]

/-- The payload takes a sample. -/
theorem Read.in_data (read : r.Read i w pay crc trail) (state : r.frame.state = .data) :
    (r.take pair).Read i w (pay ++ [pair]) crc trail := by
  obtain ⟨taken, sound, quiet, waitCycles, timedOut, remaining, within⟩ :
      (r.take pair).frame.Taken i ∧ _ := read.kept (.inl state)
  have stage := read.stage
  unfold Stage at stage
  rw [state] at stage
  obtain ⟨length, rfl, rfl⟩ := stage
  have some : i.replyBits ≠ 0#7 := by
    intro empty
    rw [RxInput.payloadSamples_empty empty] at length
    omega
  have last := read.sound.last (.inl state)
  have single := read.sound.single
  exact {
    taken := taken
    sound := sound
    quiet := quiet
    waitCycles := waitCycles
    timedOut := timedOut
    remaining := by simpa [Nat.add_assoc] using remaining
    within := within
    stage := by
      by_cases ends : r.frame.left = 0#7
      · have atLast : r.frame.atLast = true := by simp [last, ends]
        have full : (pay ++ [pair]).length = i.payloadSamples := by
          rw [ends] at length
          rw [List.length_append, List.length_singleton]
          exact length
        cases checked : r.frame.crcR with
        | true =>
            have crc : (r.take pair).frame.state = .crc := by
              simp [take, RxFrame.sample, RxFrame.nextState, state, single, atLast, checked]
            have left : (r.take pair).frame.left = r.frame.crcLast := by
              simp [take, RxFrame.sample, state, atLast]
            have expected : i.expectCrc = true := read.taken.crcR.symm.trans checked
            have count := RxFrame.crcLast_samples r.frame read.taken.wideR
            unfold Stage RxFrame.crcsOf RxInput.checks
            rw [crc, left, expected]
            exact ⟨full, by simpa [some] using count, rfl⟩
        | false =>
            have after : (r.take pair).frame.state = r.frame.afterFields := by
              simp [take, RxFrame.sample, RxFrame.nextState, state, single, atLast, checked]
            have expected : i.expectCrc = false := read.taken.crcR.symm.trans checked
            unfold Stage RxFrame.crcsOf RxInput.checks
            rw [after, RxFrame.afterFields, expected]
            cases r.frame.hasTrail <;> exact ⟨full, rfl⟩
      · have atLast : r.frame.atLast = false := by simp [last, ends]
        have data : (r.take pair).frame.state = .data := by
          simp [take, RxFrame.sample, RxFrame.nextState, state, atLast]
        have left : (r.take pair).frame.left = r.frame.left - 1 := by
          simp [take, RxFrame.sample, state, atLast]
        have ahead := (RxFrame.countdown r.frame.left).1 ends
        unfold Stage
        rw [data, left, List.length_append, List.length_singleton]
        exact ⟨by omega, rfl, rfl⟩
    payEven := by
      rw [List.map_append, List.foldl_append, ← read.payEven, ← read.taken.nbitsLast]
      simp [take, state]
    payOdd := by
      rw [List.map_append, List.foldl_append, ← read.payOdd, ← read.taken.nbitsLast]
      simp [take, state]
    crcEven := by
      rw [← read.crcEven]
      simp [take, state]
    crcOdd := by
      rw [← read.crcOdd]
      simp [take, state]
    check := by
      have before := read.check
      rw [List.append_nil] at before
      rw [List.append_nil, List.foldl_append, ← before, ← read.taken.wideR]
      simp [take, state] }

/-- The CRC takes a sample. -/
theorem Read.in_crc (read : r.Read i w pay crc trail) (state : r.frame.state = .crc) :
    (r.take pair).Read i w pay (crc ++ [pair]) trail := by
  obtain ⟨taken, sound, quiet, waitCycles, timedOut, remaining, within⟩ :
      (r.take pair).frame.Taken i ∧ _ := read.kept (.inr (.inl state))
  have stage := read.stage
  unfold Stage at stage
  rw [state] at stage
  obtain ⟨full, length, rfl⟩ := stage
  have last := read.sound.last (.inr state)
  have entry : r.frame.crcLast.toNat = i.crcSamples - 1 := by
    have count := RxFrame.crcLast_samples r.frame read.taken.wideR
    omega
  exact {
    taken := taken
    sound := sound
    quiet := quiet
    waitCycles := waitCycles
    timedOut := timedOut
    remaining := by simpa [Nat.add_assoc] using remaining
    within := within
    stage := by
      by_cases ends : r.frame.left = 0#7
      · have atLast : r.frame.atLast = true := by simp [last, ends]
        have after : (r.take pair).frame.state = r.frame.afterFields := by
          simp [take, RxFrame.sample, RxFrame.nextState, state, atLast]
        have whole : (crc ++ [pair]).length = RxFrame.crcsOf i := by
          rw [ends] at length
          rw [List.length_append, List.length_singleton]
          exact length
        unfold Stage
        rw [after, RxFrame.afterFields]
        cases r.frame.hasTrail <;> exact ⟨full, whole⟩
      · have atLast : r.frame.atLast = false := by simp [last, ends]
        have crc' : (r.take pair).frame.state = .crc := by
          simp [take, RxFrame.sample, RxFrame.nextState, state, atLast]
        have left : (r.take pair).frame.left = r.frame.left - 1 := by
          simp [take, RxFrame.sample, state]
        have ahead := (RxFrame.countdown r.frame.left).1 ends
        unfold Stage
        rw [crc', left, List.length_append, List.length_singleton]
        exact ⟨full, by omega, rfl⟩
    payEven := by
      rw [← read.payEven]
      simp [take, state]
    payOdd := by
      rw [← read.payOdd]
      simp [take, state]
    crcEven := by
      rw [List.map_append, List.foldl_append, ← read.crcEven, ← entry]
      simp [take, state]
    crcOdd := by
      rw [List.map_append, List.foldl_append, ← read.crcOdd, ← entry]
      simp [take, state]
    check := by
      rw [← List.append_assoc, List.foldl_append, ← read.check, ← read.taken.wideR]
      simp [take, state] }

/-- A trailing clock's sample is not kept. -/
theorem Read.in_trail (read : r.Read i w pay crc trail) (state : r.frame.state = .trail) :
    (r.take pair).Read i w pay crc (trail ++ [pair]) := by
  obtain ⟨taken, sound, quiet, waitCycles, timedOut, remaining, within⟩ :
      (r.take pair).frame.Taken i ∧ _ := read.kept (.inr (.inr state))
  have stage := read.stage
  unfold Stage at stage
  rw [state] at stage
  have next : (r.take pair).frame.state = .trail ∨ (r.take pair).frame.state = .ending := by
    by_cases ends : r.frame.trailLeft = 1#8
    · right
      simp [take, RxFrame.sample, RxFrame.nextState, state, ends]
    · left
      simp [take, RxFrame.sample, RxFrame.nextState, state, ends]
  exact {
    taken := taken
    sound := sound
    quiet := quiet
    waitCycles := waitCycles
    timedOut := timedOut
    remaining := by simpa [Nat.add_assoc] using remaining
    within := within
    stage := by
      unfold Stage
      rcases next with next | next
      · rw [next]
        exact stage
      · rw [next]
        exact stage
    payEven := by
      rw [← read.payEven]
      simp [take, state]
    payOdd := by
      rw [← read.payOdd]
      simp [take, state]
    crcEven := by
      rw [← read.crcEven]
      simp [take, state]
    crcOdd := by
      rw [← read.crcOdd]
      simp [take, state]
    check := by
      rw [← read.check]
      simp [take, state] }

/-- A sample of the fields goes to the one that is read. -/
theorem Read.step (read : r.Read i w pay crc trail) (inFields : r.frame.inFields) :
    ∃ pay' crc' trail', pay' ++ crc' ++ trail' = pay ++ crc ++ trail ++ [pair] ∧
      (r.take pair).Read i w pay' crc' trail' := by
  have stage := read.stage
  unfold Stage at stage
  rcases inFields with state | state | state
  · rw [state] at stage
    obtain ⟨-, rfl, rfl⟩ := stage
    exact ⟨pay ++ [pair], [], [], by simp, read.in_data state⟩
  · rw [state] at stage
    obtain ⟨-, -, rfl⟩ := stage
    exact ⟨pay, crc ++ [pair], [], by simp, read.in_crc state⟩
  · exact ⟨pay, crc, trail ++ [pair], by simp, read.in_trail state⟩

/-! ## All of a line -/

variable {line : Nat → Bool × Bool}

/-- The samples of a line from some place on. -/
def segment (line : Nat → Bool × Bool) (start count : Nat) : List (Bool × Bool) :=
  (List.range count).map fun place => line (start + place)

theorem length_segment (line : Nat → Bool × Bool) (start count : Nat) :
    (segment line start count).length = count := by
  rw [segment, List.length_map, List.length_range]

theorem segment_succ (line : Nat → Bool × Bool) (start count : Nat) :
    segment line start (count + 1) = segment line start count ++ [line (start + count)] := by
  rw [segment, List.range_succ, List.map_append]
  rfl

theorem segment_add (line : Nat → Bool × Bool) (start a b : Nat) :
    segment line start (a + b) = segment line start a ++ segment line (start + a) b := by
  unfold segment
  rw [List.range_add, List.map_append, List.map_map]
  congr 1
  apply List.map_congr_left
  intro place _
  exact congrArg line (Nat.add_assoc start a place).symm

/-- The hunt over the busy samples that the limit allows. -/
theorem Hunted.run
    (hunted : r.Hunted i 0)
    (low : ∀ k, k < w → (line k).1 = false)
    (within : w < max i.maxWait.toNat 1) :
    (r.upTo line w).Hunted i w := by
  induction w with
  | zero => exact hunted
  | succ w inductionHypothesis =>
      refine (inductionHypothesis (fun k k_lt => low k (by omega)) (by omega)).busy
        (low w (Nat.lt_succ_self w)) (by omega)

/-- The fields over the samples behind the start bit. -/
theorem Read.run
    {start : Nat}
    (read : (r.upTo line start).Read i w [] [] [])
    {k : Nat}
    (within : k ≤ i.positions) :
    ∃ pay crc trail, pay ++ crc ++ trail = segment line start k ∧
      (r.upTo line (start + k)).Read i w pay crc trail := by
  induction k with
  | zero => exact ⟨[], [], [], rfl, read⟩
  | succ k inductionHypothesis =>
      obtain ⟨pay, crc, trail, so_far, read⟩ := inductionHypothesis (by omega)
      have remaining := read.remaining
      rw [so_far, length_segment] at remaining
      have inFields := read.within.resolve_right fun ending => by
        rw [RxFrame.remaining_ending ending] at remaining
        omega
      obtain ⟨pay', crc', trail', more, read'⟩ : ∃ pay' crc' trail',
          pay' ++ crc' ++ trail' = pay ++ crc ++ trail ++ [line (start + k)] ∧
            ((r.upTo line (start + k)).take (line (start + k))).Read i w pay' crc' trail' :=
        read.step inFields
      refine ⟨pay', crc', trail', ?_, read'⟩
      rw [more, so_far, segment_succ]

/-- The reply goes on with its fields exactly while samples of them are to come. -/
theorem Read.running_iff
    (read : r.Read i w pay crc trail) :
    (r.frame.inFields ↔ (pay ++ crc ++ trail).length < i.positions) ∧
      (r.frame.state = .ending ↔ (pay ++ crc ++ trail).length = i.positions) := by
  have remaining := read.remaining
  rcases read.within with inFields | ending
  · have some := read.sound.remaining_ne_zero inFields
    have going : r.frame.state ≠ .ending := by
      rcases inFields with state | state | state <;> simp [state]
    exact ⟨iff_of_true inFields (by omega), iff_of_false going (by omega)⟩
  · rw [RxFrame.remaining_ending ending] at remaining
    have notInFields : ¬r.frame.inFields := by simp [RxFrame.inFields, ending]
    exact ⟨iff_of_false notInFields (by omega), iff_of_true ending (by omega)⟩

/-- What the registers of a reply hold whose samples are all in. -/
theorem Read.fields
    {start : Nat}
    (read : r.Read i w pay crc trail)
    (all : pay ++ crc ++ trail = segment line start i.positions) :
    pay = segment line start i.payloadSamples ∧
      crc = segment line (start + i.payloadSamples) (RxFrame.crcsOf i) := by
  have ending := read.running_iff.2.mpr (by rw [all, length_segment])
  have stage := read.stage
  unfold Stage at stage
  rw [ending] at stage
  have parts : i.positions =
      i.payloadSamples + (RxFrame.crcsOf i + i.trailClocks.toNat) := by
    rw [RxInput.positions, ← Nat.add_assoc]
    rfl
  rw [parts, segment_add, segment_add, List.append_assoc] at all
  obtain ⟨payload, rest⟩ := List.append_inj all (by rw [stage.1, length_segment])
  obtain ⟨check, -⟩ := List.append_inj rest (by rw [stage.2, length_segment])
  exact ⟨payload, check⟩

/-- The bits of a field that two registers hold, DAP2's at the odd places in wide mode. -/
def fieldBit {n v : Nat} (wide : Bool) (even : BitVec n) (odd : BitVec v) (k : Nat) : Bool :=
  if wide then if k % 2 = 0 then even.getLsbD (k / 2) else odd.getLsbD (k / 2)
  else even.getLsbD k

/-- A field whose samples are all in has their bits. -/
theorem fieldBit_full
    {n v last : Nat}
    (wide : Bool)
    (pairs : List (Bool × Bool))
    (last_lt : last < n)
    (odd_lt : wide = true → last < v)
    (full : pairs = [] ∨ pairs.length = last + 1)
    (k : Nat) :
    fieldBit wide
        ((pairs.map Prod.fst).foldl
          (fun field bit => RxCapture.shiftIn field (1#n <<< last) bit) 0)
        ((pairs.map Prod.snd).foldl
          (fun field bit => RxCapture.shiftIn field (1#v <<< last) bit) 0) k =
      (lineBits wide pairs).getD k false := by
  rcases full with rfl | full
  · unfold fieldBit lineBits
    cases wide <;> simp [FrameTx.bothLines]
  · unfold fieldBit lineBits
    cases wide with
    | false =>
        rw [if_neg Bool.false_ne_true, if_neg Bool.false_ne_true]
        exact RxCapture.getLsbD_full last_lt _ (by rw [List.length_map, full]) k
    | true =>
        rw [if_pos rfl, if_pos rfl, getD_bothLines]
        rw [← RxCapture.getLsbD_full last_lt _ (by rw [List.length_map, full])]
        rw [← RxCapture.getLsbD_full (odd_lt rfl) _ (by rw [List.length_map, full])]
        rfl

theorem payloadSamples_fits (fits : i.replyBits.toNat ≤ 63) :
    i.payloadSamples ≤ 63 ∧ (i.wide = true → i.payloadSamples ≤ 32) := by
  unfold RxInput.payloadSamples
  cases i.wide with
  | false => exact ⟨fits, by simp⟩
  | true =>
      rw [if_pos rfl]
      exact ⟨by omega, fun _ => by omega⟩

/-- The payload of a reply whose samples are all in. -/
theorem Read.payload_bits
    (read : r.Read i w pay crc trail)
    (fits : i.replyBits.toNat ≤ 63)
    (full : pay.length = i.payloadSamples)
    (k : Nat) :
    fieldBit i.wide r.payEven r.payOdd k = (lineBits i.wide pay).getD k false := by
  obtain ⟨narrow, wide⟩ := payloadSamples_fits fits
  have last := (RxInput.nbitsLastIn_spec i).2
  rw [read.payEven, read.payOdd]
  by_cases empty : i.replyBits = 0#7
  · rw [RxInput.payloadSamples_empty empty] at full
    rw [List.length_eq_zero_iff.mp full]
    unfold fieldBit lineBits
    cases i.wide <;> simp [FrameTx.bothLines]
  · specialize last empty
    exact fieldBit_full i.wide pay (by omega) (fun double => by have := wide double; omega)
      (.inr (by omega)) k

/-- The CRC of a reply whose samples are all in. -/
theorem Read.crc_bits
    (read : r.Read i w pay crc trail)
    (full : crc.length = RxFrame.crcsOf i)
    (k : Nat) :
    fieldBit i.wide r.crcEven r.crcOdd k = (lineBits i.wide crc).getD k false := by
  have count : i.crcSamples = if i.wide then 3 else 6 := rfl
  rw [read.crcEven, read.crcOdd]
  refine fieldBit_full i.wide crc ?_ ?_ ?_ k
  · rw [count]
    split <;> omega
  · intro double
    rw [count, double]
    decide
  · unfold RxFrame.crcsOf at full
    by_cases checks : i.checks = true
    · rw [if_pos checks] at full
      right
      rw [full, count]
      split <;> rfl
    · rw [if_neg checks] at full
      exact .inl (List.length_eq_zero_iff.mp full)

/-- The checker's verdict is the host's. -/
theorem Read.residue (read : r.Read i w pay crc trail) :
    (r.check == 0) = dapCrc6ResidueOk (lineBits i.wide pay ++ lineBits i.wide crc) := by
  rw [read.check, foldl_crcClock, lineBits_append, dapCrc6ResidueOk_eq]

end Reply

end Fpga
end TriCoreDap
