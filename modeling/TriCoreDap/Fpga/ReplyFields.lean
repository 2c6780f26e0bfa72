import TriCoreDap.Fpga.FrameRx
import Mathlib.Tactic.Common

/-!
# The fields of a reply

What is still to come of a reply, counted in samples: the field ends that the receiver
works out ahead fall where the fields do.
-/

namespace TriCoreDap
namespace Fpga

variable {W : Nat} {i : RxInput W}

namespace RxInput

/-- The samples of the payload: bits, or pairs with an odd payload padded to one. -/
def payloadSamples (i : RxInput W) : Nat :=
  if i.wide then (i.replyBits.toNat + 1) / 2 else i.replyBits.toNat

/-- The samples of a CRC. -/
def crcSamples (i : RxInput W) : Nat := if i.wide then 3 else 6

/-- A CRC comes after the payload, unless that is empty. -/
def checks (i : RxInput W) : Bool := i.expectCrc && i.replyBits != 0

/-- The positions of the reply after its start bit. -/
def positions (i : RxInput W) : Nat :=
  i.payloadSamples + (if i.checks then i.crcSamples else 0) + i.trailClocks.toNat

/-- The clocks that the receiver allows for: it counts a CRC with an empty payload too. -/
def allowance (i : RxInput W) : Nat :=
  i.payloadSamples + (if i.expectCrc && !i.noHunt then i.crcSamples else 0) +
    i.trailClocks.toNat

theorem nbitsLastIn_spec (i : RxInput W) :
    i.oneSample = (i.replyBits != 0 && i.nbitsLastIn == 0) ∧
      (i.replyBits ≠ 0 → i.nbitsLastIn.toNat + 1 = i.payloadSamples) := by
  have same (bits : BitVec 7) (wide : Bool) :
      (bits == 1 || wide && bits == 2) =
          (bits != 0 && (if wide then (bits - 1) >>> 1 else bits - 1) == 0) ∧
        (bits ≠ 0 → (if wide then (bits - 1) >>> 1 else bits - 1).toNat + 1 =
          if wide then (bits.toNat + 1) / 2 else bits.toNat) := by
    revert bits wide
    decide +kernel
  exact same i.replyBits i.wide

theorem payloadSamples_empty (empty : i.replyBits = 0#7) : i.payloadSamples = 0 := by
  unfold payloadSamples
  rw [empty]
  cases i.wide <;> rfl

theorem payloadSamples_le (i : RxInput W) : i.payloadSamples ≤ 127 := by
  have bits := i.replyBits.isLt
  unfold payloadSamples
  split <;> omega

end RxInput

namespace RxFrame

variable {f : RxFrame} {hunting : Bool} {l : RxLines}

/-- The samples of the CRC that comes after a payload. -/
def crcCount (f : RxFrame) : Nat := if f.crcR then f.crcLast.toNat + 1 else 0

/-- The samples that are to come of a reply whose start bit is seen. -/
def remaining (f : RxFrame) : Nat :=
  match f.state with
  | .data => f.left.toNat + 1 + f.crcCount + f.trailLeft.toNat
  | .crc => f.left.toNat + 1 + f.trailLeft.toNat
  | .trail => f.trailLeft.toNat
  | .idle | .hunt | .ending => 0

/-- The positions of the reply after its start bit. -/
def positions (f : RxFrame) : Nat :=
  if f.nbitsR == 0 then f.trailR.toNat
  else f.nbitsLast.toNat + 1 + f.crcCount + f.trailR.toNat

/-- The states between the start bit and the end. -/
def inFields (f : RxFrame) : Prop := f.state = .data ∨ f.state = .crc ∨ f.state = .trail

/-- The registers worked out ahead tell what they stand for; nothing is streamed. -/
structure Sound (f : RxFrame) : Prop where
  last : f.state = .data ∨ f.state = .crc → f.atLast = (f.left == 0)
  one : f.nbitsR ≠ 0 → f.nbZero = (f.nbitsLast == 0)
  trail : f.hasTrail = (f.trailR != 0)
  trailLeft : f.state ≠ .trail → f.state ≠ .ending → f.trailLeft = f.trailR
  trailing : f.state = .trail → f.trailLeft ≠ 0
  single : f.contR = false

/-- The flags of what is done are no part of it. -/
theorem Sound.fallen (sound : f.Sound) : f.fallen.Sound :=
  ⟨sound.last, sound.one, sound.trail, sound.trailLeft, sound.trailing, sound.single⟩

/-- The bit vectors of a countdown. -/
theorem countdown {n : Nat} (left : BitVec (n + 1)) :
    (left ≠ 0 → (left - 1).toNat + 1 = left.toNat) ∧
      (left == 1) = (left != 0 && left - 1 == 0) := by
  have below := left.isLt
  have one : (1 : BitVec (n + 1)).toNat = 1 := by
    change 1 % 2 ^ (n + 1) = 1
    exact Nat.mod_eq_of_lt (Nat.one_lt_two_pow (by omega))
  have some : left ≠ 0 → (left - 1).toNat + 1 = left.toNat := by
    intro notZero
    have positive : left.toNat ≠ 0 := fun zero => notZero (BitVec.eq_of_toNat_eq zero)
    have around : 2 ^ (n + 1) - 1 + left.toNat = 2 ^ (n + 1) + (left.toNat - 1) := by omega
    rw [BitVec.toNat_sub, one, around, Nat.add_mod_left, Nat.mod_eq_of_lt (by omega)]
    omega
  refine ⟨some, ?_⟩
  rw [Bool.eq_iff_iff, Bool.and_eq_true, beq_iff_eq, bne_iff_ne, beq_iff_eq,
    ← BitVec.toNat_inj, ← BitVec.toNat_inj, ne_eq, ← BitVec.toNat_inj, one]
  change left.toNat = 1 ↔ ¬left.toNat = 0 ∧ (left - 1).toNat = 0
  constructor
  · intro single
    have more := some fun zero => by
      rw [zero] at single
      exact absurd single (by simp)
    omega
  · rintro ⟨positive, none⟩
    have more := some fun zero => positive (by rw [zero]; rfl)
    omega

theorem crcLast_ne_zero (f : RxFrame) : f.crcLast ≠ 0#7 := by
  unfold crcLast
  cases f.wideR <;> decide

/-- After its fields a reply has its trailing clocks. -/
theorem Sound.afterFields (sound : f.Sound) (kept : f.trailLeft = f.trailR) :
    (f.afterFields = .trail ∧ f.trailLeft ≠ 0) ∨
      (f.afterFields = .ending ∧ f.trailLeft.toNat = 0) := by
  have has := sound.trail
  unfold RxFrame.afterFields
  rw [has, kept]
  by_cases none : f.trailR = 0
  · right
    simp [none]
  · left
    have some : f.trailR ≠ 0#8 := none
    simp [some]

theorem remaining_data (state : f.state = .data) :
    f.remaining = f.left.toNat + 1 + f.crcCount + f.trailLeft.toNat := by
  rw [remaining, state]

theorem remaining_crc (state : f.state = .crc) :
    f.remaining = f.left.toNat + 1 + f.trailLeft.toNat := by
  rw [remaining, state]

theorem remaining_trail (state : f.state = .trail) : f.remaining = f.trailLeft.toNat := by
  rw [remaining, state]

theorem remaining_ending (state : f.state = .ending) : f.remaining = 0 := by
  rw [remaining, state]

theorem Sound.remaining_ne_zero (sound : f.Sound) (within : f.inFields) : f.remaining ≠ 0 := by
  rcases within with state | state | state
  · rw [remaining_data state]
    omega
  · rw [remaining_crc state]
    omega
  · rw [remaining_trail state]
    exact fun zero => sound.trailing state (BitVec.eq_of_toNat_eq zero)

/-- The trailing clocks come next, or the end. -/
theorem Sound.enter_trail
    (sound : f.Sound)
    (kept : f.trailLeft = f.trailR)
    {g : RxFrame}
    (state : g.state = f.afterFields)
    (same : g.trailLeft = f.trailLeft) :
    g.remaining = f.trailLeft.toNat ∧
      (g.state = .trail ∧ g.trailLeft ≠ 0 ∨ g.state = .ending) := by
  rcases sound.afterFields kept with ⟨trail, some⟩ | ⟨ending, none⟩
  · rw [trail] at state
    rw [remaining_trail state, same]
    exact ⟨rfl, .inl ⟨state, some⟩⟩
  · rw [ending] at state
    rw [remaining_ending state, none]
    exact ⟨rfl, .inr state⟩

/-- A sample in the payload. -/
theorem Sound.sample_data (sound : f.Sound) (state : f.state = .data) :
    (f.sample hunting l).Sound ∧
      (f.sample hunting l).remaining + 1 = f.remaining ∧
      ((f.sample hunting l).inFields ∨ (f.sample hunting l).state = .ending) := by
  have single := sound.single
  have kept := sound.trailLeft (by simp [state]) (by simp [state])
  have trailLeft : (f.sample hunting l).trailLeft = f.trailLeft := by simp [sample, state]
  have last := sound.last (.inl state)
  obtain ⟨next, ahead⟩ := countdown f.left
  rw [remaining_data state]
  by_cases ends : f.left = 0#7
  · have atLast : f.atLast = true := by simp [last, ends]
    cases checked : f.crcR with
    | true =>
        have crc : (f.sample hunting l).state = .crc := by
          simp [sample, nextState, state, single, atLast, checked]
        have left : (f.sample hunting l).left = f.crcLast := by simp [sample, state, atLast]
        have notLast : (f.sample hunting l).atLast = false := by simp [sample, state, atLast]
        refine ⟨⟨fun _ => ?_, sound.one, sound.trail, fun _ _ => trailLeft.trans kept, ?_, single⟩,
          ?_, .inl (.inr (.inl crc))⟩
        · rw [notLast, left]
          simp [crcLast_ne_zero f]
        · simp [crc]
        · rw [remaining_crc crc, left, trailLeft, crcCount, checked, if_pos rfl, ends]
          change _ = 0 + 1 + _ + _
          omega
    | false =>
        have after : (f.sample hunting l).state = f.afterFields := by
          simp [sample, nextState, state, single, atLast, checked]
        obtain ⟨remaining, entered⟩ := sound.enter_trail kept after trailLeft
        refine ⟨⟨?_, sound.one, sound.trail, fun _ _ => trailLeft.trans kept, ?_, single⟩, ?_, ?_⟩
        · rcases entered with ⟨trail, -⟩ | ending
          · simp [trail]
          · simp [ending]
        · rcases entered with ⟨-, some⟩ | ending
          · exact fun _ => some
          · simp [ending]
        · rw [remaining, crcCount, checked, if_neg Bool.false_ne_true, ends]
          change _ = 0 + 1 + _ + _
          omega
        · exact entered.imp (fun trail => .inr (.inr trail.1)) id
  · have atLast : f.atLast = false := by simp [last, ends]
    have data : (f.sample hunting l).state = .data := by
      simp [sample, nextState, state, atLast]
    have left : (f.sample hunting l).left = f.left - 1 := by simp [sample, state, atLast]
    refine ⟨⟨fun _ => ?_, sound.one, sound.trail, fun _ _ => trailLeft.trans kept, ?_, single⟩,
      ?_, .inl (.inl data)⟩
    · have some : f.left ≠ 0#7 := ends
      have told : (f.sample hunting l).atLast = (f.left == 1) := by simp [sample, state, atLast]
      rw [told, left, ahead]
      simp [some]
    · simp [data]
    · have count := next ends
      have crcCount : (f.sample hunting l).crcCount = f.crcCount := rfl
      rw [remaining_data data, left, trailLeft, crcCount]
      omega

/-- A sample in the CRC. -/
theorem Sound.sample_crc (sound : f.Sound) (state : f.state = .crc) :
    (f.sample hunting l).Sound ∧
      (f.sample hunting l).remaining + 1 = f.remaining ∧
      ((f.sample hunting l).inFields ∨ (f.sample hunting l).state = .ending) := by
  have single := sound.single
  have kept := sound.trailLeft (by simp [state]) (by simp [state])
  have trailLeft : (f.sample hunting l).trailLeft = f.trailLeft := by simp [sample, state]
  have last := sound.last (.inr state)
  have left : (f.sample hunting l).left = f.left - 1 := by simp [sample, state]
  obtain ⟨next, ahead⟩ := countdown f.left
  rw [remaining_crc state]
  by_cases ends : f.left = 0#7
  · have atLast : f.atLast = true := by simp [last, ends]
    have after : (f.sample hunting l).state = f.afterFields := by
      simp [sample, nextState, state, atLast]
    obtain ⟨remaining, entered⟩ := sound.enter_trail kept after trailLeft
    refine ⟨⟨?_, sound.one, sound.trail, fun _ _ => trailLeft.trans kept, ?_, single⟩, ?_, ?_⟩
    · rcases entered with ⟨trail, -⟩ | ending
      · simp [trail]
      · simp [ending]
    · rcases entered with ⟨-, some⟩ | ending
      · exact fun _ => some
      · simp [ending]
    · rw [remaining, ends]
      change _ = 0 + 1 + _
      omega
    · exact entered.imp (fun trail => .inr (.inr trail.1)) id
  · have atLast : f.atLast = false := by simp [last, ends]
    have crc : (f.sample hunting l).state = .crc := by simp [sample, nextState, state, atLast]
    refine ⟨⟨fun _ => ?_, sound.one, sound.trail, fun _ _ => trailLeft.trans kept, ?_, single⟩,
      ?_, .inl (.inr (.inl crc))⟩
    · have some : f.left ≠ 0#7 := ends
      have told : (f.sample hunting l).atLast = (f.left == 1) := by simp [sample, state, atLast]
      rw [told, left, ahead]
      simp [some]
    · simp [crc]
    · have count := next ends
      rw [remaining_crc crc, left, trailLeft]
      omega

/-- A sample in the trailing clocks. -/
theorem Sound.sample_trail (sound : f.Sound) (state : f.state = .trail) :
    (f.sample hunting l).Sound ∧
      (f.sample hunting l).remaining + 1 = f.remaining ∧
      ((f.sample hunting l).inFields ∨ (f.sample hunting l).state = .ending) := by
  have some := sound.trailing state
  rw [remaining_trail state]
  by_cases ends : f.trailLeft = 1#8
  · have ending : (f.sample hunting l).state = .ending := by simp [sample, nextState, state, ends]
    refine ⟨⟨?_, sound.one, sound.trail, ?_, ?_, sound.single⟩, ?_, .inr ending⟩
    · simp [ending]
    · simp [ending]
    · simp [ending]
    · rw [remaining_ending ending, ends]
      rfl
  · have trail : (f.sample hunting l).state = .trail := by simp [sample, nextState, state, ends]
    have trailLeft : (f.sample hunting l).trailLeft = f.trailLeft - 1 := by
      simp [sample, state, ends]
    obtain ⟨next, ahead⟩ := countdown f.trailLeft
    refine ⟨⟨?_, sound.one, sound.trail, ?_, fun _ => ?_, sound.single⟩, ?_, .inl (.inr (.inr trail))⟩
    · simp [trail]
    · simp [trail]
    · rw [trailLeft]
      intro zero
      have notZero : f.trailLeft ≠ 0#8 := some
      rw [zero] at ahead
      exact ends (beq_iff_eq.mp (ahead.trans (by simp [notZero])))
    · rw [remaining_trail trail, trailLeft]
      exact next some

/-- The samples of the fields are taken one by one. -/
theorem Sound.in_fields (sound : f.Sound) (within : f.inFields) :
    (f.sample hunting l).Sound ∧
      (f.sample hunting l).remaining + 1 = f.remaining ∧
      ((f.sample hunting l).inFields ∨ (f.sample hunting l).state = .ending) := by
  rcases within with state | state | state
  · exact sound.sample_data state
  · exact sound.sample_crc state
  · exact sound.sample_trail state

/-- The start bit leads to the first of the fields. -/
theorem Sound.sample_start
    (sound : f.Sound)
    (state : f.state = .hunt)
    (start : l.dap1Ctl = true) :
    (f.sample hunting l).Sound ∧
      (f.sample hunting l).remaining = f.positions ∧
      ((f.sample hunting l).inFields ∨ (f.sample hunting l).state = .ending) := by
  have single := sound.single
  have kept := sound.trailLeft (by simp [state]) (by simp [state])
  have trailLeft : (f.sample hunting l).trailLeft = f.trailLeft := by simp [sample, state]
  have left : (f.sample hunting l).left = f.nbitsLast := by simp [sample, state]
  have atLast : (f.sample hunting l).atLast = f.nbZero := by simp [sample, state]
  by_cases empty : f.nbitsR = 0#7
  · have after : (f.sample hunting l).state = f.afterFields := by
      simp [sample, nextState, state, start, empty]
    obtain ⟨remaining, entered⟩ := sound.enter_trail kept after trailLeft
    refine ⟨⟨?_, sound.one, sound.trail, fun _ _ => trailLeft.trans kept, ?_, single⟩, ?_, ?_⟩
    · rcases entered with ⟨trail, -⟩ | ending
      · simp [trail]
      · simp [ending]
    · rcases entered with ⟨-, some⟩ | ending
      · exact fun _ => some
      · simp [ending]
    · simp [remaining, positions, empty, kept]
    · exact entered.imp (fun trail => .inr (.inr trail.1)) id
  · have some : f.nbitsR ≠ 0#7 := empty
    have data : (f.sample hunting l).state = .data := by
      simp [sample, nextState, state, start, some]
    refine ⟨⟨fun _ => ?_, sound.one, sound.trail, fun _ _ => trailLeft.trans kept, ?_, single⟩,
      ?_, .inl (.inl data)⟩
    · rw [atLast, left, sound.one some]
    · simp [data]
    · have crcCount : (f.sample hunting l).crcCount = f.crcCount := rfl
      rw [remaining_data data, left, trailLeft, crcCount, kept, positions]
      simp [some]

/-- A busy sample leaves all to come, and is counted. -/
theorem Sound.sample_busy
    (sound : f.Sound)
    (state : f.state = .hunt)
    (busy : l.dap1Ctl = false)
    (allowed : f.atLimit = false) :
    (f.sample true l).Sound ∧
      (f.sample true l).state = .hunt ∧
      (f.sample true l).waitCycles = f.waitCycles + 1 ∧
      (f.sample true l).waitLeft = f.waitLeft - 1 ∧
      (f.sample true l).atLimit = (f.waitLeft == 1) ∧
      (f.sample true l).pdone = false := by
  have hunt : (f.sample true l).state = .hunt := by
    simp [sample, nextState, state, busy, allowed]
  have trailLeft : (f.sample true l).trailLeft = f.trailLeft := by simp [sample, state]
  have kept := sound.trailLeft (by simp [state]) (by simp [state])
  have counts : f.waits true l = true := by simp [waits, busy, allowed]
  refine ⟨⟨?_, sound.one, sound.trail, fun _ _ => trailLeft.trans kept, ?_, sound.single⟩, hunt,
    ?_, ?_, ?_, ?_⟩
  · simp [hunt]
  · simp [hunt]
  · simp [sample, counts]
  · simp [sample, counts]
  · simp [sample, counts]
  · simp [sample, state]

/-- A reply starts with its parameters. -/
theorem begin_sound
    (f : RxFrame)
    (i : RxInput W)
    (waitLeft0 : BitVec 16)
    (waitNone : Bool)
    (hunts : i.noHunt = false) :
    (f.begin i waitLeft0 waitNone).Sound ∧ (f.begin i waitLeft0 waitNone).state = .hunt := by
  have hunt : (f.begin i waitLeft0 waitNone).state = .hunt := by simp [begin, hunts]
  refine ⟨⟨?_, fun some => ?_, rfl, fun _ _ => rfl, ?_, rfl⟩, hunt⟩
  · simp [hunt]
  · have told := (RxInput.nbitsLastIn_spec i).1
    have notZero : i.replyBits ≠ 0#7 := some
    change i.oneSample = (i.nbitsLastIn == 0)
    rw [told]
    simp [notZero]
  · simp [hunt]

theorem crcLast_samples (f : RxFrame) (same : f.wideR = i.wide) :
    f.crcLast.toNat + 1 = i.crcSamples := by
  unfold crcLast RxInput.crcSamples
  rw [same]
  cases i.wide <;> rfl

/-- The positions of a reply are told by its parameters. -/
theorem positions_begin
    (f : RxFrame)
    (i : RxInput W)
    (waitLeft0 : BitVec 16)
    (waitNone : Bool)
    (hunts : i.noHunt = false) :
    (f.begin i waitLeft0 waitNone).positions = i.positions := by
  have payload := (RxInput.nbitsLastIn_spec i).2
  have crc := crcLast_samples (f.begin i waitLeft0 waitNone) (i := i) rfl
  have checked : (f.begin i waitLeft0 waitNone).crcR = i.expectCrc := by simp [begin, load, hunts]
  unfold positions RxInput.positions RxInput.checks crcCount
  rw [checked, crc]
  change (if i.replyBits == 0 then i.trailClocks.toNat else i.nbitsLastIn.toNat + 1 + _ +
    i.trailClocks.toNat) = _
  by_cases empty : i.replyBits = 0#7
  · simp [empty, RxInput.payloadSamples_empty empty]
  · have some : i.replyBits ≠ 0#7 := empty
    rw [payload some]
    simp [some]

/-- The clock budget of the parameters, which fits its nine bits. -/
theorem toNat_afterAll_load
    (f : RxFrame)
    (i : RxInput W)
    (waitLeft0 : BitVec 16)
    (waitNone : Bool) :
    (f.load i waitLeft0 waitNone).afterAll.toNat = i.allowance := by
  have payload : (if i.replyBits == 0 then (0 : BitVec 9)
      else i.nbitsLastIn.setWidth 9 + 1).toNat = i.payloadSamples := by
    have told := (RxInput.nbitsLastIn_spec i).2
    have below := RxInput.payloadSamples_le i
    by_cases empty : i.replyBits = 0#7
    · simp [empty, RxInput.payloadSamples_empty empty]
    · have some : i.replyBits ≠ 0#7 := empty
      specialize told some
      have one : (1 : BitVec 9).toNat = 1 := rfl
      rw [if_neg (by simp [some]), BitVec.toNat_add, BitVec.toNat_setWidth, one]
      omega
  have crc : (if i.expectCrc && !i.noHunt then
      (f.load i waitLeft0 waitNone).crcLast.setWidth 9 + 1 else (0 : BitVec 9)).toNat =
        if i.expectCrc && !i.noHunt then i.crcSamples else 0 := by
    have wide : (f.load i waitLeft0 waitNone).wideR = i.wide := rfl
    unfold crcLast RxInput.crcSamples
    rw [wide]
    cases i.wide <;> cases i.expectCrc && !i.noHunt <;> rfl
  have trail : (if i.trailClocks != 0 then i.trailClocks.setWidth 9 else (0 : BitVec 9)).toNat =
      i.trailClocks.toNat := by
    have below := i.trailClocks.isLt
    by_cases none : i.trailClocks = 0#8
    · simp [none]
    · have some : i.trailClocks ≠ 0#8 := none
      rw [if_pos (by simp [some]), BitVec.toNat_setWidth]
      omega
  have bits := RxInput.payloadSamples_le i
  have clocks := i.trailClocks.isLt
  have checked : (if i.expectCrc && !i.noHunt then i.crcSamples else 0) ≤ 6 := by
    unfold RxInput.crcSamples
    split_ifs <;> omega
  change ((if i.replyBits == 0 then (0 : BitVec 9) else i.nbitsLastIn.setWidth 9 + 1) +
    (if i.expectCrc && !i.noHunt then
      (f.load i waitLeft0 waitNone).crcLast.setWidth 9 + 1 else (0 : BitVec 9)) +
    (if i.trailClocks != 0 then i.trailClocks.setWidth 9 else (0 : BitVec 9))).toNat = _
  rw [BitVec.toNat_add, BitVec.toNat_add, payload, crc, trail, RxInput.allowance,
    Nat.mod_eq_of_lt (a := i.payloadSamples + _) (by omega), Nat.mod_eq_of_lt (by omega)]

end RxFrame

end Fpga
end TriCoreDap
