import TriCoreDap.Fpga.DapTop
import TriCoreDap.Fpga.ReplySamples

/-!
# The receiver during a block

What a clock does to the registers of the receiver that tell how far a parcel is, streamed
or not, and that its samples are in the shift registers at its end.
-/

namespace TriCoreDap
namespace Fpga

variable {W : Nat}

namespace FrameRx

variable {m : FrameRx W} {i : RxInput W}

/-! ## A clock -/

/-- The receiver is between the start of a reply and its end. -/
def running (m : FrameRx W) : Prop := m.frame.state ≠ .idle ∧ m.frame.state ≠ .ending

theorem frameNext_idle (runs : i.rst = false) (idle : m.frame.state = .idle) :
    m.frameNext i =
      if i.start then m.frame.fallen.begin i m.waitLeft0 m.waitNone
      else m.frame.fallen.load i m.waitLeft0 m.waitNone := by
  simp [frameNext, runs, idle]

/-- A clock of a reply that goes on, seen in the registers of its position. -/
theorem frameNext_running (runs : i.rst = false) (running : m.running) :
    m.frameNext i =
      let f := m.frame.fallen
      let sampled := if m.beat.sampleTake then f.sample m.hunting i.toRxLines else f
      if m.streaming.ssCont then sampled.streamOn m.streaming m.waitLeft0 m.waitNone
      else if m.frame.pdone then { sampled with contR := false }
      else sampled := by
  obtain ⟨notIdle, notEnding⟩ := running
  simp [frameNext, runs, notIdle, notEnding]

/-- The parameters of a reply last to its end. -/
structure SameReply (f g : RxFrame) : Prop where
  nbitsR : g.nbitsR = f.nbitsR
  nbitsLast : g.nbitsLast = f.nbitsLast
  nbZero : g.nbZero = f.nbZero
  wideR : g.wideR = f.wideR

/-- The end of a reply lasts one clock. -/
theorem frameNext_ending (runs : i.rst = false) (ending : m.frame.state = .ending) :
    (m.frameNext i).state = .idle ∧ (m.frameNext i).done = true ∧
      (m.frameNext i).pdone = false ∧ (m.frameNext i).timedOut = m.frame.timedOut ∧
      SameReply m.frame (m.frameNext i) := by
  cases taken : m.beat.sampleTake <;> cases on : m.streaming.ssCont <;>
    cases out : m.frame.pdone <;>
    simp only [frameNext, runs, ending, taken, on, out, Bool.false_eq_true, if_true, if_false]
  all_goals
    refine ⟨rfl, rfl, ?_, ?_, rfl, rfl, rfl, rfl⟩
  all_goals simp [RxFrame.finish, RxFrame.streamOn, RxFrame.sample, RxFrame.fallen, ending]

/-- The frame with the bit of this clock, if one is taken. -/
def sampled (m : FrameRx W) (i : RxInput W) : RxFrame :=
  if m.beat.sampleTake then m.frame.sample m.hunting i.toRxLines
  else { m.frame with pdone := false }

/-- The registers of the position at a clock of a reply that goes on. -/
structure Moves (m : FrameRx W) (i : RxInput W) (g : RxFrame) : Prop where
  same : SameReply m.frame g
  done : g.done = false
  state : g.state = (m.sampled i).state
  pdone : g.pdone = (m.sampled i).pdone
  timedOut : g.timedOut = (m.sampled i).timedOut
  left : g.left = (m.sampled i).left
  atLast : g.atLast = (m.sampled i).atLast
  contR : g.contR = (m.streaming.ssCont || !m.frame.pdone && m.frame.contR)

theorem moves_of_running (runs : i.rst = false) (running : m.running) :
    m.Moves i (m.frameNext i) := by
  rw [frameNext_running runs running]
  cases taken : m.beat.sampleTake <;> cases on : m.streaming.ssCont <;>
    cases out : m.frame.pdone
  all_goals
    simp only [Bool.false_eq_true, if_true, if_false]
    constructor
    case same => exact ⟨rfl, rfl, rfl, rfl⟩
    case done => rfl
    case contR => simp [on, out, RxFrame.streamOn, RxFrame.fallen, RxFrame.sample]
    all_goals
      simp only [sampled, taken, Bool.false_eq_true, if_true, if_false]
      rfl

/-- A reply begins with `start` and ends with `done`. -/
theorem frame_moves (runs : i.rst = false) :
    ((m.clock i).frame.state = .idle ↔
        m.frame.state = .idle ∧ i.start = false ∨ m.frame.state = .ending) ∧
      ((m.clock i).frame.done = true ↔ m.frame.state = .ending) := by
  change ((m.frameNext i).state = .idle ↔ _) ∧ ((m.frameNext i).done = true ↔ _)
  by_cases idle : m.frame.state = .idle
  · rw [frameNext_idle runs idle, idle]
    cases i.start <;> cases raw : i.noHunt <;>
      simp [RxFrame.begin, RxFrame.load, RxFrame.fallen, idle, raw]
  by_cases ending : m.frame.state = .ending
  · obtain ⟨next, done, -⟩ := frameNext_ending (i := i) runs ending
    simp [next, done, ending]
  have moves := moves_of_running runs ⟨idle, ending⟩
  have stays : (m.sampled i).state ≠ .idle := by
    rw [sampled]
    split
    · cases state : m.frame.state <;>
        simp only [RxFrame.sample, RxFrame.nextState, RxFrame.afterFields, state] <;>
        (repeat' split) <;> simp
    · exact idle
  simp [moves.state, moves.done, stays, idle, ending]

/-- A parcel that streams on leaves the receiver hunting. -/
theorem hunt_of_pdone (runs : i.rst = false) (out : (m.clock i).frame.pdone = true) :
    (m.clock i).frame.state = .hunt := by
  change (m.frameNext i).pdone = true at out
  change (m.frameNext i).state = .hunt
  by_cases idle : m.frame.state = .idle
  · rw [frameNext_idle runs idle] at out
    cases start : i.start <;> rw [start] at out <;> cases out
  by_cases ending : m.frame.state = .ending
  · rw [(frameNext_ending runs ending).2.2.1] at out
    cases out
  have moves := moves_of_running runs ⟨idle, ending⟩
  rw [moves.pdone] at out
  rw [moves.state]
  cases taken : m.beat.sampleTake with
  | false =>
      rw [sampled, taken, if_neg Bool.false_ne_true] at out
      cases out
  | true =>
      rw [sampled, if_pos taken] at out ⊢
      simp only [RxFrame.sample, RxFrame.nextState, Bool.and_eq_true, beq_iff_eq] at out ⊢
      simp [out]

/-- A start bit ends the hunt. -/
theorem not_hunt_of_ssCont (runs : i.rst = false) (on : (m.clock i).streaming.ssCont = true) :
    (m.clock i).frame.state ≠ .hunt := by
  change (m.startSeen i && m.streaming.contOk) = true at on
  simp only [startSeen, Bool.and_eq_true, beq_iff_eq] at on
  obtain ⟨⟨⟨taken, state⟩, high⟩, -⟩ := on
  have moves := moves_of_running runs (m := m) ⟨by simp [state], by simp [state]⟩
  change (m.frameNext i).state ≠ .hunt
  rw [moves.state, sampled, if_pos taken]
  simp only [RxFrame.sample, RxFrame.nextState, RxFrame.afterFields, state, high, if_true]
  (repeat' split) <;> simp

/-- Going on is decided at the start bit, and undone as the parcel is out. -/
theorem contR_next (runs : i.rst = false) (running : (m.clock i).frame.state ≠ .idle)
    (contR : (m.clock i).frame.contR = true) :
    m.frame.state ≠ .idle ∧
      (m.streaming.ssCont = true ∨ m.frame.pdone = false ∧ m.frame.contR = true) := by
  by_cases idle : m.frame.state = .idle
  · change (m.frameNext i).contR = true at contR
    rw [frameNext_idle runs idle] at contR
    cases start : i.start <;> rw [start] at contR <;> cases contR
  by_cases ending : m.frame.state = .ending
  · exact absurd (frameNext_ending runs ending).1 running
  have moves := moves_of_running runs ⟨idle, ending⟩
  change (m.frameNext i).contR = true at contR
  rw [moves.contR, Bool.or_eq_true, Bool.and_eq_true, Bool.not_eq_true'] at contR
  exact ⟨idle, contR⟩

/-- The shift registers at a clock of a reply that goes on. -/
theorem pay_running (notIdle : m.frame.state ≠ .idle) :
    (m.captureNext i).payEven =
        (if m.beat.sampleTake ∧ m.frame.state = .data then
          RxCapture.shiftIn m.capture.payEven m.capture.payAt i.dap1In
        else m.capture.payEven) ∧
      (m.captureNext i).payOdd =
        (if m.beat.sampleTake ∧ m.frame.state = .data then
          RxCapture.shiftIn m.capture.payOdd (m.capture.payAt.setWidth 32) i.dap2In
        else m.capture.payOdd) := by
  simp [captureNext, RxCapture.take, notIdle]

/-! ## Parcels -/

/-- A parcel's samples are all in. -/
def Complete (f : RxFrame) : Prop :=
  f.pdone = true ∨ f.state = .crc ∨ f.state = .trail ∨
    f.timedOut = false ∧ (f.state = .ending ∨ f.state = .idle ∧ f.done = true)

/-- The samples of the parcel that is received, at a clock. -/
def nextSamples
    (m : FrameRx W)
    (i : RxInput W)
    (samples : List (Bool × Bool)) : List (Bool × Bool) :=
  if m.frame.state = .data then
    if m.beat.sampleTake then samples ++ [(i.dap1In, i.dap2In)] else samples
  else if (m.clock i).frame.state = .data then []
  else samples

/-- The samples are in the shift registers, above what was there before. -/
def Holds (m : FrameRx W) (samples : List (Bool × Bool)) : Prop :=
  ∃ even odd,
    m.capture.payEven = (samples.map Prod.fst).foldl
      (fun field bit => RxCapture.shiftIn field (1#63 <<< m.frame.nbitsLast.toNat) bit) even ∧
    m.capture.payOdd = (samples.map Prod.snd).foldl
      (fun field bit => RxCapture.shiftIn field (1#32 <<< m.frame.nbitsLast.toNat) bit) odd

/-- The parameters of a parcel: 32 bits. -/
structure IsParcel (f : RxFrame) : Prop where
  nbitsR : f.nbitsR = 32
  nbZero : f.nbZero = false
  nbitsLast : f.nbitsLast = if f.wideR then 15 else 31

/-- A parcel that is received, with its samples so far. -/
structure Receives (m : FrameRx W) (samples : List (Bool × Bool)) : Prop where
  parcel : IsParcel m.frame
  streamed : m.frame.pdone = true → m.frame.state = .hunt ∧ m.frame.contR = true
  last : m.frame.state = .data → m.frame.atLast = (m.frame.left == 0)
  count : m.frame.state = .data →
    samples.length + m.frame.left.toNat = m.frame.nbitsLast.toNat
  full : Complete m.frame → samples.length = m.frame.nbitsLast.toNat + 1
  holds : m.frame.state = .data ∨ Complete m.frame → m.Holds samples
  entry : m.beat.sampleTake = true → m.capture.payAt = 1#63 <<< m.frame.nbitsLast.toNat

variable {samples : List (Bool × Bool)}

theorem IsParcel.same {f g : RxFrame} (parcel : IsParcel f) (same : SameReply f g) : IsParcel g :=
  ⟨same.nbitsR.trans parcel.nbitsR, same.nbZero.trans parcel.nbZero, by
    rw [same.nbitsLast, parcel.nbitsLast, same.wideR]⟩

theorem Holds.kept
    {n : FrameRx W}
    (holds : m.Holds samples)
    (even : n.capture.payEven = m.capture.payEven)
    (odd : n.capture.payOdd = m.capture.payOdd)
    (last : n.frame.nbitsLast = m.frame.nbitsLast) : n.Holds samples := by
  obtain ⟨first, second, inEven, inOdd⟩ := holds
  refine ⟨first, second, ?_, ?_⟩
  · rw [even, last, inEven]
  · rw [odd, last, inOdd]

/-- A sample goes into the shift registers. -/
theorem Holds.take
    (holds : m.Holds samples)
    (state : m.frame.state = .data)
    (taken : m.beat.sampleTake = true)
    (entry : m.capture.payAt = 1#63 <<< m.frame.nbitsLast.toNat)
    (same : (m.clock i).frame.nbitsLast = m.frame.nbitsLast) :
    (m.clock i).Holds (samples ++ [(i.dap1In, i.dap2In)]) := by
  obtain ⟨even, odd, inEven, inOdd⟩ := holds
  obtain ⟨nextEven, nextOdd⟩ : (m.clock i).capture.payEven = _ ∧ (m.clock i).capture.payOdd = _ :=
    pay_running (by simp [state])
  refine ⟨even, odd, ?_, ?_⟩
  · rw [nextEven, if_pos ⟨taken, state⟩, same, entry, inEven, List.map_append, List.foldl_append]
    rfl
  · rw [nextOdd, if_pos ⟨taken, state⟩, same, entry, inOdd, List.map_append, List.foldl_append,
      RxCapture.setWidth_entry 63 32 _ (by decide)]
    rfl

/-- The shift registers wait for the next sample of the payload. -/
theorem Holds.wait
    (holds : m.Holds samples)
    (notIdle : m.frame.state ≠ .idle)
    (none : ¬(m.beat.sampleTake = true ∧ m.frame.state = .data))
    (same : (m.clock i).frame.nbitsLast = m.frame.nbitsLast) : (m.clock i).Holds samples := by
  obtain ⟨nextEven, nextOdd⟩ : (m.clock i).capture.payEven = _ ∧ (m.clock i).capture.payOdd = _ :=
    pay_running notIdle
  exact holds.kept (nextEven.trans (if_neg none)) (nextOdd.trans (if_neg none)) same

/-- Nothing streams within a payload. -/
theorem Receives.not_pdone
    (receives : m.Receives samples)
    (notHunt : m.frame.state ≠ .hunt) : m.frame.pdone = false := by
  cases out : m.frame.pdone with
  | false => rfl
  | true => exact absurd (receives.streamed out).1 notHunt

/-- A sample of the payload. -/
theorem Receives.data_sample
    (receives : m.Receives samples)
    (runs : i.rst = false)
    (state : m.frame.state = .data)
    (taken : m.beat.sampleTake = true) :
    (m.clock i).Receives (samples ++ [(i.dap1In, i.dap2In)]) := by
  have running : m.running := ⟨by simp [state], by simp [state]⟩
  have moves : m.Moves i (m.clock i).frame := moves_of_running runs running
  have count := receives.count state
  have last := receives.last state
  have streaming := receives.not_pdone (by simp [state])
  have state_eq : (m.clock i).frame.state =
      if m.frame.atLast && m.frame.contR then .hunt
      else if m.frame.atLast then if m.frame.crcR then .crc else m.frame.afterFields
      else .data := by
    rw [moves.state, sampled, if_pos taken]
    simp [RxFrame.sample, RxFrame.nextState, state]
  have pdone_eq : (m.clock i).frame.pdone = (m.frame.atLast && m.frame.contR) := by
    rw [moves.pdone, sampled, if_pos taken]
    simp [RxFrame.sample, state]
  have left_eq : (m.clock i).frame.left =
      if m.frame.atLast then m.frame.crcLast else m.frame.left - 1 := by
    rw [moves.left, sampled, if_pos taken]
    simp [RxFrame.sample, state]
  have atLast_eq : (m.clock i).frame.atLast = (!m.frame.atLast && m.frame.left == 1) := by
    rw [moves.atLast, sampled, if_pos taken]
    simp [RxFrame.sample, state]
  have length : (samples ++ [(i.dap1In, i.dap2In)]).length = samples.length + 1 := by simp
  have holds : (m.clock i).Holds (samples ++ [(i.dap1In, i.dap2In)]) :=
    (receives.holds (.inl state)).take state taken (receives.entry taken) moves.same.nbitsLast
  have after : m.frame.afterFields = .trail ∨ m.frame.afterFields = .ending := by
    rw [RxFrame.afterFields]
    cases m.frame.hasTrail <;> simp
  obtain ⟨next, ahead⟩ := RxFrame.countdown m.frame.left
  by_cases ends : m.frame.left = 0#7
  · have atLast : m.frame.atLast = true := by simp [last, ends]
    have notData : (m.clock i).frame.state ≠ .data := by
      rw [state_eq, atLast]
      cases m.frame.contR <;> cases m.frame.crcR <;> rcases after with after | after <;>
        simp [after]
    have none : m.frame.left.toNat = 0 := by rw [ends]; rfl
    exact {
      parcel := receives.parcel.same moves.same
      streamed := by
        intro out
        rw [pdone_eq, atLast, Bool.true_and] at out
        rw [state_eq, moves.contR, atLast, out, streaming]
        simp
      last := fun data => absurd data notData
      count := fun data => absurd data notData
      full := by
        intro _
        rw [length, moves.same.nbitsLast]
        omega
      holds := fun _ => holds
      entry := fun _ => by rw [moves.same.nbitsLast]; rfl }
  · have atLast : m.frame.atLast = false := by simp [last, ends]
    have some : m.frame.left ≠ 0#7 := ends
    have data : (m.clock i).frame.state = .data := by
      rw [state_eq, atLast]
      simp
    have notComplete : ¬Complete (m.clock i).frame := by
      rw [Complete, data, pdone_eq, atLast]
      simp
    have fewer := next some
    exact {
      parcel := receives.parcel.same moves.same
      streamed := by
        intro out
        rw [pdone_eq, atLast] at out
        cases out
      last := by
        intro _
        rw [atLast_eq, left_eq, atLast, ahead]
        simp [some]
      count := by
        intro _
        rw [length, left_eq, atLast, if_neg Bool.false_ne_true, moves.same.nbitsLast]
        omega
      full := fun complete => absurd complete notComplete
      holds := fun _ => holds
      entry := fun _ => by rw [moves.same.nbitsLast]; rfl }

/-- A clock of the payload without a sample. -/
theorem Receives.data_wait
    (receives : m.Receives samples)
    (runs : i.rst = false)
    (state : m.frame.state = .data)
    (none : m.beat.sampleTake = false) : (m.clock i).Receives (m.nextSamples i samples) := by
  have running : m.running := ⟨by simp [state], by simp [state]⟩
  have moves : m.Moves i (m.clock i).frame := moves_of_running runs running
  have waits : m.sampled i = { m.frame with pdone := false } := by
    rw [sampled, none, if_neg Bool.false_ne_true]
  have stays : (m.clock i).frame.state = .data := by rw [moves.state, waits, state]
  have pdone : (m.clock i).frame.pdone = false := by rw [moves.pdone, waits]
  have left : (m.clock i).frame.left = m.frame.left := by rw [moves.left, waits]
  have atLast : (m.clock i).frame.atLast = m.frame.atLast := by rw [moves.atLast, waits]
  have kept : m.nextSamples i samples = samples := by
    rw [nextSamples, if_pos state, none, if_neg Bool.false_ne_true]
  rw [kept]
  exact {
    parcel := receives.parcel.same moves.same
    streamed := by
      intro out
      rw [pdone] at out
      cases out
    last := fun _ => by rw [atLast, left, receives.last state]
    count := fun _ => by rw [left, moves.same.nbitsLast, receives.count state]
    full := by
      intro complete
      rw [Complete, stays, pdone] at complete
      simp at complete
    holds := fun _ => (receives.holds (.inl state)).wait (by simp [state]) (by simp [none])
      moves.same.nbitsLast
    entry := fun _ => by rw [moves.same.nbitsLast]; rfl }

/-- The parcel is as far as it was, in another state. -/
theorem Receives.goes_on
    (receives : m.Receives samples)
    (notIdle : m.frame.state ≠ .idle)
    (same : SameReply m.frame (m.clock i).frame)
    (pdone : (m.clock i).frame.pdone = false)
    (notData : m.frame.state ≠ .data)
    (notEnters : (m.clock i).frame.state ≠ .data)
    (complete : Complete (m.clock i).frame → Complete m.frame) :
    (m.clock i).Receives (m.nextSamples i samples) := by
  have kept : m.nextSamples i samples = samples := by
    rw [nextSamples, if_neg notData, if_neg notEnters]
  have none : ¬(m.beat.sampleTake = true ∧ m.frame.state = .data) := fun taken => notData taken.2
  rw [kept]
  exact {
    parcel := receives.parcel.same same
    streamed := by
      intro out
      rw [pdone] at out
      cases out
    last := fun data => absurd data notEnters
    count := fun data => absurd data notEnters
    full := fun complete' => by rw [same.nbitsLast, receives.full (complete complete')]
    holds := by
      rintro (data | complete')
      · exact absurd data notEnters
      · exact (receives.holds (.inr (complete complete'))).wait notIdle none same.nbitsLast
    entry := fun _ => by rw [same.nbitsLast]; rfl }

/-- A parcel whose payload is about to begin. -/
theorem receives_entered
    (parcel : IsParcel m.frame)
    (data : m.frame.state = .data)
    (pdone : m.frame.pdone = false)
    (left : m.frame.left = m.frame.nbitsLast)
    (atLast : m.frame.atLast = m.frame.nbZero)
    (entry : m.beat.sampleTake = true → m.capture.payAt = 1#63 <<< m.frame.nbitsLast.toNat) :
    m.Receives [] where
  parcel := parcel
  streamed := by
    intro out
    rw [pdone] at out
    cases out
  last := by
    intro _
    rw [atLast, left, parcel.nbZero, parcel.nbitsLast]
    cases m.frame.wideR <;> rfl
  count := by
    intro _
    rw [left, List.length_nil, Nat.zero_add]
  full := by
    intro complete
    rw [Complete, data, pdone] at complete
    simp at complete
  holds := fun _ => ⟨m.capture.payEven, m.capture.payOdd, rfl, rfl⟩
  entry := entry

/-- No parcel is complete right behind a hunt. -/
theorem Receives.hunt_incomplete
    (receives : m.Receives samples)
    (runs : i.rst = false)
    (state : m.frame.state = .hunt) : ¬Complete (m.clock i).frame := by
  have moves : m.Moves i (m.clock i).frame :=
    moves_of_running runs ⟨by simp [state], by simp [state]⟩
  have some : m.frame.nbitsR ≠ 0#7 := by
    rw [receives.parcel.nbitsR]
    decide
  rw [Complete, moves.state, moves.pdone, moves.timedOut, moves.done, sampled]
  cases taken : m.beat.sampleTake <;> cases high : i.dap1Ctl <;> cases limit : m.frame.atLimit <;>
    simp [RxFrame.sample, RxFrame.nextState, state, some, high, limit]

/-- The start bit of a parcel. -/
theorem Receives.start_bit
    (receives : m.Receives samples)
    (runs : i.rst = false)
    (state : m.frame.state = .hunt)
    (taken : m.beat.sampleTake = true)
    (high : i.dap1Ctl = true) : (m.clock i).Receives (m.nextSamples i samples) := by
  have running : m.running := ⟨by simp [state], by simp [state]⟩
  have moves : m.Moves i (m.clock i).frame := moves_of_running runs running
  have some : m.frame.nbitsR ≠ 0#7 := by
    rw [receives.parcel.nbitsR]
    decide
  have data : (m.clock i).frame.state = .data := by
    rw [moves.state, sampled, if_pos taken]
    simp [RxFrame.sample, RxFrame.nextState, state, high, some]
  have restart : m.nextSamples i samples = [] := by
    rw [nextSamples, if_neg (by simp [state]), if_pos data]
  rw [restart]
  refine receives_entered (receives.parcel.same moves.same) data ?_ ?_ ?_ ?_
  · rw [moves.pdone, sampled, if_pos taken]
    simp [RxFrame.sample, state]
  · rw [moves.left, sampled, if_pos taken, moves.same.nbitsLast]
    simp [RxFrame.sample, state]
  · rw [moves.atLast, sampled, if_pos taken, moves.same.nbZero]
    simp [RxFrame.sample, state]
  · intro _
    rw [moves.same.nbitsLast]
    rfl

/-- A clock of the hunt that finds no start bit. -/
theorem Receives.hunts_on
    (receives : m.Receives samples)
    (runs : i.rst = false)
    (state : m.frame.state = .hunt)
    (none : (m.beat.sampleTake && i.dap1Ctl) = false) :
    (m.clock i).Receives (m.nextSamples i samples) := by
  have running : m.running := ⟨by simp [state], by simp [state]⟩
  have moves : m.Moves i (m.clock i).frame := moves_of_running runs running
  cases taken : m.beat.sampleTake with
  | false =>
      have stays : (m.clock i).frame.state = .hunt := by
        rw [moves.state, sampled, taken, if_neg Bool.false_ne_true, state]
      have pdone : (m.clock i).frame.pdone = false := by
        rw [moves.pdone, sampled, taken, if_neg Bool.false_ne_true]
      exact receives.goes_on (by simp [state]) moves.same pdone (by simp [state]) (by simp [stays])
        fun complete => absurd complete (receives.hunt_incomplete runs state)
  | true =>
      have low : i.dap1Ctl = false := by rwa [taken, Bool.true_and] at none
      have pdone : (m.clock i).frame.pdone = false := by
        rw [moves.pdone, sampled, if_pos taken]
        simp [RxFrame.sample, state]
      have next : (m.clock i).frame.state = if m.frame.atLimit then .ending else .hunt := by
        rw [moves.state, sampled, if_pos taken]
        simp [RxFrame.sample, RxFrame.nextState, state, low]
      exact receives.goes_on (by simp [state]) moves.same pdone (by simp [state])
        (by rw [next]; split <;> simp)
        fun complete => absurd complete (receives.hunt_incomplete runs state)

/-- A clock of the positions after the payload. -/
theorem Receives.after_payload
    (receives : m.Receives samples)
    (runs : i.rst = false)
    (state : m.frame.state = .crc ∨ m.frame.state = .trail) :
    (m.clock i).Receives (m.nextSamples i samples) := by
  have running : m.running := by
    rcases state with state | state <;> exact ⟨by simp [state], by simp [state]⟩
  have notData : m.frame.state ≠ .data := by rcases state with state | state <;> simp [state]
  have moves : m.Moves i (m.clock i).frame := moves_of_running runs running
  have pdone : (m.clock i).frame.pdone = false := by
    rw [moves.pdone, sampled]
    split <;> simp [RxFrame.sample, notData]
  have notEnters : (m.clock i).frame.state ≠ .data := by
    rw [moves.state, sampled]
    rcases state with state | state <;> cases m.beat.sampleTake <;>
      simp only [RxFrame.sample, RxFrame.nextState, RxFrame.afterFields, state, if_true] <;>
      (repeat' split) <;> simp
  refine receives.goes_on running.1 moves.same pdone notData notEnters fun _ => ?_
  rcases state with state | state
  · exact .inr (.inl state)
  · exact .inr (.inr (.inl state))

/-- Nothing is complete as a reply starts. -/
theorem incomplete_of_idle (runs : i.rst = false) (idle : m.frame.state = .idle) :
    ¬Complete (m.clock i).frame := by
  intro complete
  have out : (m.clock i).frame.pdone = false ∧ (m.clock i).frame.done = false := by
    change (m.frameNext i).pdone = false ∧ (m.frameNext i).done = false
    rw [frameNext_idle runs idle]
    cases i.start <;> exact ⟨rfl, rfl⟩
  have next : (m.clock i).frame.state = .idle ∨ (m.clock i).frame.state = .hunt ∨
      (m.clock i).frame.state = .data := by
    change (m.frameNext i).state = .idle ∨ (m.frameNext i).state = .hunt ∨
      (m.frameNext i).state = .data
    rw [frameNext_idle runs idle]
    cases i.start <;> cases raw : i.noHunt <;>
      simp [RxFrame.begin, RxFrame.load, RxFrame.fallen, idle, raw]
  rw [Complete, out.1, out.2] at complete
  rcases next with next | next | next <;> simp [next] at complete

/-- A parcel gets complete within its payload, and stays so to its end. -/
theorem Receives.complete_back
    (receives : m.Receives samples)
    (runs : i.rst = false)
    (complete : Complete (m.clock i).frame)
    (notData : m.frame.state ≠ .data) : m.frame.state ≠ .hunt ∧ Complete m.frame := by
  have notHunt : m.frame.state ≠ .hunt := fun hunt => receives.hunt_incomplete runs hunt complete
  refine ⟨notHunt, ?_⟩
  cases state : m.frame.state with
  | data => exact absurd state notData
  | hunt => exact absurd state notHunt
  | crc => exact .inr (.inl state)
  | trail => exact .inr (.inr (.inl state))
  | ending =>
      obtain ⟨idle, -, pdone, timedOut, -⟩ := frameNext_ending (i := i) runs state
      have idle : (m.clock i).frame.state = .idle := idle
      have pdone : (m.clock i).frame.pdone = false := pdone
      have timedOut : (m.clock i).frame.timedOut = m.frame.timedOut := timedOut
      rw [Complete, idle, pdone, timedOut] at complete
      simp only [reduceCtorEq, Bool.false_eq_true, false_or, true_and] at complete
      exact .inr (.inr (.inr ⟨complete.1, .inl state⟩))
  | idle => exact absurd complete (incomplete_of_idle runs state)

/-- The last clock of a parcel that ends the reply. -/
theorem Receives.ends
    (receives : m.Receives samples)
    (runs : i.rst = false)
    (state : m.frame.state = .ending) : (m.clock i).Receives (m.nextSamples i samples) := by
  obtain ⟨idle, -, pdone, -, same⟩ : (m.clock i).frame.state = .idle ∧ _ :=
    frameNext_ending (i := i) runs state
  exact receives.goes_on (by simp [state]) same pdone (by simp [state]) (by simp [idle])
    fun complete => (receives.complete_back runs complete (by simp [state])).2

/-- A clock between the start of a parcel and its end. -/
theorem Receives.step
    (receives : m.Receives samples)
    (runs : i.rst = false)
    (notIdle : m.frame.state ≠ .idle) : (m.clock i).Receives (m.nextSamples i samples) := by
  cases state : m.frame.state with
  | idle => exact absurd state notIdle
  | hunt =>
      cases found : m.beat.sampleTake && i.dap1Ctl with
      | false => exact receives.hunts_on runs state found
      | true =>
          rw [Bool.and_eq_true] at found
          exact receives.start_bit runs state found.1 found.2
  | data =>
      cases taken : m.beat.sampleTake with
      | false => exact receives.data_wait runs state taken
      | true =>
          rw [nextSamples, if_pos state, if_pos taken]
          exact receives.data_sample runs state taken
  | crc => exact receives.after_payload runs (.inl state)
  | trail => exact receives.after_payload runs (.inr state)
  | ending => exact receives.ends runs state

/-- The start of a parcel. -/
theorem receives_begin
    (runs : i.rst = false)
    (idle : m.frame.state = .idle)
    (start : i.start = true)
    (parcel : i.replyBits = 32) (samples : List (Bool × Bool)) :
    (m.clock i).Receives (m.nextSamples i samples) := by
  have frame : (m.clock i).frame = m.frame.fallen.begin i m.waitLeft0 m.waitNone := by
    change m.frameNext i = _
    rw [frameNext_idle runs idle, if_pos start]
  have isParcel : IsParcel (m.clock i).frame := by
    rw [frame]
    refine ⟨parcel, ?_, ?_⟩
    · simp [RxFrame.begin, RxFrame.load, RxInput.oneSample, parcel]
    · cases wide : i.wide <;>
        simp [RxFrame.begin, RxFrame.load, RxInput.nbitsLastIn, parcel, wide]
  have noSample : (m.clock i).beat.sampleTake = false := by
    change (m.beatNext i).sampleTake = false
    simp [beatNext, runs, idle]
  cases raw : i.noHunt with
  | true =>
      have data : (m.clock i).frame.state = .data := by
        rw [frame]
        simp [RxFrame.begin, raw]
      rw [nextSamples, if_neg (by simp [idle]), if_pos data]
      refine receives_entered isParcel data ?_ ?_ ?_ ?_
      · rw [frame]; rfl
      · rw [frame]; rfl
      · rw [frame]; rfl
      · rw [noSample]
        intro impossible
        cases impossible
  | false =>
      have hunts : (m.clock i).frame.state = .hunt := by
        rw [frame]
        simp [RxFrame.begin, raw]
      have pdone : (m.clock i).frame.pdone = false := by rw [frame]; rfl
      have notComplete : ¬Complete (m.clock i).frame := by
        rw [Complete, hunts, pdone]
        simp
      exact {
        parcel := isParcel
        streamed := by
          intro out
          rw [pdone] at out
          cases out
        last := by simp [hunts]
        count := by simp [hunts]
        full := fun complete => absurd complete notComplete
        holds := by
          rintro (data | complete)
          · rw [hunts] at data
            cases data
          · exact absurd complete notComplete
        entry := by
          rw [noSample]
          intro impossible
          cases impossible }

/-! ## Words -/

/-- The word that some samples are. -/
def sampledWord (wide : Bool) (samples : List (Bool × Bool)) : BitVec 32 :=
  wordOf fun k => (lineBits wide samples).getD k false

theorem wordOf_congr {bits bits' : Nat → Bool} (same : ∀ k < 32, bits k = bits' k) :
    wordOf bits = wordOf bits' := by
  unfold wordOf
  congr 2
  exact List.map_congr_left fun k below => same k (List.mem_range.mp below)

/-- A parcel whose samples are all in is read out as their word. -/
theorem Receives.word (receives : m.Receives samples) (complete : Complete m.frame) :
    wordOf m.payload = sampledWord m.frame.wideR samples := by
  have full := receives.full complete
  obtain ⟨even, odd, inEven, inOdd⟩ := receives.holds (.inr complete)
  have last := receives.parcel.nbitsLast
  apply wordOf_congr
  intro k k_lt
  unfold payload lineBits
  rw [inEven, inOdd]
  cases wide : m.frame.wideR with
  | false =>
      have nbits : m.frame.nbitsLast.toNat = 31 := by rw [last, wide]; rfl
      rw [if_neg Bool.false_ne_true, if_neg Bool.false_ne_true]
      exact RxCapture.getLsbD_filled (by omega) even _ (by rw [List.length_map, full]) k (by omega)
  | true =>
      have nbits : m.frame.nbitsLast.toNat = 15 := by rw [last, wide]; rfl
      rw [if_pos rfl, if_pos rfl, getD_bothLines,
        RxCapture.getLsbD_filled (by omega) even _ (by rw [List.length_map, full]) _ (by omega),
        RxCapture.getLsbD_filled (by omega) odd _ (by rw [List.length_map, full]) _ (by omega)]

end FrameRx
end Fpga
end TriCoreDap
