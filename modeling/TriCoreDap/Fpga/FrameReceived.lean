import TriCoreDap.Fpga.ReplySamples
import TriCoreDap.Fpga.ClockBudget
import Mathlib.Data.Nat.Find

/-!
# The frame that the fabric receives

A sample is taken every other half period of `div + 1` clocks, and between two of them
only the registers worked out ahead change.  So the receiver reads of a line what its
samples say, whatever the lines do between them.
-/

namespace TriCoreDap
namespace Fpga
namespace FrameRx

open RxFrame

variable {W : Nat} {m : FrameRx W} {i j : RxInput W} {div : BitVec W} {r : Reply}
variable {pair : Bool × Bool}

/-! ## The beat -/

/-- The clocks from one sample to the next. -/
def spacing (div : BitVec W) : Nat := 2 * (div.toNat + 1)

/-- A sample is due in some clocks. -/
structure Beat (m : FrameRx W) (div : BitVec W) (due : Nat) : Prop where
  normal : m.beat.fastR = false
  samplePhase : m.beat.samplePhase = !(div == 0)
  tick : m.beat.tick.toNat ≤ div.toNat
  tickDone : m.beat.tickDone = decide (m.beat.tick.toNat = 0)
  away : due = m.beat.tick.toNat + 1 +
    if m.beat.phase = m.beat.samplePhase then 0 else div.toNat + 1

/-- The states of a reply that is received. -/
def receiving (f : RxFrame) : Prop := f.state = .hunt ∨ f.inFields

theorem receiving_iff (f : RxFrame) :
    receiving f → (f.state == .idle) = false ∧ (f.state == .ending) = false := by
  rintro (state | state | state | state) <;> simp [state]

theorem Beat.due_pos {due : Nat} (beat : Beat m div due) : 1 ≤ due := by
  have away := beat.away
  omega

/-- The end of a half period. -/
theorem Beat.turn
    {due : Nat}
    (beat : Beat m div due)
    (receives : receiving m.frame)
    (runs : j.rst = false)
    (steady : j.div = div)
    (elapsed : m.beat.tick.toNat = 0) :
    (m.clock j).beat =
      { m.beat with
        lagTap := j.lag - 1
        dap0 := !m.beat.phase
        sampleTake := m.beat.phase == m.beat.samplePhase
        clkHist := m.beat.clkHist <<< 1 ||| (BitVec.ofBool m.beat.dap0).setWidth 8
        tick := div
        tickDone := div == 0
        phase := !m.beat.phase } := by
  obtain ⟨notIdle, notEnding⟩ := receiving_iff m.frame receives
  have tickDone : m.beat.tickDone = true := by rw [beat.tickDone, decide_eq_true elapsed]
  have ending : (m.frame.state != .ending) = true := by simp [bne, notEnding]
  change m.beatNext j = _
  cases phase : m.beat.phase <;>
    simp [beatNext, dap0D, divZero, sampleNow, runs, notIdle, notEnding, tickDone, beat.normal,
      steady, phase, ending]

/-- A clock within a half period. -/
theorem Beat.hold
    {due : Nat}
    (beat : Beat m div due)
    (receives : receiving m.frame)
    (runs : j.rst = false)
    (more : m.beat.tick.toNat ≠ 0) :
    (m.clock j).beat =
      { m.beat with
        lagTap := j.lag - 1
        sampleTake := false
        clkHist := m.beat.clkHist <<< 1 ||| (BitVec.ofBool m.beat.dap0).setWidth 8
        tick := m.beat.tick - 1
        tickDone := m.beat.tick == 1 } := by
  obtain ⟨notIdle, notEnding⟩ := receiving_iff m.frame receives
  have tickDone : m.beat.tickDone = false := by rw [beat.tickDone, decide_eq_false more]
  change m.beatNext j = _
  simp [beatNext, dap0D, sampleNow, runs, notIdle, notEnding, tickDone, beat.normal]

/-- The strobe comes when the sample is due. -/
theorem Beat.next
    {due : Nat}
    (beat : Beat m div due)
    (receives : receiving m.frame)
    (runs : j.rst = false)
    (steady : j.div = div) :
    Beat (m.clock j) div (if due = 1 then spacing div else due - 1) ∧
      (m.clock j).beat.sampleTake = decide (due = 1) := by
  have away := beat.away
  by_cases elapsed : m.beat.tick.toNat = 0
  · have turned := beat.turn receives runs steady elapsed
    have flipped : (!m.beat.phase) = m.beat.samplePhase ↔ ¬m.beat.phase = m.beat.samplePhase := by
      cases m.beat.phase <;> cases m.beat.samplePhase <;> simp
    rw [elapsed] at away
    constructor
    · constructor
      · rw [turned]
        exact beat.normal
      · rw [turned]
        exact beat.samplePhase
      · rw [turned]
      · rw [turned]
        exact FrameTx.beq_zero_iff div
      · rw [turned]
        dsimp only
        unfold spacing
        by_cases phase : m.beat.phase = m.beat.samplePhase
        · rw [if_pos phase] at away
          rw [if_pos away, if_neg fun other => flipped.mp other phase]
          omega
        · rw [if_neg phase] at away
          rw [if_neg (by omega), if_pos (flipped.mpr phase)]
          omega
    · rw [turned, Bool.eq_iff_iff, beq_iff_eq, decide_eq_true_iff]
      by_cases phase : m.beat.phase = m.beat.samplePhase
      · rw [if_pos phase] at away
        exact iff_of_true phase away
      · rw [if_neg phase] at away
        exact iff_of_false phase (by omega)
  · have held := beat.hold receives runs elapsed
    obtain ⟨wait, wait_eq⟩ := Nat.exists_eq_succ_of_ne_zero elapsed
    obtain ⟨fewer, ends⟩ := FrameTx.toNat_pred wait_eq
    have below := beat.tick
    constructor
    · constructor
      · rw [held]
        exact beat.normal
      · rw [held]
        exact beat.samplePhase
      · rw [held]
        dsimp only
        omega
      · rw [held]
        dsimp only
        rw [fewer, ends]
      · rw [held]
        dsimp only
        rw [fewer, if_neg (by omega)]
        omega
    · rw [held]
      exact (decide_eq_false (by omega)).symm

/-! ## The registers between the samples -/

/-- The receiver has the registers of a reply; the checker's reset may be due. -/
structure Shows (m : FrameRx W) (r : Reply) : Prop where
  frame : m.frame = r.frame
  quiet : r.frame.done = false ∧ r.frame.pdone = false
  single : r.frame.contR = false ∧ r.frame.streamR = false
  payEven : m.capture.payEven = r.payEven
  payOdd : m.capture.payOdd = r.payOdd
  crcEven : m.capture.crcEven = r.crcEven
  crcOdd : m.capture.crcOdd = r.crcOdd
  check : (if m.capture.crcRst then fiboSeed else m.capture.check) = r.check
  moreR : m.streaming.moreR = false
  ssCont : m.streaming.ssCont = false

/-- What is worked out ahead of a sample is there. -/
structure Ready (m : FrameRx W) : Prop where
  hunting : m.hunting = (m.frame.state == .hunt)
  payAt : m.capture.payAt = 1#63 <<< m.frame.nbitsLast.toNat
  crcAt : m.capture.crcAt = 1#6 <<< m.frame.crcLast.toNat
  crcRst : m.capture.crcRst = false
  contOk : m.streaming.contOk = false

/-- A clock without a sample. -/
theorem Shows.hold
    (shows : Shows m r)
    (receives : receiving r.frame)
    (runs : j.rst = false)
    (none : m.beat.sampleTake = false) :
    Shows (m.clock j) r ∧ Ready (m.clock j) := by
  have here : receiving m.frame := by rw [shows.frame]; exact receives
  have notIdle := (receiving_iff m.frame here).1
  have pdone : m.frame.pdone = false := by rw [shows.frame]; exact shows.quiet.2
  have stream : m.frame.streamR = false := by rw [shows.frame]; exact shows.single.2
  have frame : (m.clock j).frame = m.frame := by
    change m.frameNext j = _
    rw [frameNext_sampled runs here pdone shows.ssCont, none, if_neg Bool.false_ne_true]
    exact fallen_eq (by rw [shows.frame]; exact shows.quiet)
  have capture : (m.clock j).capture =
      { m.capture with
        payAt := 1#63 <<< m.frame.nbitsLast.toNat
        crcAt := 1#6 <<< m.frame.crcLast.toNat
        check := if m.capture.crcRst then fiboSeed else m.capture.check
        crcRst := false } := by
    change m.captureNext j = _
    simp [captureNext, RxCapture.take, RxCapture.checkNext, notIdle, none]
  constructor
  · exact {
      frame := frame.trans shows.frame
      quiet := shows.quiet
      single := shows.single
      payEven := by rw [capture]; exact shows.payEven
      payOdd := by rw [capture]; exact shows.payOdd
      crcEven := by rw [capture]; exact shows.crcEven
      crcOdd := by rw [capture]; exact shows.crcOdd
      check := by rw [capture]; exact shows.check
      moreR := by
        change (m.frame.streamR && _) = false
        rw [stream, Bool.false_and]
      ssCont := by
        change (m.startSeen j && _) = false
        simp [startSeen, none] }
  · exact {
      hunting := by rw [frame]; rfl
      payAt := by rw [frame, capture]
      crcAt := by rw [frame, capture]
      crcRst := by rw [capture]
      contOk := by
        change (m.streaming.moreR && _) = false
        rw [shows.moreR, Bool.false_and] }

/-- A clock that takes a sample. -/
theorem Shows.sample
    (shows : Shows m r)
    (ready : Ready m)
    (receives : receiving r.frame)
    (runs : j.rst = false)
    (taken : m.beat.sampleTake = true)
    (lines : j.toRxLines = .of pair) :
    Shows (m.clock j) (r.take pair) ∧ (m.clock j).capture.crcRst = false := by
  have here : receiving m.frame := by rw [shows.frame]; exact receives
  have notIdle := (receiving_iff m.frame here).1
  have pdone : m.frame.pdone = false := by rw [shows.frame]; exact shows.quiet.2
  have stream : m.frame.streamR = false := by rw [shows.frame]; exact shows.single.2
  have single : m.frame.contR = false := by rw [shows.frame]; exact shows.single.1
  have frame : (m.clock j).frame = r.frame.sample (r.frame.state == .hunt) (.of pair) := by
    change m.frameNext j = _
    rw [frameNext_sampled runs here pdone shows.ssCont, taken, if_pos rfl, lines, ready.hunting,
      shows.frame, fallen_eq shows.quiet]
  have dap1 : j.dap1In = pair.1 := congrArg RxLines.dap1In lines
  have dap2 : j.dap2In = pair.2 := congrArg RxLines.dap2In lines
  have check := shows.check
  rw [ready.crcRst, if_neg Bool.false_ne_true] at check
  have capture : (m.clock j).capture = m.captureNext j := rfl
  have odd : (1#63 <<< m.frame.nbitsLast.toNat).setWidth 32 = 1#32 <<< m.frame.nbitsLast.toNat :=
    RxCapture.setWidth_entry 63 32 _ (by omega)
  have crcOdd : (1#6 <<< m.frame.crcLast.toNat).setWidth 3 = 1#3 <<< m.frame.crcLast.toNat :=
    RxCapture.setWidth_entry 6 3 _ (by omega)
  have begins : (m.frame.state == .idle && j.start) = false := by rw [notIdle, Bool.false_and]
  have fields : (m.clock j).capture.payEven = (r.take pair).payEven ∧
      (m.clock j).capture.payOdd = (r.take pair).payOdd ∧
      (m.clock j).capture.crcEven = (r.take pair).crcEven ∧
      (m.clock j).capture.crcOdd = (r.take pair).crcOdd := by
    rw [capture]
    unfold captureNext RxCapture.take Reply.take
    dsimp only
    rw [begins, if_neg Bool.false_ne_true, taken, ready.payAt, ready.crcAt, odd, crcOdd, dap1, dap2,
      shows.payEven, shows.payOdd, shows.crcEven, shows.crcOdd, shows.frame]
    simp only [Bool.true_and, and_self]
  obtain ⟨payEven, payOdd, crcEven, crcOdd⟩ := fields
  have settled : (m.clock j).capture.crcRst = false := by
    change (!j.rst && (m.frame.state == .idle && j.start || _ && m.frame.contR)) = false
    rw [begins, single, Bool.and_false, Bool.or_false, Bool.and_false]
  refine ⟨?_, settled⟩
  exact {
    frame := frame
    quiet := ⟨shows.quiet.1, by simp [Reply.take, RxFrame.sample, shows.single.1]⟩
    single := shows.single
    payEven := payEven
    payOdd := payOdd
    crcEven := crcEven
    crcOdd := crcOdd
    check := by
      rw [settled, if_neg Bool.false_ne_true]
      change m.capture.checkNext m.frame m.beat.sampleTake j.toRxLines = _
      simp [RxCapture.checkNext, taken, ready.crcRst, check, Reply.take, shows.frame, dap1, dap2]
    moreR := by
      change (m.frame.streamR && _) = false
      rw [stream, Bool.false_and]
    ssCont := by
      change (m.startSeen j && m.streaming.contOk) = false
      rw [ready.contOk, Bool.and_false] }

/-- The clock that puts a reply away. -/
theorem Shows.finish
    (shows : Shows m r)
    (settled : m.capture.crcRst = false)
    (ending : r.frame.state = .ending)
    (runs : j.rst = false)
    (none : m.beat.sampleTake = false) :
    (m.clock j).frame = r.frame.finish (r.check == 0) r.frame ∧
      (m.clock j).capture.payEven = r.payEven ∧
      (m.clock j).capture.payOdd = r.payOdd ∧
      (m.clock j).capture.crcEven = r.crcEven ∧
      (m.clock j).capture.crcOdd = r.crcOdd := by
  have state : m.frame.state = .ending := by rw [shows.frame]; exact ending
  have pdone : m.frame.pdone = false := by rw [shows.frame]; exact shows.quiet.2
  have check := shows.check
  rw [settled, if_neg Bool.false_ne_true] at check
  constructor
  · change m.frameNext j = _
    unfold frameNext RxCapture.residueOk
    dsimp only
    rw [runs, state, none, shows.ssCont, pdone, check, shows.frame, fallen_eq shows.quiet]
    rfl
  · change (m.captureNext j).payEven = _ ∧ (m.captureNext j).payOdd = _ ∧
      (m.captureNext j).crcEven = _ ∧ (m.captureNext j).crcOdd = _
    have begins : (m.frame.state == .idle && j.start) = false := by simp [state]
    unfold captureNext RxCapture.take
    dsimp only
    rw [begins, none, if_neg Bool.false_ne_true]
    exact ⟨shows.payEven, shows.payOdd, shows.crcEven, shows.crcOdd⟩

/-! ## Runs -/

section Run

variable {inputs : Nat → RxInput W} {line : Nat → Bool × Bool}

/-- A sample is taken at this clock. -/
def taking (m : FrameRx W) : Bool := m.beat.sampleTake && m.frame.state != .idle

/-- The samples that are taken in the first clocks of a run. -/
def samples (m : FrameRx W) (inputs : Nat → RxInput W) (n : Nat) : Nat :=
  ((List.range n).filter fun k => (m.after inputs k).taking).length

theorem samples_succ (m : FrameRx W) (inputs : Nat → RxInput W) (n : Nat) :
    m.samples inputs (n + 1) =
      m.samples inputs n + if (m.after inputs n).taking then 1 else 0 := by
  unfold samples
  rw [List.range_succ, List.filter_append, List.length_append]
  cases shown : (m.after inputs n).taking <;> simp [shown]

/-- A reply at any divider: `inputs 1` starts it, and the samples show the line's pairs.
MAXWAIT is set a clock ahead, and nothing is streamed. -/
structure NormalReply
    (m : FrameRx W)
    (inputs : Nat → RxInput W)
    (line : Nat → Bool × Bool) : Prop where
  idle : m.frame.state = .idle
  runs : ∀ n, (inputs n).rst = false
  quiet : (inputs 0).start = false
  starts : (inputs 1).start = true
  normal : (inputs 1).fast = false
  hunts : (inputs 1).noHunt = false
  single : (inputs 0).stream = false ∧ (inputs 1).stream = false
  fits : (inputs 1).replyBits.toNat ≤ 63
  limit : (inputs 0).maxWait = (inputs 1).maxWait
  div : ∀ n, 1 ≤ n → (inputs n).div = (inputs 1).div
  shows : ∀ n, (m.after inputs n).taking = true →
    (inputs n).toRxLines = .of (line (m.samples inputs n))

/-- At a clock of a run that takes a sample. -/
structure AtSample (m : FrameRx W) (div : BitVec W) (r : Reply) : Prop where
  shows : Shows m r
  ready : Ready m
  taken : m.beat.sampleTake = true
  beat : Beat m div (spacing div)

/-- No sample is taken until one is due. -/
theorem NormalReply.waits
    (reply : NormalReply m inputs line)
    {n due : Nat}
    (later : 1 ≤ n)
    (shows : Shows (m.after inputs n) r)
    (receives : receiving r.frame)
    (none : (m.after inputs n).beat.sampleTake = false)
    (beat : Beat (m.after inputs n) (inputs 1).div due) :
    AtSample (m.after inputs (n + due)) (inputs 1).div r ∧
      m.samples inputs (n + due) = m.samples inputs n ∧
      ∀ t, n ≤ t → t ≤ n + due → (m.after inputs t).frame.done = false := by
  induction due generalizing n with
  | zero => exact absurd beat.due_pos (by omega)
  | succ due inductionHypothesis =>
      obtain ⟨held, ready⟩ := shows.hold receives (reply.runs n) none
      obtain ⟨beat', taken⟩ := beat.next (by rw [shows.frame]; exact receives) (reply.runs n)
        (reply.div n later)
      have count : m.samples inputs (n + 1) = m.samples inputs n := by
        rw [samples_succ, taking, none, Bool.false_and, if_neg Bool.false_ne_true, Nat.add_zero]
      have undone : (m.after inputs n).frame.done = false := by
        rw [shows.frame]
        exact shows.quiet.1
      cases due with
      | zero =>
          refine ⟨⟨held, ready, taken, beat'⟩, count, fun t n_le t_le => ?_⟩
          have ends : t = n ∨ t = n + 1 := by omega
          rcases ends with rfl | rfl
          · exact undone
          · exact (congrArg RxFrame.done held.frame).trans held.quiet.1
      | succ due =>
          rw [if_neg (by omega)] at beat'
          rw [decide_eq_false (by omega)] at taken
          obtain ⟨at_sample, same, waits⟩ :=
            @inductionHypothesis (n + 1) (by omega) held taken beat'
          have place : n + 1 + (due + 1) = n + (due + 1 + 1) := by omega
          rw [place] at at_sample same waits
          refine ⟨at_sample, same.trans count, fun t n_le t_le => ?_⟩
          rcases Nat.eq_or_lt_of_le n_le with rfl | less
          · exact undone
          · exact waits t less t_le

/-- The clock of a sample. -/
theorem NormalReply.take
    (reply : NormalReply m inputs line)
    {n : Nat}
    (later : 1 ≤ n)
    (at_sample : AtSample (m.after inputs n) (inputs 1).div r)
    (receives : receiving r.frame) :
    let taken := r.take (line (m.samples inputs n))
    Shows (m.after inputs (n + 1)) taken ∧
      (m.after inputs (n + 1)).capture.crcRst = false ∧
      (m.after inputs (n + 1)).beat.sampleTake = false ∧
      Beat (m.after inputs (n + 1)) (inputs 1).div (spacing (inputs 1).div - 1) ∧
      m.samples inputs (n + 1) = m.samples inputs n + 1 := by
  intro taken
  have here : receiving (m.after inputs n).frame := by
    rw [at_sample.shows.frame]
    exact receives
  have takes : (m.after inputs n).taking = true := by
    rw [taking, at_sample.taken, Bool.true_and, bne, (receiving_iff _ here).1, Bool.not_false]
  obtain ⟨shows, settled⟩ := at_sample.shows.sample at_sample.ready receives (reply.runs n)
    at_sample.taken (reply.shows n takes)
  obtain ⟨beat, none⟩ := at_sample.beat.next here (reply.runs n) (reply.div n later)
  have several : spacing (inputs 1).div ≠ 1 := by
    unfold spacing
    omega
  rw [if_neg several] at beat
  rw [decide_eq_false several] at none
  exact ⟨shows, settled, none, beat, by rw [samples_succ, takes, if_pos rfl]⟩

/-- The clock that starts a reply. -/
theorem NormalReply.started
    (reply : NormalReply m inputs line) :
    ∃ r : Reply, r.Hunted (inputs 1) 0 ∧ Shows (m.after inputs 2) r ∧
      (m.after inputs 2).beat.sampleTake = false ∧
      (∃ due, Beat (m.after inputs 2) (inputs 1).div due) ∧
      m.samples inputs 2 = 0 ∧ (m.after inputs 1).frame.done = false := by
  obtain ⟨loaded, ssCont, -⟩ := clock_idle reply.idle (reply.runs 0) reply.quiet
  have idle : (m.after inputs 1).frame.state = .idle :=
    (congrArg RxFrame.state loaded).trans reply.idle
  have frame : (m.after inputs 2).frame =
      (m.after inputs 1).frame.fallen.begin (inputs 1) (m.after inputs 1).waitLeft0
        (m.after inputs 1).waitNone := by
    change (m.after inputs 1).frameNext (inputs 1) = _
    simp [frameNext, reply.runs, idle, reply.starts]
  have begun := begin_sound (m.after inputs 1).frame.fallen (inputs 1)
    (m.after inputs 1).waitLeft0 (m.after inputs 1).waitNone reply.hunts
  have beat : (m.after inputs 2).beat = (m.after inputs 1).beatNext (inputs 1) := rfl
  have capture : (m.after inputs 2).capture = (m.after inputs 1).captureNext (inputs 1) := rfl
  have left : (m.after inputs 1).waitLeft0 =
      if (inputs 1).maxWait == 0 then 0 else (inputs 1).maxWait - 1 := by
    rw [← reply.limit]
    rfl
  have limit : (m.after inputs 1).waitNone = (inputs 1).maxWait.ule 1 := by
    rw [← reply.limit]
    rfl
  have stream : (m.after inputs 1).frame.streamR = false := by
    change (m.clock (inputs 0)).frame.streamR = false
    rw [loaded]
    change ((inputs 0).stream && _) = false
    rw [reply.single.1, Bool.false_and]
  have begins : ((m.after inputs 1).frame.state == .idle && (inputs 1).start) = true := by
    simp [idle, reply.starts]
  refine ⟨⟨(m.after inputs 2).frame, 0, 0, 0, 0, fiboSeed⟩, ?_, ?_, ?_, ?_, ?_, ?_⟩
  · exact {
      taken := by
        rw [frame]
        exact ⟨rfl, rfl, by simp [begin, load, reply.hunts], rfl, rfl⟩
      sound := by rw [frame]; exact begun.1
      state := by rw [frame]; exact begun.2
      quiet := by rw [frame]; exact ⟨rfl, rfl⟩
      limit := by
        rw [frame]
        exact limit
      waitLeft := by
        rw [frame]
        change (m.after inputs 1).waitLeft0.toNat = _
        rw [left, toNat_waitLeft0, Nat.sub_zero]
      waitCycles := by rw [frame]; rfl
      timedOut := by rw [frame]; rfl
      payEven := rfl
      payOdd := rfl
      crcEven := rfl
      crcOdd := rfl
      check := rfl }
  · exact {
      frame := rfl
      quiet := by rw [frame]; exact ⟨rfl, rfl⟩
      single := by
        rw [frame]
        refine ⟨rfl, ?_⟩
        change ((inputs 1).stream && _) = false
        rw [reply.single.2, Bool.false_and]
      payEven := by
        rw [capture]
        simp [captureNext, begins]
      payOdd := by
        rw [capture]
        simp [captureNext, begins]
      crcEven := by
        rw [capture]
        simp [captureNext, begins]
      crcOdd := by
        rw [capture]
        simp [captureNext, begins]
      check := by
        have reset : (m.after inputs 2).capture.crcRst = true := by
          rw [capture]
          simp [captureNext, begins, reply.runs]
        rw [reset, if_pos rfl]
      moreR := by
        change ((m.after inputs 1).frame.streamR && _) = false
        rw [stream, Bool.false_and]
      ssCont := by
        change ((m.after inputs 1).startSeen (inputs 1) && _) = false
        simp [startSeen, idle] }
  · rw [beat]
    simp [beatNext, reply.runs, idle]
  · refine ⟨(inputs 1).div.toNat + 1 + if (inputs 1).div == 0 then 0 else (inputs 1).div.toNat + 1,
      ?_, ?_, ?_, ?_, ?_⟩
    · rw [beat]
      simp [beatNext, reply.runs, idle, reply.normal]
    · rw [beat]
      simp [beatNext, reply.runs, idle, reply.normal]
    · rw [beat]
      simp [beatNext, reply.runs, idle]
    · rw [beat]
      simp [beatNext, reply.runs, idle, reply.normal, ← FrameTx.beq_zero_iff]
    · rw [beat]
      simp [beatNext, reply.runs, idle, reply.normal]
  · have zero : (m.after inputs 0).taking = false := by simp [taking, after, reply.idle]
    have one : (m.after inputs 1).taking = false := by simp [taking, idle]
    rw [samples_succ, samples_succ, zero, one]
    rfl
  · change (m.clock (inputs 0)).frame.done = false
    rw [loaded]
    rfl

/-- The samples come one after the other while the reply is received. -/
theorem NormalReply.at_samples
    (reply : NormalReply m inputs line)
    (hunted : r.Hunted (inputs 1) 0)
    (shows : Shows (m.after inputs 2) r)
    (none : (m.after inputs 2).beat.sampleTake = false)
    (beat : ∃ due, Beat (m.after inputs 2) (inputs 1).div due)
    (before : m.samples inputs 2 = 0)
    (undone : (m.after inputs 1).frame.done = false)
    {k : Nat}
    (receives : ∀ k', k' ≤ k → receiving (r.upTo line k').frame) :
    ∃ n, 1 ≤ n ∧ AtSample (m.after inputs n) (inputs 1).div (r.upTo line k) ∧
      m.samples inputs n = k ∧ ∀ t, 1 ≤ t → t ≤ n → (m.after inputs t).frame.done = false := by
  induction k with
  | zero =>
      obtain ⟨due, beat⟩ := beat
      obtain ⟨at_sample, same, waits⟩ :=
        reply.waits (by omega) shows (.inl hunted.state) none beat
      refine ⟨2 + due, by omega, at_sample, same.trans before, fun t one_le t_le => ?_⟩
      rcases Nat.eq_or_lt_of_le one_le with rfl | more
      · exact undone
      · exact waits t more t_le
  | succ k inductionHypothesis =>
      obtain ⟨n, later, at_sample, count, waits⟩ :=
        inductionHypothesis fun k' k'_le => receives k' (by omega)
      obtain ⟨shows, -, none, beat, more⟩ := reply.take later at_sample (receives k (by omega))
      rw [count] at shows more
      obtain ⟨at_next, same, waits'⟩ :=
        reply.waits (by omega) shows (receives (k + 1) le_rfl) none beat
      refine ⟨_, by omega, at_next, same.trans more, fun t one_le t_le => ?_⟩
      rcases Nat.lt_or_ge n t with beyond | up_to
      · exact waits' t beyond t_le
      · exact waits t one_le up_to

/-- A reply that its samples bring to an end is put away with what they gave. -/
theorem NormalReply.ends
    (reply : NormalReply m inputs line)
    (hunted : r.Hunted (inputs 1) 0)
    (shows : Shows (m.after inputs 2) r)
    (none : (m.after inputs 2).beat.sampleTake = false)
    (beat : ∃ due, Beat (m.after inputs 2) (inputs 1).div due)
    (before : m.samples inputs 2 = 0)
    (undone : (m.after inputs 1).frame.done = false)
    {k : Nat}
    (receives : ∀ k', k' ≤ k → receiving (r.upTo line k').frame)
    (ending : (r.upTo line (k + 1)).frame.state = .ending) :
    ∃ n, (∀ t, 1 ≤ t → t ≤ n → (m.after inputs t).frame.done = false) ∧
      m.samples inputs (n + 1) = k + 1 ∧
      let last := r.upTo line (k + 1)
      (m.after inputs (n + 1)).frame = last.frame.finish (last.check == 0) last.frame ∧
      (m.after inputs (n + 1)).capture.payEven = last.payEven ∧
      (m.after inputs (n + 1)).capture.payOdd = last.payOdd ∧
      (m.after inputs (n + 1)).capture.crcEven = last.crcEven ∧
      (m.after inputs (n + 1)).capture.crcOdd = last.crcOdd := by
  obtain ⟨n, later, at_sample, count, waits⟩ :=
    reply.at_samples hunted shows none beat before undone receives
  obtain ⟨shows', settled, none', -, more⟩ := reply.take later at_sample (receives k le_rfl)
  rw [count] at shows' more
  have finish := shows'.finish settled ending (reply.runs (n + 1)) none'
  refine ⟨n + 1, fun t one_le t_le => ?_, ?_, finish⟩
  · rcases Nat.eq_or_lt_of_le t_le with rfl | less
    · exact (congrArg RxFrame.done shows'.frame).trans shows'.quiet.1
    · exact waits t one_le (by omega)
  · rw [samples_succ, taking, none', Bool.false_and, if_neg Bool.false_ne_true, more]

/-- The receiver decodes every reply.  A start bit within the wait limit leads to the
payload and the CRC of the samples behind it, to the verdict of the host's checker on them
(of an empty payload, or without a CRC, nothing is checked) and to one sample for each
position; otherwise the reply times out at the limit. -/
theorem reply_received (reply : NormalReply m inputs line) :
    let i := inputs 1
    let limit := max i.maxWait.toNat 1
    ∃ n, (∀ t, 1 ≤ t → t ≤ n → (m.after inputs t).frame.done = false) ∧
      let last := m.after inputs (n + 1)
      last.frame.done = true ∧
      (∀ w, w < limit → (∀ k, k < w → (line k).1 = false) → (line w).1 = true →
        let payload := lineBits i.wide (Reply.segment line (w + 1) i.payloadSamples)
        let crc := lineBits i.wide
          (Reply.segment line (w + 1 + i.payloadSamples) (RxFrame.crcsOf i))
        m.samples inputs (n + 1) = w + 1 + i.positions ∧
          last.frame.timedOut = false ∧
          last.frame.waitCycles.toNat = w ∧
          (∀ k, k < 63 → last.payload k = payload.getD k false) ∧
          (∀ k, k < 6 → last.crc k = crc.getD k false) ∧
          last.frame.crcOk = if i.checks then dapCrc6ResidueOk (payload ++ crc) else true) ∧
      ((∀ k, k < limit → (line k).1 = false) →
        m.samples inputs (n + 1) = limit ∧
          last.frame.timedOut = true ∧
          last.frame.crcOk = false) := by
  intro i limit
  obtain ⟨r, hunted, shows, none, beat, before, undone⟩ := reply.started
  have ends := fun k => reply.ends (k := k) hunted shows none beat before undone
  by_cases found : ∃ w, w < limit ∧ (line w).1 = true
  · -- The first start bit.
    obtain ⟨within, high⟩ := Nat.find_spec found
    have low (k : Nat) (k_lt : k < Nat.find found) : (line k).1 = false := by
      have earlier := Nat.find_min found k_lt
      rw [not_and, Bool.not_eq_true] at earlier
      exact earlier (by omega)
    generalize Nat.find found = w at within high low
    have read : (r.upTo line (w + 1)).Read i w [] [] [] := (hunted.run low within).start high
    have receives (k' : Nat) (k'_le : k' ≤ w + i.positions) : receiving (r.upTo line k').frame := by
      rcases Nat.lt_or_ge w k' with behind | ahead
      · obtain ⟨k, rfl⟩ := Nat.exists_eq_add_of_le behind
        obtain ⟨pay, crc, trail, so_far, read'⟩ := read.run (k := k) (by omega)
        refine .inr (read'.running_iff.1.mpr ?_)
        rw [so_far, Reply.length_segment]
        omega
      · exact .inl (hunted.run (fun k k_lt => low k (Nat.lt_of_lt_of_le k_lt ahead))
          (Nat.lt_of_le_of_lt ahead within)).state
    obtain ⟨pay, crc, trail, all, whole⟩ := read.run (k := i.positions) le_rfl
    have place : w + 1 + i.positions = w + i.positions + 1 := by omega
    rw [place] at whole
    have ending := whole.running_iff.2.mpr (by rw [all, Reply.length_segment])
    have stage := whole.stage
    obtain ⟨payload, check⟩ := whole.fields all
    obtain ⟨n, waits, count, frame, payEven, payOdd, crcEven, crcOdd⟩ :=
      ends (w + i.positions) receives ending
    unfold Reply.Stage at stage
    rw [ending] at stage
    refine ⟨n, waits, by rw [frame]; rfl, fun w' _ low' high' => ?_, fun silent => ?_⟩
    · have same : w' = w := by
        rcases Nat.lt_trichotomy w' w with less | same | more
        · exact absurd high' (by rw [low w' less]; exact Bool.false_ne_true)
        · exact same
        · exact absurd high (by rw [low' w more]; exact Bool.false_ne_true)
      subst same
      rw [← payload, ← check]
      have wide : (m.after inputs (n + 1)).frame.wideR = i.wide := by
        rw [frame]
        exact whole.taken.wideR
      refine ⟨by omega, ?_, ?_, fun k _ => ?_, fun k _ => ?_, ?_⟩
      · rw [frame]
        exact whole.timedOut
      · rw [frame]
        exact whole.waitCycles
      · rw [FrameRx.payload, wide, payEven, payOdd]
        exact whole.payload_bits reply.fits stage.1 k
      · rw [FrameRx.crc, wide, crcEven, crcOdd]
        exact whole.crc_bits stage.2 k
      · rw [frame, ← whole.residue]
        simp only [RxFrame.finish, whole.taken.nbitsR, whole.taken.crcR, whole.timedOut,
          RxInput.checks]
        by_cases expected : i.expectCrc = true <;> by_cases empty : i.replyBits = 0#7 <;>
          simp [expected, empty]
    · rw [silent w within] at high
      exact absurd high Bool.false_ne_true
  · -- No start bit within the limit.
    have low (k : Nat) (k_lt : k < limit) : (line k).1 = false := by
      by_contra high
      exact found ⟨k, k_lt, Bool.not_eq_false _ ▸ high⟩
    have hunts (k : Nat) (k_lt : k < limit) : (r.upTo line k).Hunted i k :=
      hunted.run (fun k' k'_lt => low k' (by omega)) k_lt
    obtain ⟨k, k_eq⟩ := Nat.exists_eq_add_of_le' (Nat.le_max_right i.maxWait.toNat 1)
    have limit_eq : limit = k + 1 := k_eq
    obtain ⟨ending, timedOut, -⟩ := (hunts k (by omega)).timeout (low k (by omega)) (by omega)
    obtain ⟨n, waits, count, frame, -⟩ :=
      ends k (fun k' k'_le => .inl (hunts k' (by omega)).state) ending
    refine ⟨n, waits, by rw [frame]; rfl, fun w within _ high => ?_, fun _ => ?_⟩
    · rw [low w within] at high
      exact absurd high Bool.false_ne_true
    · have late : (r.upTo line (k + 1)).frame.timedOut = true := timedOut
      refine ⟨by omega, ?_, ?_⟩
      · rw [frame]
        exact late
      · rw [frame]
        simp [RxFrame.finish, late]

end Run

/-! ## A target that answers -/

/-- The receiver and the samples it has taken, each of them the line's next pair. -/
def answered
    (m : FrameRx W)
    (request : Nat → RxInput W)
    (line : Nat → Bool × Bool) : Nat → FrameRx W × Nat
  | 0 => (m, 0)
  | n + 1 =>
      let (m', taken) := m.answered request line n
      (m'.clock { request n with toRxLines := .of (line taken) },
        taken + if m'.taking then 1 else 0)

/-- The request with the answers on the lines. -/
def answers
    (m : FrameRx W)
    (request : Nat → RxInput W)
    (line : Nat → Bool × Bool)
    (n : Nat) : RxInput W :=
  { request n with toRxLines := .of (line (m.answered request line n).2) }

theorem answered_eq
    (m : FrameRx W)
    (request : Nat → RxInput W)
    (line : Nat → Bool × Bool)
    (n : Nat) :
    m.answered request line n =
      (m.after (m.answers request line) n, m.samples (m.answers request line) n) := by
  induction n with
  | zero => rfl
  | succ n inductionHypothesis =>
      have taken : (m.answered request line n).2 = m.samples (m.answers request line) n := by
        rw [inductionHypothesis]
      rw [answered, samples_succ, after, answers, taken, inductionHypothesis]

/-- A request for a word over both lines, at half the clock. -/
def wideRequest (n : Nat) : RxInput 8 :=
  { wordReply n with wide := true, fast := false, div := 1 }

/-- Two wait cycles, the start bit, and 0xC0FFEE12 with its CRC. -/
def wordLine (n : Nat) : Bool × Bool :=
  if n < 3 then (n == 2, false)
  else if n < 19 then
    ((0xC0FFEE12#32).getLsbD (2 * (n - 3)), (0xC0FFEE12#32).getLsbD (2 * (n - 3) + 1))
  else (n != 19, n != 19)

theorem reply_received_word :
    ∃ n, let last := rested.after (rested.answers wideRequest wordLine) (n + 1)
      rested.samples (rested.answers wideRequest wordLine) (n + 1) = 2 + 1 + 20 ∧
        last.frame.waitCycles = 2 ∧
        (∀ k, k < 32 → last.payload k = (0xC0FFEE12#32).getLsbD k) ∧
        last.frame.crcOk = true := by
  have reply : NormalReply rested (rested.answers wideRequest wordLine) wordLine := {
    idle := rfl
    runs := fun _ => rfl
    quiet := rfl
    starts := rfl
    normal := rfl
    hunts := rfl
    single := ⟨rfl, rfl⟩
    fits := by decide
    limit := rfl
    div := fun _ _ => rfl
    shows := fun n _ => by rw [answers, answered_eq] }
  obtain ⟨n, -, -, decoded, -⟩ := reply_received reply
  obtain ⟨count, -, waits, payload, -, verdict⟩ :=
    decoded 2 (by decide) (by decide) (by decide)
  refine ⟨n, count, BitVec.eq_of_toNat_eq waits, fun k k_lt => ?_, ?_⟩
  · rw [payload k (by omega)]
    revert k
    decide +kernel
  · rw [verdict]
    decide +kernel

end FrameRx
end Fpga
end TriCoreDap
