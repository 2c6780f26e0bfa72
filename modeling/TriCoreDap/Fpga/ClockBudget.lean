import TriCoreDap.Fpga.ReplyFields
import Mathlib.Data.Nat.Bitwise

/-!
# The clocks of a fast reply

A clock's bit comes back `lag + 1` clocks later, so that the clocks run on until the start
bit is seen, and the budget stops them.  Time is counted from the clock that starts the
reply's first clock.
-/

namespace TriCoreDap
namespace Fpga
namespace FrameRx

variable {W : Nat} {m : FrameRx W} {i j : RxInput W} {k : Nat}

/-- The clocks that DAP0 has had. -/
def clocks (m : FrameRx W) (inputs : Nat → RxInput W) (n : Nat) : Nat :=
  ((List.range n).filter fun k => (m.after inputs (k + 1)).beat.dap0).length

/-- One fast reply that is not streamed, its parameters `inputs 1`.  The target answers
with `line`, a bit for each clock, and its first one comes after some busy clocks that the
wait limit allows.  MAXWAIT is set a clock ahead, and LAG does not change. -/
structure FastReply
    (m : FrameRx W)
    (inputs : Nat → RxInput W)
    (line : Nat → Bool)
    (busy : Nat) : Prop where
  idle : m.frame.state = .idle
  runs : ∀ n, (inputs n).rst = false
  starts : ∀ n, (inputs n).start = decide (n = 1)
  fast : (inputs 1).fast = true
  hunts : (inputs 1).noHunt = false
  single : (inputs 1).stream = false
  limit : (inputs 0).maxWait = (inputs 1).maxWait
  lag_pos : 1 ≤ (inputs 1).lag.toNat
  lag : ∀ n, 1 ≤ n → (inputs n).lag = (inputs 1).lag
  answers : ∀ n, (m.after inputs (n + 1)).beat.dap0 = true →
    (inputs (n + 1 + (inputs 1).lag.toNat + 1)).dap1Ctl = line (m.clocks inputs n)
  silent : ∀ n, n < busy → line n = false
  startBit : line busy = true
  within : busy < max (inputs 1).maxWait.toNat 1

/-- The busy samples that are taken in the first clocks. -/
def busyTaken (i : RxInput W) (k : Nat) : Nat := k - (i.lag.toNat + 1)

/-- Some clocks into a fast reply, its start bit not seen. -/
structure Hunting (m : FrameRx W) (i : RxInput W) (k : Nat) : Prop where
  sound : m.frame.Sound
  state : m.frame.state = .hunt
  positions : m.frame.positions = i.positions
  allowance : m.frame.afterAll.toNat = i.allowance
  stream : m.frame.streamR = false
  limit : m.frame.atLimit = decide (i.maxWait.toNat ≤ busyTaken i k + 1)
  waitLeft : m.frame.waitLeft.toNat = i.maxWait.toNat - 1 - busyTaken i k
  hunting : 1 ≤ k → m.hunting = true
  fastR : m.beat.fastR = true
  tickDone : m.beat.tickDone = true
  dap0 : m.beat.dap0 = true
  clkHist : ∀ b, b < 8 → m.beat.clkHist.getLsbD b = decide (b < k)
  lagTap : m.beat.lagTap = i.lag - 1
  sampleTake : m.beat.sampleTake = decide (i.lag.toNat + 1 ≤ k)
  goR : m.budget.goR = true
  counting : m.budget.counting = false
  pdone : m.frame.pdone = false
  ssCont : m.streaming.ssCont = false
  moreR : 1 ≤ k → m.streaming.moreR = false
  decided : 2 ≤ k → m.streaming.contOk = false ∧ m.streaming.ncR = true

/-- The history of the clocks moves on by one. -/
theorem getLsbD_history (history : BitVec 8) (bit : Bool) {b : Nat} (b_lt : b < 8) :
    (history <<< 1 ||| (BitVec.ofBool bit).setWidth 8).getLsbD b =
      if b = 0 then bit else history.getLsbD (b - 1) := by
  cases b with
  | zero => simp
  | succ b =>
      have below : b < 8 := by omega
      simp [b_lt, BitVec.getLsbD_eq_getElem below]

theorem toNat_lagTap (lag : BitVec 3) (lag_pos : 1 ≤ lag.toNat) :
    (lag - 1).toNat = lag.toNat - 1 := by
  have below := lag.isLt
  have one : (1 : BitVec 3).toNat = 1 := rfl
  rw [BitVec.toNat_sub, one]
  omega

/-- Where nothing is streamed, a sample is all that changes the registers of the reply. -/
theorem frameNext_sampled
    (runs : j.rst = false)
    (state : m.frame.state = .hunt ∨ m.frame.inFields)
    (pdone : m.frame.pdone = false)
    (ssCont : m.streaming.ssCont = false) :
    m.frameNext j =
      if m.beat.sampleTake then
        m.frame.fallen.sample m.hunting j.toRxLines
      else m.frame.fallen := by
  have running : (m.frame.state == .idle) = false ∧ (m.frame.state == .ending) = false := by
    rcases state with state | state | state | state <;> simp [state]
  unfold frameNext
  dsimp only
  rw [runs, running.1, running.2, ssCont, pdone]
  simp only [Bool.false_eq_true, if_false]

/-- The strobe of fast mode at a clock within a reply. -/
theorem beatNext_fast
    (runs : j.rst = false)
    (running : m.frame.state ≠ .idle)
    (fast : m.beat.fastR = true)
    (tickDone : m.beat.tickDone = true) :
    m.beatNext j =
      { m.beat with
        lagTap := j.lag - 1
        dap0 := m.frame.state != .ending && m.budget.goR
        sampleTake := m.leaving
        clkHist := m.beat.clkHist <<< 1 ||| (BitVec.ofBool m.beat.dap0).setWidth 8
        tick := j.div
        tickDone := true
        phase := !m.leaving } := by
  have busy : (m.frame.state == .idle) = false := beq_eq_false_iff_ne.mpr running
  have dap0 : m.dap0D j = (m.frame.state != .ending && m.budget.goR) := by
    unfold dap0D
    rw [runs, busy, fast, tickDone]
    cases state : m.frame.state <;> simp
  unfold beatNext divZero
  dsimp only
  rw [runs, busy, fast, tickDone, dap0]
  simp

/-- A clock of the hunt: the sample, when one lands, is busy. -/
theorem Hunting.next
    (hunting : Hunting m i k)
    (runs : j.rst = false)
    (lag : j.lag = i.lag)
    (lag_pos : 1 ≤ i.lag.toNat)
    (busy : i.lag.toNat + 1 ≤ k → j.dap1Ctl = false ∧ busyTaken i k + 1 < i.maxWait.toNat) :
    Hunting (m.clock j) i (k + 1) := by
  have frame := frameNext_sampled runs (.inl hunting.state) hunting.pdone hunting.ssCont
  have beat := beatNext_fast runs (by simp [hunting.state]) hunting.fastR hunting.tickDone
  have notSeen : m.startSeen j = false := by
    unfold startSeen
    rw [hunting.sampleTake]
    by_cases lands : i.lag.toNat + 1 ≤ k
    · simp [(busy lands).1]
    · simp [lands]
  have notIdle : (m.frame.state == .idle) = false := by simp [hunting.state]
  have leaving : m.leaving = decide (i.lag.toNat + 1 ≤ k + 1) := by
    have below := i.lag.isLt
    unfold leaving
    rw [hunting.lagTap, toNat_lagTap i.lag lag_pos, hunting.clkHist _ (by omega)]
    exact decide_eq_decide.mpr (by omega)
  have budget : (m.clock j).budget.goR = true ∧ (m.clock j).budget.counting = false := by
    change (m.budgetNext j).goR = true ∧ (m.budgetNext j).counting = false
    unfold budgetNext
    dsimp only
    rw [notIdle, notSeen, hunting.counting, hunting.goR]
    simp
  have parts : (m.clock j).frame.Sound ∧ (m.clock j).frame.state = .hunt ∧
      (m.clock j).frame.atLimit = decide (i.maxWait.toNat ≤ busyTaken i (k + 1) + 1) ∧
      (m.clock j).frame.waitLeft.toNat = i.maxWait.toNat - 1 - busyTaken i (k + 1) ∧
      (m.clock j).frame.positions = m.frame.positions ∧
      (m.clock j).frame.afterAll = m.frame.afterAll ∧
      (m.clock j).frame.streamR = m.frame.streamR ∧
      (m.clock j).frame.pdone = false := by
    change (m.frameNext j).Sound ∧ (m.frameNext j).state = .hunt ∧
      (m.frameNext j).atLimit = _ ∧ (m.frameNext j).waitLeft.toNat = _ ∧
      (m.frameNext j).positions = _ ∧ (m.frameNext j).afterAll = _ ∧
      (m.frameNext j).streamR = _ ∧ (m.frameNext j).pdone = false
    rw [frame, hunting.sampleTake]
    by_cases lands : i.lag.toNat + 1 ≤ k
    · obtain ⟨low, allowed⟩ := busy lands
      have more : busyTaken i (k + 1) = busyTaken i k + 1 := by
        unfold busyTaken
        omega
      have atLimit : m.frame.atLimit = false := by
        rw [hunting.limit]
        exact decide_eq_false (by omega)
      have flag := hunting.hunting (by omega)
      have left := hunting.waitLeft
      have ahead := (RxFrame.countdown m.frame.waitLeft).1 fun zero => by
        rw [zero] at left
        change 0 = _ at left
        omega
      obtain ⟨sound, state, -, fewer, ends, pdone⟩ :=
        hunting.sound.fallen.sample_busy hunting.state low atLimit
      rw [if_pos (decide_eq_true lands), flag]
      refine ⟨sound, state, ?_, ?_, rfl, rfl, rfl, pdone⟩
      · rw [ends]
        change (m.frame.waitLeft == 1) = _
        rw [Bool.eq_iff_iff, beq_iff_eq, decide_eq_true_iff, ← BitVec.toNat_inj, left]
        change _ = 1 ↔ _
        omega
      · rw [fewer]
        change (m.frame.waitLeft - 1).toNat = _
        omega
    · have none : busyTaken i (k + 1) = busyTaken i k := by
        unfold busyTaken
        omega
      rw [if_neg (by simpa using lands), none]
      exact ⟨hunting.sound.fallen, hunting.state, hunting.limit, hunting.waitLeft, rfl, rfl, rfl, rfl⟩
  obtain ⟨sound, state, limit, waitLeft, positions, allowance, stream, pdone⟩ := parts
  have beat' : (m.clock j).beat = m.beatNext j := rfl
  rw [beat] at beat'
  exact {
    sound := sound
    state := state
    positions := positions.trans hunting.positions
    allowance := (congrArg BitVec.toNat allowance).trans hunting.allowance
    stream := stream.trans hunting.stream
    limit := limit
    waitLeft := waitLeft
    hunting := fun _ => by
      change (m.frame.state == .hunt) = true
      simp [hunting.state]
    fastR := by rw [beat']; exact hunting.fastR
    tickDone := by rw [beat']
    dap0 := by
      rw [beat']
      simp [hunting.state, hunting.goR]
    clkHist := fun b b_lt => by
      rw [beat']
      dsimp only
      rw [getLsbD_history _ _ b_lt, hunting.dap0]
      cases b with
      | zero => simp
      | succ b =>
          rw [if_neg (Nat.succ_ne_zero b), Nat.succ_sub_one, hunting.clkHist b (by omega)]
          exact decide_eq_decide.mpr (by omega)
    lagTap := by rw [beat', lag]
    sampleTake := by rw [beat']; exact leaving
    goR := budget.1
    counting := budget.2
    pdone := pdone
    ssCont := by
      change (m.startSeen j && m.streaming.contOk) = false
      rw [notSeen, Bool.false_and]
    moreR := fun _ => by
      change (m.frame.streamR && _) = false
      rw [hunting.stream, Bool.false_and]
    decided := fun later => by
      have moreR := hunting.moreR (by omega)
      change (m.streaming.moreR && j.room) = false ∧ (!(m.streaming.moreR && j.room)) = true
      rw [moreR]
      exact ⟨rfl, rfl⟩ }

/-- What start loads from MAXWAIT. -/
theorem toNat_waitLeft0 (maxWait : BitVec 16) :
    (if maxWait == 0 then 0 else maxWait - 1).toNat = maxWait.toNat - 1 := by
  have ahead := (RxFrame.countdown maxWait).1
  by_cases none : maxWait = 0#16
  · simp [none]
  · have some : maxWait ≠ 0#16 := none
    specialize ahead some
    rw [if_neg (by simp [some])]
    omega

/-- A clock that leaves the receiver idle loads the parameters. -/
theorem clock_idle (idle : m.frame.state = .idle) (runs : j.rst = false) (quiet : j.start = false) :
    (m.clock j).frame =
        m.frame.fallen.load j m.waitLeft0 m.waitNone ∧
      (m.clock j).streaming.ssCont = false ∧ (m.clock j).beat.dap0 = false := by
  refine ⟨?_, ?_, ?_⟩
  · change m.frameNext j = _
    simp [frameNext, runs, idle, quiet]
  · change (m.startSeen j && m.streaming.contOk) = false
    simp [startSeen, idle]
  · change (m.beatNext j).dap0 = false
    simp [beatNext, dap0D, runs, idle, quiet]

/-- A clock that starts a fast reply. -/
theorem hunting_start
    (idle : m.frame.state = .idle)
    (runs : j.rst = false)
    (starts : j.start = true)
    (fast : j.fast = true)
    (hunts : j.noHunt = false)
    (single : j.stream = false)
    (limit : m.waitNone = j.maxWait.ule 1)
    (left : m.waitLeft0 = if j.maxWait == 0 then 0 else j.maxWait - 1) :
    Hunting (m.clock j) j 0 := by
  have frame : (m.clock j).frame =
      m.frame.fallen.begin j m.waitLeft0 m.waitNone := by
    change m.frameNext j = _
    simp [frameNext, runs, idle, starts]
  have begun := RxFrame.begin_sound m.frame.fallen j
    m.waitLeft0 m.waitNone hunts
  have beat : (m.clock j).beat = m.beatNext j := rfl
  have budget : (m.clock j).budget = m.budgetNext j := rfl
  exact {
    sound := by rw [frame]; exact begun.1
    state := by rw [frame]; exact begun.2
    positions := by rw [frame]; exact RxFrame.positions_begin m.frame.fallen j m.waitLeft0 m.waitNone hunts
    allowance := by rw [frame]; exact RxFrame.toNat_afterAll_load m.frame.fallen j m.waitLeft0 m.waitNone
    stream := by
      rw [frame]
      change (j.stream && !j.noHunt) = false
      rw [single, Bool.false_and]
    limit := by
      rw [frame]
      change m.waitNone = _
      have none : busyTaken j 0 = 0 := Nat.zero_sub _
      rw [limit, none]
      exact decide_eq_decide.mpr Iff.rfl
    waitLeft := by
      rw [frame]
      change m.waitLeft0.toNat = _
      have none : busyTaken j 0 = 0 := Nat.zero_sub _
      rw [left, toNat_waitLeft0, none, Nat.sub_zero]
    hunting := fun later => absurd later (by omega)
    fastR := by rw [beat]; simp [beatNext, runs, idle, fast]
    tickDone := by rw [beat]; simp [beatNext, runs, idle, fast]
    dap0 := by rw [beat]; simp [beatNext, dap0D, runs, idle, starts, fast]
    clkHist := fun b _ => by rw [beat]; simp [beatNext, runs, idle]
    lagTap := by rw [beat]; simp [beatNext, runs, idle]
    sampleTake := by rw [beat]; simp [beatNext, runs, idle]
    goR := by rw [budget]; simp [budgetNext, idle]
    counting := by rw [budget]; simp [budgetNext, idle]
    pdone := by rw [frame]; rfl
    ssCont := by
      change (m.startSeen j && m.streaming.contOk) = false
      simp [startSeen, idle]
    moreR := fun later => absurd later (by omega)
    decided := fun later => absurd later (by omega) }

/-- Two clocks into the run the reply has its first clock. -/
theorem FastReply.started
    {inputs : Nat → RxInput W}
    {line : Nat → Bool}
    {busy : Nat}
    (reply : FastReply m inputs line busy) :
    Hunting (m.after inputs 2) (inputs 1) 0 := by
  have quiet : (inputs 0).start = false := by simp [reply.starts]
  obtain ⟨loaded, -, -⟩ := clock_idle reply.idle (reply.runs 0) quiet
  have idle : (m.after inputs 1).frame.state = .idle := by
    change (m.clock (inputs 0)).frame.state = .idle
    rw [loaded]
    exact reply.idle
  refine hunting_start idle (reply.runs 1) (by simp [reply.starts]) reply.fast reply.hunts
    reply.single ?_ ?_
  · rw [← reply.limit]
    rfl
  · rw [← reply.limit]
    rfl

section Run

variable {inputs : Nat → RxInput W} {line : Nat → Bool} {busy : Nat}

theorem clocks_succ (m : FrameRx W) (inputs : Nat → RxInput W) (n : Nat) :
    m.clocks inputs (n + 1) =
      m.clocks inputs n + if (m.after inputs (n + 1)).beat.dap0 then 1 else 0 := by
  unfold clocks
  rw [List.range_succ, List.filter_append, List.length_append]
  cases shown : (m.after inputs (n + 1)).beat.dap0 <;> simp [shown]

/-- While DAP0 runs, each clock but the one before the reply counts. -/
theorem clocks_running
    (first : (m.after inputs 1).beat.dap0 = false)
    {n : Nat}
    (running : ∀ t, 2 ≤ t → t ≤ n → (m.after inputs t).beat.dap0 = true) :
    m.clocks inputs n = n - 1 := by
  induction n with
  | zero => rfl
  | succ n inductionHypothesis =>
      rw [clocks_succ, inductionHypothesis fun t later within => running t later (by omega)]
      cases n with
      | zero => simp [first]
      | succ n =>
          rw [running _ (by omega) le_rfl, if_pos rfl]
          omega

theorem FastReply.first (reply : FastReply m inputs line busy) :
    (m.after inputs 1).beat.dap0 = false :=
  (clock_idle reply.idle (reply.runs 0) (by simp [reply.starts])).2.2

/-- The bit that a clock of the hunt sees is that of the clock `lag + 1` before. -/
theorem FastReply.lands
    (reply : FastReply m inputs line busy)
    (lands : (inputs 1).lag.toNat + 1 ≤ k)
    (running : ∀ t, 2 ≤ t → t ≤ k + 2 → (m.after inputs t).beat.dap0 = true) :
    (inputs (k + 2)).dap1Ctl = line (busyTaken (inputs 1) k) := by
  obtain ⟨n, rfl⟩ := Nat.exists_eq_add_of_le lands
  have clock := running (n + 1 + 1) (by omega) (by omega)
  have bit := reply.answers (n + 1) clock
  have count : m.clocks inputs (n + 1) = n :=
    clocks_running reply.first fun t later within => running t later (by omega)
  have place : n + 1 + 1 + (inputs 1).lag.toNat + 1 = (inputs 1).lag.toNat + 1 + n + 2 := by omega
  have taken : busyTaken (inputs 1) ((inputs 1).lag.toNat + 1 + n) = n := by
    unfold busyTaken
    omega
  rw [taken, ← place, bit, count]

/-- The hunt goes on up to the start bit. -/
theorem FastReply.hunting
    (reply : FastReply m inputs line busy)
    (within : k ≤ (inputs 1).lag.toNat + 1 + busy) :
    ∀ k', k' ≤ k → Hunting (m.after inputs (k' + 2)) (inputs 1) k' := by
  induction k with
  | zero =>
      intro k' none
      rw [Nat.le_zero.mp none]
      exact reply.started
  | succ k inductionHypothesis =>
      specialize inductionHypothesis (by omega)
      intro k' k'_le
      rcases Nat.lt_or_eq_of_le k'_le with less | rfl
      · exact inductionHypothesis k' (by omega)
      · have running : ∀ t, 2 ≤ t → t ≤ k + 2 → (m.after inputs t).beat.dap0 = true := by
          intro t later within
          obtain ⟨t, rfl⟩ := Nat.exists_eq_add_of_le' later
          exact (inductionHypothesis t (by omega)).dap0
        refine (inductionHypothesis k le_rfl).next (reply.runs _) (reply.lag (k + 2) (by omega))
          reply.lag_pos fun lands => ?_
        have allowed := reply.within
        have taken : busyTaken (inputs 1) k < busy := by
          unfold busyTaken
          omega
        rw [reply.lands lands running]
        exact ⟨reply.silent _ taken, by omega⟩

/-- A reply's start bit is seen `lag + 1` clocks after its own. -/
theorem FastReply.startSeen
    (reply : FastReply m inputs line busy) :
    (inputs ((inputs 1).lag.toNat + 1 + busy + 2)).dap1Ctl = true := by
  have hunting := reply.hunting le_rfl
  rw [reply.lands (by omega) fun t later within => ?_]
  · have taken : busyTaken (inputs 1) ((inputs 1).lag.toNat + 1 + busy) = busy := by
      unfold busyTaken
      omega
    rw [taken]
    exact reply.startBit
  · obtain ⟨t, rfl⟩ := Nat.exists_eq_add_of_le' later
    exact (hunting t (by omega)).dap0

end Run

/-! ## The budget -/

/-- The budget's two differences tell whether clocks are left. -/
theorem left_over (budget : BitVec 9) (lag : BitVec 3) (extra : Nat) (extra_le : extra ≤ 2) :
    let left := budget.setWidth 10 - (lag.setWidth 9 + BitVec.ofNat 9 extra).setWidth 10
    (lag.toNat + extra ≤ budget.toNat →
        left.msb = false ∧ left.toNat + (lag.toNat + extra) = budget.toNat) ∧
      (budget.toNat < lag.toNat + extra → left.msb = true) := by
  intro left
  have below := budget.isLt
  have lag_lt := lag.isLt
  have taken : ((lag.setWidth 9 + BitVec.ofNat 9 extra).setWidth 10).toNat = lag.toNat + extra := by
    rw [BitVec.toNat_setWidth, BitVec.toNat_add, BitVec.toNat_setWidth, BitVec.toNat_ofNat]
    omega
  have value : left.toNat = (2 ^ 10 - (lag.toNat + extra) + budget.toNat) % 2 ^ 10 := by
    change (budget.setWidth 10 - _).toNat = _
    rw [BitVec.toNat_sub, taken, BitVec.toNat_setWidth]
    omega
  rw [BitVec.msb_eq_decide, value]
  refine ⟨fun some => ⟨decide_eq_false (by omega), by omega⟩, fun none => decide_eq_true (by omega)⟩

/-- The budget's stages, whatever the clock does besides. -/
theorem budgetNext_staged (m : FrameRx W) (j : RxInput W) :
    (m.budgetNext j).afterR = m.frame.afterAll ∧
      (m.budgetNext j).inFlight = j.lag.setWidth 9 + 1 ∧
      (m.budgetNext j).inFlight1 = j.lag.setWidth 9 + 2 ∧
      (m.budgetNext j).left0 =
        m.budget.afterR.setWidth 10 - m.budget.inFlight.setWidth 10 ∧
      (m.budgetNext j).left1 =
        m.budget.afterR.setWidth 10 - m.budget.inFlight1.setWidth 10 ∧
      (m.budgetNext j).pulseInit =
        (if m.budget.left0.msb then 0 else m.budget.left0.setWidth 9) ∧
      (m.budgetNext j).piGo =
        (!m.budget.left1.msb && m.budget.left1 != 0 || m.streaming.moreR && j.room) := by
  unfold budgetNext
  dsimp only
  split_ifs <;> exact ⟨rfl, rfl, rfl, rfl, rfl, rfl, rfl⟩

/-- What the decision at a start bit reads was worked out three clocks before. -/
theorem budget_ready
    {inputs : Nat → RxInput W}
    (n : Nat)
    (single : (m.after inputs (n + 2)).streaming.moreR = false) :
    let budget := (m.after inputs n).frame.afterAll.toNat
    let lag := (inputs n).lag.toNat
    (m.after inputs (n + 3)).budget.piGo = decide (lag + 2 < budget) ∧
      (lag + 2 < budget →
        (m.after inputs (n + 3)).budget.pulseInit.toNat + (lag + 1) = budget) := by
  intro budget lag
  obtain ⟨afterR, inFlight, inFlight1, -⟩ := budgetNext_staged (m.after inputs n) (inputs n)
  obtain ⟨-, -, -, left0, left1, -⟩ := budgetNext_staged (m.after inputs (n + 1)) (inputs (n + 1))
  obtain ⟨-, -, -, -, -, pulseInit, piGo⟩ :=
    budgetNext_staged (m.after inputs (n + 2)) (inputs (n + 2))
  have within := left_over (m.after inputs n).frame.afterAll (inputs n).lag 1 (by omega)
  have beyond := left_over (m.after inputs n).frame.afterAll (inputs n).lag 2 (by omega)
  rw [single, Bool.false_and, Bool.or_false] at piGo
  change (m.after inputs (n + 1)).budget.afterR = _ at afterR
  change (m.after inputs (n + 1)).budget.inFlight = _ at inFlight
  change (m.after inputs (n + 1)).budget.inFlight1 = _ at inFlight1
  change (m.after inputs (n + 2)).budget.left0 = _ at left0
  change (m.after inputs (n + 2)).budget.left1 = _ at left1
  change (m.after inputs (n + 3)).budget.pulseInit = _ at pulseInit
  change (m.after inputs (n + 3)).budget.piGo = _ at piGo
  rw [afterR, inFlight] at left0
  rw [afterR, inFlight1] at left1
  change (m.after inputs (n + 2)).budget.left0 = _ - BitVec.setWidth 10 (_ + BitVec.ofNat 9 1) at left0
  change (m.after inputs (n + 2)).budget.left1 = _ - BitVec.setWidth 10 (_ + BitVec.ofNat 9 2) at left1
  dsimp only at within beyond
  rw [← left0] at within
  rw [← left1] at beyond
  constructor
  · rw [piGo]
    by_cases few : budget < lag + 2
    · rw [beyond.2 few, decide_eq_false (by omega)]
      rfl
    · obtain ⟨sign, left⟩ := beyond.1 (by omega)
      rw [sign, Bool.not_false, Bool.true_and, Bool.eq_iff_iff, bne_iff_ne, decide_eq_true_iff, ne_eq,
        ← BitVec.toNat_inj]
      change ¬_ = 0 ↔ _
      omega
  · intro more
    obtain ⟨sign, left⟩ := within.1 (by omega)
    have below := (m.after inputs n).frame.afterAll.isLt
    rw [pulseInit, sign, if_neg Bool.false_ne_true, BitVec.toNat_setWidth]
    omega

/-- The clocks that a reply gets after its start bit's own: those in flight when the start
bit is seen and the one behind them always, and of the rest no more than the budget nor,
once the reply is over, than are in flight then. -/
def given (i : RxInput W) (budget : Nat) : Nat :=
  max (i.lag.toNat + 2) (min (i.positions + i.lag.toNat + 2) budget)

/-- Some clocks after the start bit is seen, the reply not put away. -/
structure Draining (m : FrameRx W) (i : RxInput W) (budget k : Nat) : Prop where
  sound : m.frame.Sound
  within : m.frame.inFields ∨ m.frame.state = .ending
  remaining : m.frame.remaining + min k (given i budget) = i.positions
  fastR : m.beat.fastR = true
  tickDone : m.beat.tickDone = true
  lagTap : m.beat.lagTap = i.lag - 1
  dap0 : m.beat.dap0 = decide (i.lag.toNat + 1 + k < given i budget)
  clkHist : ∀ b, b ≤ i.lag.toNat →
    m.beat.clkHist.getLsbD b = decide (i.lag.toNat + k - b < given i budget)
  sampleTake : m.beat.sampleTake = decide (k < given i budget)
  goR : m.budget.goR = decide (i.lag.toNat + 2 + k < budget)
  pulsesLeft : i.lag.toNat + 2 + k < budget →
    m.budget.pulsesLeft.toNat + (i.lag.toNat + 1 + k) = budget
  counting : m.budget.counting = true
  pdone : m.frame.pdone = false
  ssCont : m.streaming.ssCont = false

/-- The start bit sets the budget going. -/
theorem Hunting.seen
    {budget : Nat}
    (hunting : Hunting m i k)
    (runs : j.rst = false)
    (lag : j.lag = i.lag)
    (lag_pos : 1 ≤ i.lag.toNat)
    (lands : i.lag.toNat + 1 ≤ k)
    (start : j.dap1Ctl = true)
    (piGo : m.budget.piGo = decide (i.lag.toNat + 2 < budget))
    (pulseInit : i.lag.toNat + 2 < budget →
      m.budget.pulseInit.toNat + (i.lag.toNat + 1) = budget) :
    Draining (m.clock j) i budget 0 := by
  have frame := frameNext_sampled runs (.inl hunting.state) hunting.pdone hunting.ssCont
  have beat := beatNext_fast runs (by simp [hunting.state]) hunting.fastR hunting.tickDone
  have lag_lt := i.lag.isLt
  have taken : m.beat.sampleTake = true := by
    rw [hunting.sampleTake]
    exact decide_eq_true lands
  have seen : m.startSeen j = true := by simp [startSeen, taken, hunting.state, start]
  have notIdle : (m.frame.state == .idle) = false := by simp [hunting.state]
  have leaving : m.leaving = true := by
    unfold leaving
    rw [hunting.lagTap, toNat_lagTap i.lag lag_pos, hunting.clkHist _ (by omega)]
    exact decide_eq_true (by omega)
  have some : i.lag.toNat + 2 ≤ given i budget := Nat.le_max_left _ _
  obtain ⟨sound, remaining, within⟩ : (m.frame.fallen.sample m.hunting j.toRxLines).Sound ∧ _ :=
    hunting.sound.fallen.sample_start hunting.state start
  rw [taken, if_pos rfl] at frame
  have frame' : (m.clock j).frame = m.frame.fallen.sample m.hunting j.toRxLines := frame
  have beat' : (m.clock j).beat = _ := beat
  have budget' : (m.clock j).budget.counting = true ∧
      (m.clock j).budget.goR = m.budget.piGo ∧
      (m.clock j).budget.pulsesLeft = m.budget.pulseInit := by
    change (m.budgetNext j).counting = true ∧ (m.budgetNext j).goR = _ ∧
      (m.budgetNext j).pulsesLeft = _
    unfold budgetNext
    dsimp only
    rw [notIdle, seen, hunting.fastR, (hunting.decided (by omega)).2]
    exact ⟨rfl, rfl, rfl⟩
  exact {
    sound := by rw [frame']; exact sound
    within := by rw [frame']; exact within
    remaining := by
      rw [frame', Nat.zero_min, Nat.add_zero, remaining]
      exact hunting.positions
    fastR := by rw [beat']; exact hunting.fastR
    tickDone := by rw [beat']
    lagTap := by rw [beat', lag]
    dap0 := by
      rw [beat', hunting.state, hunting.goR]
      exact (decide_eq_true (by omega)).symm
    clkHist := fun b b_le => by
      rw [beat']
      dsimp only
      rw [getLsbD_history _ _ (by omega), hunting.dap0]
      have early : decide (i.lag.toNat + 0 - b < given i budget) = true := decide_eq_true (by omega)
      rw [early]
      cases b with
      | zero => rfl
      | succ b =>
          rw [if_neg (Nat.succ_ne_zero b), Nat.succ_sub_one, hunting.clkHist b (by omega)]
          exact decide_eq_true (by omega)
    sampleTake := by
      rw [beat']
      exact leaving.trans (decide_eq_true (by omega)).symm
    goR := budget'.2.1.trans piGo
    pulsesLeft := fun more => by rw [budget'.2.2]; exact pulseInit more
    counting := budget'.1
    pdone := by
      rw [frame']
      have state : m.frame.fallen.state = .hunt := hunting.state
      simp [RxFrame.sample, state]
    ssCont := by
      change (m.startSeen j && m.streaming.contOk) = false
      rw [(hunting.decided (by omega)).1, Bool.and_false] }

/-- A clock within the fields: the sample that lands is one of those to come. -/
theorem Draining.next
    {budget : Nat}
    (draining : Draining m i budget k)
    (inFields : m.frame.inFields)
    (runs : j.rst = false)
    (lag : j.lag = i.lag)
    (lag_pos : 1 ≤ i.lag.toNat) :
    Draining (m.clock j) i budget (k + 1) := by
  have notIdle : m.frame.state ≠ .idle := by
    rcases inFields with state | state | state <;> simp [state]
  have notHunt : (m.frame.state == .hunt) = false := by
    rcases inFields with state | state | state <;> simp [state]
  have notEnding : (m.frame.state != .ending) = true := by
    rcases inFields with state | state | state <;> simp [state]
  have frame := frameNext_sampled runs (.inr inFields) draining.pdone draining.ssCont
  have beat := beatNext_fast runs notIdle draining.fastR draining.tickDone
  have lag_lt := i.lag.isLt
  have notSeen : m.startSeen j = false := by simp [startSeen, notHunt]
  have leaving : m.leaving = decide (k + 1 < given i budget) := by
    unfold leaving
    rw [draining.lagTap, toNat_lagTap i.lag lag_pos, draining.clkHist _ (by omega)]
    exact decide_eq_decide.mpr (by omega)
  -- Samples are still to come, so that the reply's end does not stop the clocks yet.
  have more := draining.sound.remaining_ne_zero inFields
  have remaining := draining.remaining
  have enough : i.lag.toNat + 2 + k < budget ↔ i.lag.toNat + 1 + (k + 1) < given i budget := by
    unfold given at remaining ⊢
    omega
  have parts : (m.clock j).frame.Sound ∧
      ((m.clock j).frame.inFields ∨ (m.clock j).frame.state = .ending) ∧
      (m.clock j).frame.remaining + min (k + 1) (given i budget) = i.positions ∧
      (m.clock j).frame.pdone = false := by
    change (m.frameNext j).Sound ∧ ((m.frameNext j).inFields ∨ (m.frameNext j).state = .ending) ∧
      (m.frameNext j).remaining + _ = _ ∧ (m.frameNext j).pdone = false
    rw [frame, draining.sampleTake]
    by_cases lands : k < given i budget
    · obtain ⟨sound, fewer, within⟩ : (m.frame.fallen.sample m.hunting j.toRxLines).Sound ∧ _ :=
        draining.sound.fallen.in_fields inFields
      have whole : m.frame.fallen.remaining = m.frame.remaining := rfl
      have single : m.frame.fallen.contR = false := draining.sound.single
      rw [if_pos (decide_eq_true lands)]
      refine ⟨sound, within, by omega, ?_⟩
      simp [RxFrame.sample, single]
    · rw [if_neg (by simpa using lands)]
      refine ⟨draining.sound.fallen, .inl inFields, ?_, rfl⟩
      change m.frame.remaining + _ = _
      omega
  have beat' : (m.clock j).beat = _ := beat
  have counted : (m.clock j).budget.counting = true ∧
      (m.clock j).budget.goR = (m.budget.goR && BitVec.ult 2 m.budget.pulsesLeft) ∧
      (m.clock j).budget.pulsesLeft = m.budget.pulsesLeft - 1 := by
    change (m.budgetNext j).counting = true ∧ (m.budgetNext j).goR = _ ∧
      (m.budgetNext j).pulsesLeft = _
    have busy : (m.frame.state == .idle) = false := beq_eq_false_iff_ne.mpr notIdle
    unfold budgetNext
    dsimp only
    rw [busy, notSeen, Bool.and_false, draining.counting]
    exact ⟨rfl, rfl, rfl⟩
  exact {
    sound := parts.1
    within := parts.2.1
    remaining := parts.2.2.1
    fastR := by rw [beat']; exact draining.fastR
    tickDone := by rw [beat']
    lagTap := by rw [beat', lag]
    dap0 := by
      rw [beat', notEnding, draining.goR]
      exact decide_eq_decide.mpr enough
    clkHist := fun b b_le => by
      rw [beat']
      dsimp only
      rw [getLsbD_history _ _ (by omega), draining.dap0]
      cases b with
      | zero => exact decide_eq_decide.mpr (by omega)
      | succ b =>
          rw [if_neg (Nat.succ_ne_zero b), Nat.succ_sub_one, draining.clkHist b (by omega)]
          exact decide_eq_decide.mpr (by omega)
    sampleTake := by rw [beat']; exact leaving
    goR := by
      rw [counted.2.1, draining.goR]
      by_cases on : i.lag.toNat + 2 + k < budget
      · have left := draining.pulsesLeft on
        rw [decide_eq_true on, Bool.true_and]
        change decide (2 < m.budget.pulsesLeft.toNat) = _
        exact decide_eq_decide.mpr (by omega)
      · rw [decide_eq_false on, Bool.false_and, decide_eq_false (by omega)]
    pulsesLeft := fun on => by
      have left := draining.pulsesLeft (by omega)
      have ahead := (RxFrame.countdown m.budget.pulsesLeft).1 fun zero => by
        rw [zero] at left
        change 0 + _ = _ at left
        omega
      rw [counted.2.2]
      omega
    counting := counted.1
    pdone := parts.2.2.2
    ssCont := by
      change (m.startSeen j && m.streaming.contOk) = false
      rw [notSeen, Bool.false_and] }

/-- The clock that puts the reply away stops DAP0, which has had what it is given. -/
theorem Draining.ends
    {budget : Nat}
    (draining : Draining m i budget k)
    (ending : m.frame.state = .ending) :
    (m.clock j).frame.state = .idle ∧ (m.clock j).beat.dap0 = false ∧
      given i budget ≤ i.lag.toNat + 1 + (k + 1) := by
  have remaining := draining.remaining
  refine ⟨?_, ?_, ?_⟩
  · change (m.frameNext j).state = _
    cases rst : j.rst <;> simp [frameNext, rst, ending, RxFrame.finish]
  · have stopped : m.dap0D j = false := by simp [dap0D, ending]
    change (m.beatNext j).dap0 = false
    unfold beatNext
    dsimp only
    split_ifs <;> exact stopped
  · rw [RxFrame.remaining_ending ending] at remaining
    unfold given at remaining ⊢
    omega

section Run

variable {inputs : Nat → RxInput W} {line : Nat → Bool} {busy : Nat}

/-- The parameters that the budget is worked out from: with a LAG of one, a start bit at
the first sample finds those of the clock before the reply's start. -/
def budgeted (inputs : Nat → RxInput W) (busy : Nat) : RxInput W :=
  if (inputs 1).lag.toNat + busy = 1 then inputs 0 else inputs 1

theorem FastReply.budgeted
    (reply : FastReply m inputs line busy) :
    (m.after inputs ((inputs 1).lag.toNat + busy)).frame.afterAll.toNat =
      (budgeted inputs busy).allowance := by
  have lag_pos := reply.lag_pos
  unfold FrameRx.budgeted
  by_cases early : (inputs 1).lag.toNat + busy = 1
  · rw [early, if_pos rfl]
    change (m.clock (inputs 0)).frame.afterAll.toNat = _
    rw [(clock_idle reply.idle (reply.runs 0) (by simp [reply.starts])).1]
    exact RxFrame.toNat_afterAll_load _ _ _ _
  · obtain ⟨n, hn⟩ := Nat.exists_eq_add_of_le' (show 2 ≤ (inputs 1).lag.toNat + busy by omega)
    rw [if_neg early, hn]
    exact (reply.hunting le_rfl n (by omega)).allowance

/-- The clock that sees the start bit. -/
theorem FastReply.seen (reply : FastReply m inputs line busy) :
    Draining (m.after inputs ((inputs 1).lag.toNat + 1 + busy + 3)) (inputs 1)
      (FrameRx.budgeted inputs busy).allowance 0 := by
  have lag_pos := reply.lag_pos
  obtain ⟨n, hn⟩ := Nat.exists_eq_add_of_le' (show 1 ≤ (inputs 1).lag.toNat + busy by omega)
  have hunting := reply.hunting le_rfl ((inputs 1).lag.toNat + 1 + busy) le_rfl
  have before := reply.hunting le_rfl (n + 1) (by omega)
  have lag := reply.lag (n + 1) (by omega)
  have single : (m.after inputs (n + 1 + 2)).streaming.moreR = false := before.moreR (by omega)
  have ready := budget_ready (n + 1) single
  rw [← hn, reply.budgeted, hn, lag] at ready
  have place : (inputs 1).lag.toNat + 1 + busy + 2 = n + 1 + 3 := by omega
  have start := reply.startSeen
  have next : (inputs 1).lag.toNat + 1 + busy + 3 = n + 1 + 3 + 1 := by omega
  rw [place] at hunting start
  rw [next]
  exact hunting.seen (reply.runs _) (reply.lag _ (by omega)) lag_pos (by omega) start ready.1 ready.2

/-- From the start bit on DAP0 has the clocks that the reply is given. -/
theorem FastReply.dap0
    (reply : FastReply m inputs line busy)
    (k : Nat) :
    let state := m.after inputs ((inputs 1).lag.toNat + 1 + busy + 3 + k)
    let given := given (inputs 1) (FrameRx.budgeted inputs busy).allowance
    Draining state (inputs 1) (FrameRx.budgeted inputs busy).allowance k ∨
      state.frame.state = .idle ∧ state.beat.dap0 = false ∧
        given ≤ (inputs 1).lag.toNat + 1 + k := by
  induction k with
  | zero => exact .inl reply.seen
  | succ k inductionHypothesis =>
      rcases inductionHypothesis with draining | ⟨idle, -, ended⟩
      · rcases draining.within with inFields | ending
        · have later : 1 ≤ (inputs 1).lag.toNat + 1 + busy + 3 + k := by omega
          exact .inl (draining.next inFields (reply.runs _) (reply.lag _ later) reply.lag_pos)
        · exact .inr (draining.ends ending)
      · have quiet : (inputs ((inputs 1).lag.toNat + 1 + busy + 3 + k)).start = false :=
          (reply.starts _).trans (decide_eq_false (by omega))
        obtain ⟨frame, -, dap0⟩ := clock_idle idle (reply.runs _) quiet
        refine .inr ⟨?_, dap0, by omega⟩
        exact (congrArg RxFrame.state frame).trans idle

/-- The clocks up to some time after the start bit is seen. -/
theorem FastReply.clocks
    (reply : FastReply m inputs line busy)
    (k : Nat) :
    let given := given (inputs 1) (FrameRx.budgeted inputs busy).allowance
    m.clocks inputs ((inputs 1).lag.toNat + busy + 3 + k) =
      (inputs 1).lag.toNat + busy + 2 + min k (given - ((inputs 1).lag.toNat + 1)) := by
  intro given
  induction k with
  | zero =>
      have hunting := reply.hunting le_rfl
      rw [Nat.add_zero, Nat.zero_min, clocks_running reply.first fun t later within => ?_]
      · rfl
      · obtain ⟨t, rfl⟩ := Nat.exists_eq_add_of_le' later
        exact (hunting t (by omega)).dap0
  | succ k inductionHypothesis =>
      have shown : (m.after inputs ((inputs 1).lag.toNat + busy + 3 + k + 1)).beat.dap0 =
          decide ((inputs 1).lag.toNat + 1 + k < given) := by
        have place : (inputs 1).lag.toNat + busy + 3 + k + 1 =
            (inputs 1).lag.toNat + 1 + busy + 3 + k := by omega
        rw [place]
        rcases reply.dap0 k with draining | ⟨-, low, ended⟩
        · exact draining.dap0
        · rw [low]
          exact (decide_eq_false (by omega)).symm
      rw [← Nat.add_assoc, clocks_succ, inductionHypothesis, shown]
      by_cases more : (inputs 1).lag.toNat + 1 + k < given
      · rw [decide_eq_true more, if_pos rfl]
        omega
      · rw [decide_eq_false more, if_neg Bool.false_ne_true]
        omega

/-- In a fast reply DAP0 has, after the start bit's own clock, never fewer clocks than
`lag + 2`, and no more than the budget nor than are in flight when the reply is over.
These are the reply's positions exactly when there are that many and the budget, which
counts a CRC behind an empty payload too and at the earliest start bit is that of the
parameters before, does not exceed them. -/
theorem fast_reply_clocks (reply : FastReply m inputs line busy) :
    let lag := (inputs 1).lag.toNat
    let positions := (inputs 1).positions
    let budget := (budgeted inputs busy).allowance
    (∃ enough, ∀ n, enough ≤ n → m.clocks inputs n =
        busy + 1 + max (lag + 2) (min (positions + lag + 2) budget)) ∧
      ((∃ enough, ∀ n, enough ≤ n → m.clocks inputs n = busy + 1 + positions) ↔
        lag + 2 ≤ positions ∧
          (budget = positions ∨ budget < positions ∧ positions = lag + 2)) := by
  intro lag positions budget
  have total (n : Nat) (later : lag + busy + 3 + given (inputs 1) budget ≤ n) :
      m.clocks inputs n = busy + 1 + given (inputs 1) budget := by
    obtain ⟨k, rfl⟩ := Nat.exists_eq_add_of_le (Nat.le_trans (Nat.le_add_right _ _) later)
    have some : lag + 2 ≤ given (inputs 1) budget := Nat.le_max_left _ _
    have count : m.clocks inputs (lag + busy + 3 + k) =
        lag + busy + 2 + min k (given (inputs 1) budget - (lag + 1)) := reply.clocks k
    rw [count]
    omega
  have value : given (inputs 1) budget = max (lag + 2) (min (positions + lag + 2) budget) := rfl
  refine ⟨⟨_, total⟩, ?_⟩
  constructor
  · rintro ⟨enough, exact⟩
    have same := total (max enough (lag + busy + 3 + given (inputs 1) budget)) (Nat.le_max_right _ _)
    rw [exact _ (Nat.le_max_left _ _)] at same
    omega
  · rintro ⟨long, exact⟩
    have same : given (inputs 1) budget = positions := by omega
    exact ⟨_, fun n later => (total n later).trans (by rw [same])⟩

end Run

/-- The receiver after a reset, its other registers zero. -/
def rested : FrameRx 8 where
  frame :=
    { state := .idle, left := 0, atLast := false, nbitsR := 0, nbitsLast := 0, nbZero := false
      crcR := false, trailR := 0, hasTrail := false, trailLeft := 0, wideR := false
      waitLeft := 0, atLimit := false, allOnes := false, streamR := false, cntR := 0
      contR := false, busy := false, done := false, pdone := false, waitCycles := 0
      timedOut := false, idleHigh := false, crcOk := false, startAligned := false }
  capture :=
    { payEven := 0, payOdd := 0, crcEven := 0, crcOdd := 0, payAt := 0, crcAt := 0, check := 0
      crcRst := false }
  beat :=
    { tick := 0, tickDone := true, phase := false, samplePhase := false, sampleTake := false
      fastR := false, clkHist := 0, lagTap := 0, dap0 := false }
  budget :=
    { afterR := 0, inFlight := 1, inFlight1 := 2, left0 := 0, left1 := 0, pulseInit := 0
      pulsesLeft := 0, counting := false, piGo := false, goR := true }
  streaming := { moreR := false, lastNx := false, contOk := false, ssCont := false, ncR := true }
  waitLeft0 := 0
  waitNone := true
  hunting := false
  datOe := true

/-- A fast reply of a word and its CRC, on lines that are high. -/
def wordReply (n : Nat) : RxInput 8 where
  rst := false
  div := 0
  start := n == 1
  replyBits := 32
  maxWait := 64
  trailClocks := 1
  expectCrc := true
  noHunt := false
  wide := false
  fast := true
  lag := 2
  stream := false
  parcels := 0
  room := false
  dap1In := true
  dap1Ctl := true
  dap2In := true

theorem fast_reply_clocks_word :
    ∃ enough, ∀ n, enough ≤ n → rested.clocks wordReply n = 0 + 1 + 39 := by
  have reply : FastReply rested wordReply (fun _ => true) 0 := {
    idle := rfl
    runs := fun _ => rfl
    starts := fun n => by
      change (n == 1) = _
      rw [Bool.eq_iff_iff, beq_iff_eq, decide_eq_true_iff]
    fast := rfl
    hunts := rfl
    single := rfl
    limit := rfl
    lag_pos := by decide
    lag := fun _ _ => rfl
    answers := fun _ _ => rfl
    silent := fun n before => absurd before (Nat.not_lt_zero n)
    startBit := rfl
    within := by decide }
  exact (fast_reply_clocks reply).2.mpr ⟨by decide, by decide⟩

end FrameRx
end Fpga
end TriCoreDap
