import TriCoreDap.Fpga.FrameTx
import TriCoreDap.Fpga.HostFrame

/-!
# The frame that the fabric sends

A half period is `div + 1` clocks; a whole one shows a bit, at the edge between its
halves.  What is shown is compared with the frames of the host.
-/

namespace TriCoreDap
namespace Fpga
namespace FrameTx

open TxFrame

variable {W : Nat} {m : FrameTx W} {i : TxInput W} {div : BitVec W} {f : TxFrame}
variable {crc : BitVec 6} {high : Bool} {wait : Nat}

/-- A half of a bit's period with some clocks to wait for its end.  `crc` is what the
generator has once its reset is done. -/
structure Half
    (m : FrameTx W)
    (f : TxFrame)
    (crc : BitVec 6)
    (high : Bool)
    (wait : Nat) : Prop where
  frame : m.frame = f
  running : f.state ≠ .idle
  crc : (if m.crcRst then galoisSeed else m.crc) = crc
  fresh : m.crcRst = true → f.covered = false ∧ high = false
  tick : m.tick.toNat = wait
  tickDone : m.tickDone = decide (wait = 0)
  phase : m.phase = high
  normal : m.fastR = false
  dap0 : m.dap0 = high
  datOe : m.datOe = true
  dat2Oe : m.dat2Oe = f.wideR

theorem toNat_pred {tick : BitVec W} (some : tick.toNat = wait + 1) :
    (tick - 1).toNat = wait ∧ (tick == 1) = decide (wait = 0) := by
  have below := tick.isLt
  have one : (1 : BitVec W).toNat = 1 := by
    change (BitVec.ofNat W 1).toNat = 1
    rw [BitVec.toNat_ofNat]
    exact Nat.mod_eq_of_lt (by omega)
  constructor
  · have around : 2 ^ W - 1 + (wait + 1) = 2 ^ W + wait := by omega
    rw [BitVec.toNat_sub, one, some, around, Nat.add_mod_left]
    exact Nat.mod_eq_of_lt (by omega)
  · rw [Bool.eq_iff_iff, beq_iff_eq, decide_eq_true_iff, ← BitVec.toNat_inj, one, some]
    omega

theorem Half.running' (half : Half m f crc high wait) : (m.frame.state == .idle) = false := by
  rw [half.frame]
  exact beq_eq_false_iff_ne.mpr half.running

/-- Within a half only the time goes on. -/
theorem Half.hold (half : Half m f crc high (wait + 1)) (runs : i.rst = false) :
    Half (m.clock i) f crc high wait ∧ m.rising i = [] := by
  have busy := half.running'
  have waiting : m.tickDone = false := half.tickDone
  have clock : m.clock i =
      { m with
        crc := m.crcNext
        crcRst := false
        done := false
        dap0 := m.dap0
        tick := m.tick - 1
        tickDone := m.tick == 1 } := by
    simp [FrameTx.clock, runs, busy, waiting, dap0D]
  have left := toNat_pred half.tick
  constructor
  · rw [clock]
    exact {
      frame := half.frame
      running := half.running
      crc := by
        rw [← half.crc, crcNext, crcEn, waiting]
        simp
      fresh := nofun
      tick := left.1
      tickDone := left.2
      phase := half.phase
      normal := half.normal
      dap0 := half.dap0
      datOe := half.datOe
      dat2Oe := half.dat2Oe }
  · simp [rising, clock]

theorem beq_zero_iff (div : BitVec W) : (div == 0) = decide (div.toNat = 0) := by
  rw [Bool.eq_iff_iff, beq_iff_eq, decide_eq_true_iff]
  exact BitVec.toNat_inj.symm

/-- The middle of a period raises DAP0, and the CRC eats the bit. -/
theorem Half.rise (half : Half m f crc false 0) (runs : i.rst = false) :
    Half (m.clock i) f (f.consume crc) true i.div.toNat ∧
      m.rising i = [(f.dap1, f.wideR && f.dap2)] := by
  have busy := half.running'
  have elapsed : m.tickDone = true := half.tickDone
  have clock : m.clock i =
      { m with
        crc := m.crcNext
        crcRst := false
        done := false
        dap0 := true
        tick := i.div
        tickDone := i.div == 0
        phase := true } := by
    simp [FrameTx.clock, runs, busy, elapsed, half.phase, half.normal, divZero, dap0D]
  constructor
  · rw [clock]
    exact {
      frame := half.frame
      running := half.running
      crc := by
        change m.crcNext = f.consume crc
        rw [crcNext, crcEn, elapsed, half.phase, half.frame, consume, ← half.crc]
        cases reset : m.crcRst with
        | false => rfl
        | true => simp [(half.fresh reset).1]
      fresh := nofun
      tick := rfl
      tickDone := beq_zero_iff i.div
      phase := rfl
      normal := half.normal
      dap0 := rfl
      datOe := half.datOe
      dat2Oe := half.dat2Oe }
  · simp [rising, lines, clock, half.dap0, half.frame, half.datOe, half.dat2Oe]

theorem Half.settled (half : Half m f crc true 0) : m.crcRst = false := by
  cases reset : m.crcRst with
  | false => rfl
  | true => exact absurd (half.fresh reset).2 (by decide)

/-- The end of a period: the registers, with the advance to the next bit. -/
theorem Half.fall_eq (half : Half m f crc true 0) (runs : i.rst = false) :
    m.clock i =
      { m with
        crcRst := false
        done := f.ending
        dap0 := false
        tick := i.div
        tickDone := i.div == 0
        phase := false
        frame := f.advance crc } := by
  have busy : ¬f.state = .idle := half.running
  have elapsed : m.tickDone = true := half.tickDone
  have settled := half.settled
  have kept : m.crc = crc := by
    rw [← half.crc, settled]
    rfl
  simp [FrameTx.clock, runs, busy, elapsed, half.phase, half.normal, divZero, dap0D, crcNext, crcEn,
    settled, half.frame, kept]

theorem Half.fall_silent (half : Half m f crc true 0) : m.rising i = [] := by
  rw [rising, half.dap0]
  rfl

theorem Half.fall
    (half : Half m f crc true 0)
    (runs : i.rst = false)
    (more : f.ending = false) :
    Half (m.clock i) (f.advance crc) crc false i.div.toNat := by
  rw [half.fall_eq runs]
  exact {
    frame := rfl
    running := fun idle => by
      rw [(ending_iff half.running).mpr idle] at more
      cases more
    crc := by
      rw [← half.crc, half.settled]
    fresh := nofun
    tick := rfl
    tickDone := beq_zero_iff i.div
    phase := rfl
    normal := half.normal
    dap0 := rfl
    datOe := half.datOe
    dat2Oe := half.dat2Oe }

/-! ## Whole periods -/

variable {inputs : List (TxInput W)}

theorem exists_append {α : Type*} {xs : List α} {a b : Nat} (length : xs.length = a + b) :
    ∃ front back, xs = front ++ back ∧ front.length = a ∧ back.length = b :=
  ⟨xs.take a, xs.drop a, (List.take_append_drop a xs).symm, by rw [List.length_take]; omega,
    by rw [List.length_drop]; omega⟩

/-- What a frame is clocked with: no reset, and one divider. -/
def Steady (div : BitVec W) (inputs : List (TxInput W)) : Prop :=
  ∀ input ∈ inputs, input.rst = false ∧ input.div = div

theorem Half.hold_run
    (half : Half m f crc high wait)
    (steady : Steady div inputs)
    (length : inputs.length = wait) :
    Half (inputs.foldl clock m) f crc high 0 ∧ m.sent inputs = [] := by
  induction inputs generalizing m wait with
  | nil =>
      subst length
      exact ⟨half, rfl⟩
  | cons input rest inductionHypothesis =>
      subst length
      rw [Steady, List.forall_mem_cons] at steady
      obtain ⟨next, silent⟩ := half.hold steady.1.1
      obtain ⟨ends, nothing⟩ := inductionHypothesis next steady.2 rfl
      refine ⟨ends, ?_⟩
      rw [sent, emitted, silent]
      exact nothing

/-- The clocks of a period. -/
def period (div : BitVec W) : Nat := 2 * (div.toNat + 1)

/-- A period up to its last clock shows the bit. -/
theorem Half.period_run
    (half : Half m f crc false div.toNat)
    (steady : Steady div inputs)
    (length : inputs.length + 1 = period div) :
    Half (inputs.foldl clock m) f (f.consume crc) true 0 ∧
      m.sent inputs = [(f.dap1, f.wideR && f.dap2)] := by
  have total : inputs.length = div.toNat + (div.toNat + 1) := by
    rw [period] at length
    omega
  obtain ⟨low, rest, rfl, low_length, rest_length⟩ := exists_append total
  obtain ⟨edge, up, rfl⟩ := List.exists_cons_of_length_eq_add_one rest_length
  rw [Steady, List.forall_mem_append, List.forall_mem_cons] at steady
  obtain ⟨steady_low, edge_steady, steady_up⟩ := steady
  obtain ⟨low_ends, low_silent⟩ := half.hold_run steady_low low_length
  obtain ⟨high, shown⟩ := low_ends.rise edge_steady.1
  rw [edge_steady.2] at high
  obtain ⟨ends, up_silent⟩ := high.hold_run steady_up (Nat.succ.inj rest_length)
  constructor
  · rw [List.foldl_append, List.foldl_cons]
    exact ends
  · rw [sent, emitted_append, emitted]
    change m.sent low ++ (rising _ edge ++ sent _ up) = _
    rw [low_silent, shown, up_silent]
    rfl

/-- A frame from one of its bits on is what `pending` says, and then it is done. -/
theorem Half.frame_run
    (half : Half m f crc false div.toNat)
    (sound : f.Sound)
    (steady : Steady div inputs)
    (length : inputs.length = period div * (f.pending crc).length) :
    m.sent inputs = f.pending crc ∧
      (inputs.foldl clock m).frame.state = .idle ∧
      (inputs.foldl clock m).frame.busy = false ∧
      (inputs.foldl clock m).done = true := by
  generalize count_eq : (f.pending crc).length = count at length
  induction count generalizing m f crc inputs with
  | zero =>
      rw [sound.pending_advance half.running] at count_eq
      cases count_eq
  | succ count inductionHypothesis =>
      have unfolded : f.pending crc = _ := sound.pending_advance half.running
      rw [unfolded, List.length_cons, Nat.add_right_cancel_iff] at count_eq
      have shown : (f.dap1, f.wideR && f.dap2) = f.shownOf f.cur := by
        rw [shownOf, sound.dap1]
        cases wide : f.wideR with
        | false => rfl
        | true => rw [sound.dap2 wide]
      have total : inputs.length = (period div - 1) + (period div * count + 1) := by
        have positive : 0 < period div := by
          rw [period]
          omega
        rw [length, Nat.mul_add]
        omega
      obtain ⟨bit, rest, rfl, bit_length, rest_length⟩ := exists_append total
      obtain ⟨last, later, rfl⟩ := List.exists_cons_of_length_eq_add_one rest_length
      rw [Steady, List.forall_mem_append, List.forall_mem_cons] at steady
      obtain ⟨steady_bit, last_steady, steady_later⟩ := steady
      have bit_length' : bit.length + 1 = period div := by
        rw [bit_length, period]
        omega
      obtain ⟨full, seen⟩ := half.period_run steady_bit bit_length'
      have silent := full.fall_silent (i := last)
      rw [sent, emitted_append, emitted, List.foldl_append, List.foldl_cons]
      change m.sent bit ++ (rising _ last ++ sent _ later) = _ ∧ _
      rw [seen, silent, shown, unfolded]
      cases ends : f.ending with
      | false =>
          have next := full.fall last_steady.1 ends
          rw [last_steady.2] at next
          obtain ⟨rest_seen, done⟩ :=
            inductionHypothesis next (sound.advance _) steady_later count_eq
              (Nat.succ.inj rest_length)
          rw [rest_seen]
          exact ⟨rfl, done⟩
      | true =>
          have idle : (f.advance (f.consume crc)).state = .idle :=
            (ending_iff half.running).mp ends
          have none : (f.advance (f.consume crc)).pending (f.consume crc) = [] := by
            simp only [pending, idle]
          have nothing : later = [] := by
            rw [none, List.length_nil] at count_eq
            rw [← List.length_eq_zero_iff]
            rw [← count_eq] at rest_length
            exact Nat.succ.inj rest_length
          subst nothing
          rw [none, List.foldl_nil, full.fall_eq last_steady.1]
          refine ⟨rfl, idle, ?_, ends⟩
          change (if f.ending then false else f.busy) = false
          rw [ends]
          rfl

/-- A start in the idle state opens a frame. -/
theorem start_half
    (m : FrameTx W)
    (idle : m.frame.state = .idle)
    (runs : i.rst = false)
    (starts : i.start = true)
    (normal : i.fast = false) :
    Half (m.clock i) (m.frame.begin i) galoisSeed false i.div.toNat := by
  have clock : m.clock i =
      { m with
        crc := m.crcNext
        crcRst := true
        done := false
        dap0 := false
        frame := m.frame.begin i
        fastR := false
        tick := i.div
        tickDone := i.div == 0
        phase := false
        datOe := true
        dat2Oe := i.wide } := by
    simp [FrameTx.clock, runs, idle, starts, normal, dap0D]
  rw [clock]
  exact {
    frame := rfl
    running := (begin_state m.frame i).1
    crc := rfl
    fresh := fun _ => ⟨(begin_state m.frame i).2, rfl⟩
    tick := rfl
    tickDone := beq_zero_iff i.div
    phase := rfl
    normal := rfl
    dap0 := rfl
    datOe := rfl
    dat2Oe := rfl }

/-- What the end of a frame leaves. -/
structure Finished (m : FrameTx W) : Prop where
  idle : m.frame.state = .idle
  free : m.frame.busy = false
  done : m.done = true

/-- A whole frame, from its start in the idle state. -/
theorem frame_sent
    (m : FrameTx W)
    (idle : m.frame.state = .idle)
    (runs : i.rst = false)
    (starts : i.start = true)
    (normal : i.fast = false)
    (steady : Steady i.div inputs)
    (length : inputs.length =
      period i.div * (i.lead.toNat + ((m.frame.begin i).frameOn galoisSeed).length)) :
    m.sent (i :: inputs) =
        List.replicate i.lead.toNat (false, false) ++ (m.frame.begin i).frameOn galoisSeed ∧
      Finished ((i :: inputs).foldl clock m) := by
  have half := start_half m idle runs starts normal
  have pending := pending_begin m.frame i galoisSeed
  have silent : m.rising i = [] := by
    rw [rising, half.dap0]
    cases m.dap0 <;> rfl
  obtain ⟨shown, ended, free, done⟩ :=
    half.frame_run (begin_sound m.frame i) steady
      (by rw [length, pending, List.length_append, List.length_replicate])
  rw [sent, emitted, silent, List.nil_append, List.foldl_cons, ← pending]
  exact ⟨shown, ended, free, done⟩

/-! ## The frames of the host -/

/-- Both lines of a pair, DAP1's first. -/
def bothLines (pairs : List (Bool × Bool)) : List Bool :=
  pairs.flatMap fun pair => [pair.1, pair.2]

theorem bothLines_cons (pair : Bool × Bool) (pairs : List (Bool × Bool)) :
    bothLines (pair :: pairs) = pair.1 :: pair.2 :: bothLines pairs := rfl

theorem bothLines_append (front back : List (Bool × Bool)) :
    bothLines (front ++ back) = bothLines front ++ bothLines back :=
  List.flatMap_append


theorem length_bothLines (pairs : List (Bool × Bool)) :
    (bothLines pairs).length = 2 * pairs.length := by
  induction pairs with
  | nil => rfl
  | cons pair rest inductionHypothesis =>
      rw [bothLines_cons, List.length_cons, List.length_cons, inductionHypothesis, List.length_cons]
      omega

/-- Pairs are told by their lines. -/
theorem eq_pairs (pairs : List (Bool × Bool)) :
    pairs = (List.range pairs.length).map fun place =>
      ((bothLines pairs).getD (2 * place) false, (bothLines pairs).getD (2 * place + 1) false) := by
  induction pairs with
  | nil => rfl
  | cons pair rest inductionHypothesis =>
      rw [List.length_cons, List.range_succ_eq_map, List.map_cons, List.map_map]
      congr 1

theorem map_places {n : Nat} (narrow : f.wideR = false) (field : BitVec n) (count : Nat) :
    (f.places field count).map Prod.fst = bitsOf field.toNat count := by
  rw [places, List.map_map, bitsOf]
  congr 1
  funext place
  rw [Function.comp_apply, stride, narrow, if_neg Bool.false_ne_true, Nat.one_mul]
  rfl

theorem bothLines_places {n : Nat} (wide : f.wideR = true) (field : BitVec n) (count : Nat) :
    bothLines (f.places field count) = bitsOf field.toNat (2 * count) := by
  rw [places, stride, wide, if_pos rfl]
  induction count with
  | zero => rfl
  | succ count inductionHypothesis =>
      rw [bothLines] at inductionHypothesis ⊢
      rw [List.range_succ, List.map_append, List.flatMap_append, inductionHypothesis, bitsOf,
        bitsOf, Nat.mul_succ, List.range_succ, List.range_succ, List.map_append, List.map_append,
        List.append_assoc]
      rfl

theorem eat_narrow (narrow : f.wideR = false) (crc : BitVec 6) (bits : List (Bool × Bool)) :
    f.eat crc bits = (bits.map Prod.fst).foldl galoisStep crc := by
  rw [eat, narrow, List.foldl_map]
  rfl

theorem eat_wide (wide : f.wideR = true) (crc : BitVec 6) (bits : List (Bool × Bool)) :
    f.eat crc bits = (bothLines bits).foldl galoisStep crc := by
  rw [eat, wide, bothLines]
  induction bits generalizing crc with
  | nil => rfl
  | cons pair rest inductionHypothesis =>
      rw [List.foldl_cons, inductionHypothesis]
      rfl

theorem toNat_dapCrc6 (bits : List Bool) :
    (bits.foldl galoisStep galoisSeed).toNat = (dapCrc6 bits).toNat := by
  rw [dapCrc6_eq, BitVec.toNat_setWidth_of_le (by omega)]

/-- The places of the data: as many as bits, or as pairs that hold them. -/
theorem places_of_data (i : TxInput W) :
    (if i.dataBits == 0 then 0 else i.nbitsLastIn.toNat + 1) =
      if i.wide then (i.dataBits.toNat + 1) / 2 else i.dataBits.toNat := by
  have same (bits : BitVec 6) (wide : Bool) :
      (if bits == 0 then 0 else (if wide then (bits - 1) >>> 1 else bits - 1).toNat + 1) =
        if wide then (bits.toNat + 1) / 2 else bits.toNat := by
    revert bits wide
    decide +kernel
  exact same i.dataBits i.wide

/-- A narrow frame has the bits of the host's list. -/
theorem narrow_frame
    (f : TxFrame)
    (narrow : i.wide = false)
    (assembled : i.raw = false) :
    ((f.begin i).frameOn galoisSeed).map Prod.fst =
      frameBits 1 (bitsOf i.cmd.toNat 5 ++ bitsOf i.len.toNat 6 ++
        bitsOf i.data.toNat i.dataBits.toNat) := by
  have count := places_of_data i
  rw [narrow, if_neg Bool.false_ne_true] at count
  have single : (f.begin i).wideR = false := narrow
  have cmd : (f.begin i).cmdLast.toNat = 4 := by rw [cmdLast, single]; rfl
  have six : (f.begin i).f6Last.toNat = 5 := by rw [f6Last, single]; rfl
  rw [frameOn_eq assembled count.symm, frameBits, List.map_cons, List.map_append, crcOn,
    List.map_append, map_places single, eat_narrow single, toNat_dapCrc6]
  have payload : ((f.begin i).payload i.dataBits.toNat).map Prod.fst =
      bitsOf i.cmd.toNat 5 ++ bitsOf i.len.toNat 6 ++ bitsOf i.data.toNat i.dataBits.toNat := by
    rw [TxFrame.payload, List.map_append, List.map_append, map_places single, map_places single,
      map_places single, cmd, six]
    rfl
  rw [payload, six]
  simp only [List.replicate_one, List.append_assoc, List.cons_append, List.nil_append,
    List.map_cons, List.map_nil]

theorem bitsOf_append (value : Nat) (a b : Nat) :
    bitsOf value (a + b) = bitsOf value a ++ (List.range b).map fun k => value.testBit (a + k) := by
  rw [bitsOf, List.range_add, List.map_append, List.map_map]
  rfl

/-- A field that is one bit longer than its value ends in a zero. -/
theorem bitsOf_pad {value count : Nat} (value_lt : value < 2 ^ count) :
    bitsOf value (count + 1) = bitsOf value count ++ [false] := by
  rw [bitsOf_append]
  congr 1
  simp [Nat.testBit_lt_two_pow value_lt]

/-- A wide frame has, line after line, the bits of the host's padded frame. -/
theorem wide_frame
    (f : TxFrame)
    (wide : i.wide = true)
    (assembled : i.raw = false)
    (fits : i.data.toNat < 2 ^ i.dataBits.toNat) :
    bothLines ((f.begin i).frameOn galoisSeed) =
      frameBits 2 (bitsOf i.cmd.toNat 5 ++ [false] ++ bitsOf i.len.toNat 6 ++
        bitsOf i.data.toNat i.dataBits.toNat ++
        if i.dataBits.toNat % 2 = 1 then [false] else []) := by
  have count := places_of_data i
  rw [wide, if_pos rfl] at count
  have double : (f.begin i).wideR = true := wide
  have cmd : (f.begin i).cmdLast.toNat = 2 := by rw [cmdLast, double]; rfl
  have six : (f.begin i).f6Last.toNat = 2 := by rw [f6Last, double]; rfl
  have padded : bitsOf i.data.toNat (2 * ((i.dataBits.toNat + 1) / 2)) =
      bitsOf i.data.toNat i.dataBits.toNat ++
        if i.dataBits.toNat % 2 = 1 then [false] else [] := by
    by_cases odd : i.dataBits.toNat % 2 = 1
    · have more : 2 * ((i.dataBits.toNat + 1) / 2) = i.dataBits.toNat + 1 := by omega
      rw [if_pos odd, more, bitsOf_pad fits]
    · have same : 2 * ((i.dataBits.toNat + 1) / 2) = i.dataBits.toNat := by omega
      rw [if_neg odd, same, List.append_nil]
  have payload : bothLines ((f.begin i).payload ((i.dataBits.toNat + 1) / 2)) =
      bitsOf i.cmd.toNat 5 ++ [false] ++ bitsOf i.len.toNat 6 ++
        bitsOf i.data.toNat i.dataBits.toNat ++
        if i.dataBits.toNat % 2 = 1 then [false] else [] := by
    rw [TxFrame.payload, bothLines_append, bothLines_append, bothLines_places double,
      bothLines_places double, bothLines_places double, cmd, six]
    change bitsOf i.cmd.toNat 6 ++ bitsOf i.len.toNat 6 ++ bitsOf i.data.toNat _ = _
    rw [padded, bitsOf_pad i.cmd.isLt]
    simp only [List.append_assoc]
  rw [frameOn_eq assembled count.symm, frameBits, bothLines_cons, bothLines_append, crcOn,
    bothLines_append, bothLines_places double, eat_wide double, toNat_dapCrc6, payload, six, double]
  simp only [List.append_assoc]
  rfl

/-- The fabric sends the frame that the host builds: narrow, the bits of
`dap_frame_build`; wide, the pairs of `raw_frame`, whenever the frame fits.  The narrow
word of `raw_frame` is that of the listed bits. -/
theorem host_frame_sent
    (m : FrameTx W)
    (idle : m.frame.state = .idle)
    (i : TxInput W)
    (runs : i.rst = false)
    (starts : i.start = true)
    (normal : i.fast = false)
    (assembled : i.raw = false)
    (fits : i.data.toNat < 2 ^ i.dataBits.toNat) :
    (i.wide = false →
      ∃ f, dapFrameBuild i.cmd.toNat i.len.toNat i.data.toNat i.dataBits.toNat = some f ∧
        rawFrame i.cmd.toNat i.len.toNat i.data.toNat i.dataBits.toNat false =
          (if f.bit.length ≤ 63 then some (dapFrameWord f, f.bit.length) else none) ∧
        ∀ inputs, Steady i.div inputs →
          inputs.length = period i.div * (i.lead.toNat + f.bit.length) →
          (m.sent (i :: inputs)).map Prod.fst =
              List.replicate i.lead.toNat false ++ f.bit ∧
            Finished ((i :: inputs).foldl clock m)) ∧
    (i.wide = true → ∀ word total,
      rawFrame i.cmd.toNat i.len.toNat i.data.toNat i.dataBits.toNat true = some (word, total) →
        ∀ inputs, Steady i.div inputs →
          inputs.length = period i.div * (i.lead.toNat + total / 2) →
          m.sent (i :: inputs) =
              List.replicate i.lead.toNat (false, false) ++
                ((List.range (total / 2)).map fun place =>
                  (word.testBit (2 * place), word.testBit (2 * place + 1))) ∧
            Finished ((i :: inputs).foldl clock m)) := by
  constructor
  · intro narrow
    have built := @dapFrameBuild_eq _ _ i.data.toNat _ (Nat.le_of_lt_succ i.cmd.isLt)
      (Nat.le_of_lt_succ i.len.isLt) (Nat.le_of_lt_succ i.dataBits.isLt)
    have bits := narrow_frame m.frame narrow assembled
    refine ⟨_, built, rawFrame_narrow _ built, fun inputs steady length => ?_⟩
    have count : ((m.frame.begin i).frameOn galoisSeed).length = _ :=
      (List.length_map Prod.fst).symm.trans (congrArg List.length bits)
    obtain ⟨shown, done⟩ := frame_sent m idle runs starts normal steady (by
      rw [count]
      exact length)
    rw [shown, List.map_append, List.map_replicate, bits]
    exact ⟨rfl, done⟩
  · intro wide word total raw inputs steady length
    obtain ⟨bit, count⟩ := rawFrame_wide raw
    have lines := wide_frame m.frame wide assembled fits
    have half : ((m.frame.begin i).frameOn galoisSeed).length = total / 2 := by
      have doubled := length_bothLines ((m.frame.begin i).frameOn galoisSeed)
      rw [lines, ← count] at doubled
      omega
    have pairs := eq_pairs ((m.frame.begin i).frameOn galoisSeed)
    simp only [lines, ← bit, half] at pairs
    obtain ⟨shown, done⟩ := frame_sent m idle runs starts normal steady (by
      rw [half]
      exact length)
    rw [shown, pairs]
    exact ⟨rfl, done⟩

/-- The transmitter after a reset, its other registers zero. -/
def parked : FrameTx 8 where
  frame :=
    { state := .idle, left := 0, atLast := false, cmdR := 0, lenR := 0, nbitsR := 0
      nbitsLast := 0, nbZero := false, dataR := 0, wideR := false, rawR := false, crcSr := 0
      busy := false, dap1 := true, dap2 := true }
  crc := 0
  crcRst := false
  tick := 0
  tickDone := true
  phase := false
  fastR := false
  done := false
  dap0 := false
  datOe := true
  dat2Oe := false

/-- A write of 33 bits over both lines, which is padded to pairs. -/
def wideStart : TxInput 8 where
  rst := false
  div := 1
  start := true
  cmd := 0x12
  len := 1
  dataBits := 33
  data := 0x123456789
  lead := 3
  wide := true
  raw := false
  fast := false

def wideWord : Nat := 0x948D159E2414B

theorem host_frame_sent_wide :
    rawFrame 0x12 1 0x123456789 33 true = some (wideWord, 56) ∧
      parked.sent (wideStart :: List.replicate 124 wideStart) =
        List.replicate 3 (false, false) ++
          ((List.range 28).map fun place =>
            (wideWord.testBit (2 * place), wideWord.testBit (2 * place + 1))) := by
  have raw : rawFrame 0x12 1 0x123456789 33 true = some (wideWord, 56) := by
    decide +kernel
  have frames := (host_frame_sent parked rfl wideStart rfl rfl rfl rfl (by decide)).2 rfl
  refine ⟨raw, (frames _ _ raw _ ?_ List.length_replicate).1⟩
  intro input member
  rw [List.eq_of_mem_replicate member]
  exact ⟨rfl, rfl⟩

end FrameTx
end Fpga
end TriCoreDap
