import TriCoreDap.Decode.Agreement

/-!
# Scans under another clock

Only time stamps read the clock; every other message reads the time for its row
and leaves the clock alone.  So a scan whose clock is another one, shifted by a
constant, does the same with every message and gives the same rows with their
times shifted.
-/

namespace TriCoreDap
namespace Decode

/-- A time that is known, shifted. -/
def shiftTime (c time : Int) : Int := if 0 ≤ time then time + c else time

/-- A row with its time shifted. -/
def Row.shift (c : Int) (row : Row) : Row := { row with cycles := shiftTime c row.cycles }

/-- A scan with another clock and its times shifted. -/
def Scan.retimed (s : Scan) (c : Int) (clock : Clock) : Scan :=
  { s with
    clock := clock
    first := s.first.map (· + c)
    out := s.out.map (Row.shift c) }

variable {tickMode final : Bool} {c : Int} {s : Scan} {clock : Clock}

theorem shiftTime_unknown : shiftTime c (-1) = -1 := rfl

theorem shiftTime_zero (time : Int) : shiftTime 0 time = time := by
  simp [shiftTime]

theorem Row.shift_zero : Row.shift 0 = id := by
  funext row
  simp [Row.shift, shiftTime_zero]

/-- The times that two clocks give agree up to the shift. -/
def SameTime (tickMode : Bool) (c : Int) (clock other : Clock) : Prop :=
  other.now tickMode = shiftTime c (clock.now tickMode)

/-! ## Messages that only read the time -/

/-- A row at the time of the clock. -/
theorem append_retimed
    (same : SameTime tickMode c s.clock clock)
    (kind : Kind) (addr value : Int) (size : Nat) (wp count : Int) (name : String)
    (master : Int) :
    (s.append ⟨s.clock.now tickMode, kind, addr, value, size, wp, count, name, master⟩).retimed
        c clock =
      (s.retimed c clock).append
        ⟨clock.now tickMode, kind, addr, value, size, wp, count, name, master⟩ := by
  rw [show clock.now tickMode = shiftTime c (s.clock.now tickMode) from same]
  simp [Scan.retimed, Scan.append, Row.shift]

section
variable (core : Nat) (comp : Bool)

theorem dataMessage_retimed
    (same : SameTime tickMode c s.clock clock)
    (kind : Kind)
    (dsize field : Nat) :
    dataMessage tickMode (s.retimed c clock) core comp kind dsize field =
      (dataMessage tickMode s core comp kind dsize field).retimed c clock := by
  unfold dataMessage
  simp only [apply_ite (Scan.retimed · c clock)]
  congr 1
  symm
  apply append_retimed
  exact same

theorem addressMessage_retimed (same : SameTime tickMode c s.clock clock) (sub data : Nat) :
    addressMessage tickMode (s.retimed c clock) core comp sub data =
      (addressMessage tickMode s core comp sub data).retimed c clock := by
  unfold addressMessage
  simp only [apply_ite (Scan.retimed · c clock)]
  congr 2
  symm
  apply append_retimed
  exact same

theorem access_retimed (same : SameTime tickMode c s.clock clock) (tt data dbits : Nat) :
    access tickMode (s.retimed c clock) core comp tt data dbits =
      (access tickMode s core comp tt data dbits).retimed c clock := by
  unfold access
  simp only [apply_ite (Scan.retimed · c clock)]
  congr 3
  symm
  apply append_retimed
  exact same

theorem dtuMessage_retimed (same : SameTime tickMode c s.clock clock) (tt data dbits : Nat) :
    dtuMessage tickMode (s.retimed c clock) core comp tt data dbits =
      (dtuMessage tickMode s core comp tt data dbits).retimed c clock := by
  unfold dtuMessage dtwd dtrd
  simp only [apply_ite (Scan.retimed · c clock), dataMessage_retimed _ _ same,
    addressMessage_retimed _ _ same, access_retimed _ _ same]
  rfl

end

section
variable (comp : Bool)

theorem watch_retimed
    (same : SameTime tickMode c s.clock clock)
    (kind : Kind)
    (wp count : Int) :
    (s.watch tickMode kind wp count).retimed c clock =
      (s.retimed c clock).watch tickMode kind wp count :=
  append_retimed same _ _ _ _ _ _ _ _

theorem wtuMessage_retimed (same : SameTime tickMode c s.clock clock) (tt data dbits : Nat) :
    wtuMessage tickMode (s.retimed c clock) comp tt data dbits =
      (wtuMessage tickMode s comp tt data dbits).retimed c clock := by
  unfold wtuMessage
  simp only [apply_ite (Scan.retimed · c clock)]
  congr 1
  · unfold wpsMessage
    simp only [apply_ite (Scan.retimed · c clock)]
    congr 1
    symm
    apply watch_retimed
    exact same
  congr 1
  · unfold wpmMessage
    simp only [apply_ite (Scan.retimed · c clock)]
    congr 1
    symm
    apply watch_retimed
    exact same
  congr 1
  · unfold evcMessage
    simp only [apply_ite (Scan.retimed · c clock)]
    congr 2
    symm
    apply watch_retimed
    exact same

end

/-- A TSR: whether it is compressed, and its data. -/
def RawMessage.tsr : RawMessage → Option (Bool × Nat)
  | .msg _ core tt data _ =>
      if core = coreTsu ∧ tt ≤ 1 then some (decide (tt % 2 = 1), data) else none
  | _ => none

/-- What a message other than a TSR does to the clock. -/
def Clock.advance (clock : Clock) : RawMessage → Clock
  | .tick _ => { clock with ticks := clock.ticks + 1 }
  | .multick _ ticks => { clock with ticks := clock.ticks + ticks }
  | _ => clock

theorem decodeMessage_tsr
    (tsr : core = coreTsu ∧ tt ≤ 1)
    (data dbits : Nat) :
    decodeMessage tickMode s core tt data dbits =
      tsrMessage s.counted (decide (tt % 2 = 1)) data := by
  obtain ⟨rfl, absolute⟩ := tsr
  simp [decodeMessage, coreTsu, coreDtu0, coreDtu1, tsuMessage, absolute]

theorem decodeMessage_retimed
    (same : SameTime tickMode c s.clock clock)
    (other : ¬(core = coreTsu ∧ tt ≤ 1))
    (data dbits : Nat) :
    decodeMessage tickMode (s.retimed c clock) core tt data dbits =
      (decodeMessage tickMode s core tt data dbits).retimed c clock := by
  have same : SameTime tickMode c s.counted.clock clock := same
  unfold decodeMessage
  simp only [apply_ite (Scan.retimed · c clock)]
  split_ifs with dtu tsu wtu
  · exact dtuMessage_retimed _ _ same _ _ _
  · have later : ¬tt ≤ 1 := fun absolute => other ⟨tsu, absolute⟩
    simp only [tsuMessage, if_neg later, tsaMessage, apply_ite (Scan.retimed · c clock)]
    rfl
  · exact wtuMessage_retimed _ same _ _ _
  · rfl

/-- A message other than a TSR does the same under the other clock. -/
theorem process_retimed
    (same : SameTime tickMode c s.clock clock)
    {item : RawMessage}
    (other : item.tsr = none) :
    process tickMode final (s.retimed c clock) item =
      (process tickMode final s item).retimed c (clock.advance item) := by
  cases item with
  | error bit core errCnt =>
      symm
      apply append_retimed
      exact same
  | msg bit core tt data dbits =>
      have other : ¬(core = coreTsu ∧ tt ≤ 1) := by
        intro tsr
        rw [RawMessage.tsr, if_pos tsr] at other
        exact absurd other (Option.some_ne_none _)
      exact decodeMessage_retimed same other data dbits
  | _ => rfl

/-! ## Time stamps -/

/-- The other clock is `c` later wherever the time is known; both go back to the
same TSR. -/
structure Clock.Shifted (c : Int) (clock other : Clock) : Prop where
  tsr : other.tsr = clock.tsr
  epoch : (other.epoch : Int) = clock.epoch + c
  tsrOk : other.tsrOk = clock.tsrOk
  base : clock.base < 0 ∧ other.base < 0 ∨
    0 ≤ clock.base ∧ 0 ≤ other.base ∧ other.base = clock.base + c ∧ other.ticks = clock.ticks

theorem sameTime_of_unknown (unknown : s.clock.base < 0) (other : clock.base < 0) :
    SameTime tickMode c s.clock clock := by
  simp [SameTime, Clock.now, unknown, other, shiftTime_unknown]

theorem Clock.now_known {clock : Clock} (known : 0 ≤ clock.base) :
    clock.now tickMode = clock.base + if tickMode then (clock.ticks : Int) else 0 := by
  rw [Clock.now, if_neg (not_lt.mpr known)]
  cases tickMode with
  | false => exact (add_zero clock.base).symm
  | true => rfl

theorem Clock.Shifted.sameTime (shifted : s.clock.Shifted c clock) :
    SameTime tickMode c s.clock clock := by
  rcases shifted.base with ⟨unknown, other⟩ | ⟨known, other, later, ticks⟩
  · exact sameTime_of_unknown unknown other
  · rw [SameTime, Clock.now_known known, Clock.now_known other, shiftTime, later, ticks]
    have positive : 0 ≤ s.clock.base + if tickMode then (s.clock.ticks : Int) else 0 := by
      split_ifs
      · omega
      · omega
    rw [if_pos positive]
    omega

theorem Clock.Shifted.advance
    {clock other : Clock}
    (shifted : clock.Shifted c other)
    (item : RawMessage) :
    (clock.advance item).Shifted c (other.advance item) := by
  obtain ⟨tsr, epoch, tsrOk, base⟩ := shifted
  cases item with
  | tick bit => 
      refine ⟨tsr, epoch, tsrOk, base.imp id fun known => ?_⟩
      exact ⟨known.1, known.2.1, known.2.2.1, congrArg (· + 1) known.2.2.2⟩
  | multick bit ticks =>
      refine ⟨tsr, epoch, tsrOk, base.imp id fun known => ?_⟩
      exact ⟨known.1, known.2.1, known.2.2.1, congrArg (· + ticks) known.2.2.2⟩
  | _ => exact ⟨tsr, epoch, tsrOk, base⟩

/-- The clock after an accepted TSR. -/
theorem Clock.shifted_stamped
    {epoch epoch' : Nat}
    (later : (epoch' : Int) = epoch + c)
    (value : Nat) :
    (Clock.stamped epoch value).Shifted c (.stamped epoch' value) where
  tsr := rfl
  epoch := later
  tsrOk := rfl
  base := by
    have early : (0 : Int) ≤ epoch + value := by omega
    have late : (0 : Int) ≤ epoch' + value := by omega
    have shifted : (epoch' : Int) + value = epoch + value + c := by omega
    exact Or.inr ⟨early, late, shifted, rfl⟩

theorem tsrMessage_retimed
    (shifted : s.clock.Shifted c clock)
    (comp : Bool)
    (data : Nat) :
    ∃ clock', tsrMessage (s.retimed c clock) comp data =
        (tsrMessage s comp data).retimed c clock' ∧
      (tsrMessage s comp data).clock.Shifted c clock' := by
  have stamp : clock.stamp comp data = s.clock.stamp comp data := by
    rw [Clock.stamp, shifted.tsr, Clock.stamp]
  have lag (value : Nat) : clock.lag value = s.clock.lag value := by
    rw [Clock.lag, shifted.tsr, Clock.lag]
  have clockEq : (s.retimed c clock).clock = clock := rfl
  unfold tsrMessage
  simp only [clockEq, stamp, lag, shifted.tsrOk]
  generalize s.clock.stamp comp data = value
  by_cases unsynced : comp = true ∧ (!s.clock.tsrOk) = true
  · simp only [if_pos unsynced]
    exact ⟨clock, rfl, shifted⟩
  simp only [if_neg unsynced]
  by_cases broken : 0 < s.clock.lag value ∧ comp = true ∧ s.clock.lag value < 2 ^ 31
  · simp only [if_pos broken]
    have unknown : (-1 : Int) < 0 := by decide
    exact ⟨{ clock with tsrOk := false, base := -1 }, rfl, shifted.tsr, shifted.epoch, rfl,
      Or.inl ⟨unknown, unknown⟩⟩
  simp only [if_neg broken]
  have later : ((if s.clock.lag value > 2 ^ 31 then clock.epoch + 2 ^ 32 else clock.epoch : Nat) : Int) =
      (if s.clock.lag value > 2 ^ 31 then s.clock.epoch + 2 ^ 32 else s.clock.epoch : Nat) + c := by
    have epoch := shifted.epoch
    split_ifs
    · push_cast
      omega
    · omega
  generalize (if s.clock.lag value > 2 ^ 31 then clock.epoch + 2 ^ 32 else clock.epoch) =
    late at later ⊢
  generalize (if s.clock.lag value > 2 ^ 31 then s.clock.epoch + 2 ^ 32 else s.clock.epoch) =
    early at later ⊢
  refine ⟨_, ?_, Clock.shifted_stamped later value⟩
  simp only [Scan.retimed, Option.map_eq_none_iff]
  congr 1
  by_cases start : (!comp) = true ∧ s.first = none
  · simp only [if_pos start, Option.map_some, later]
    congr 1
    omega
  · simp only [if_neg start]

end Decode
end TriCoreDap
