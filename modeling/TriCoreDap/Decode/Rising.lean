import TriCoreDap.Decode.Gap

/-!
# The times of the rows

Without tick mode a row carries the time of the last TSR.  In a paragraph that is
kept every TSR is at or after the one before, in this paragraph or an earlier one,
since a step back drops the paragraph and rewinds the clock; so the known times
never decrease over all calls of `rows`.
-/

namespace TriCoreDap
namespace Decode

/-- The known times of rows. -/
def times (rows : List Row) : List Int := (rows.map Row.cycles).filter (0 ≤ ·)

theorem times_append (rows more : List Row) : times (rows ++ more) = times rows ++ times more := by
  rw [times, List.map_append, List.filter_append]
  rfl

theorem times_gapRow : times [gapRow] = [] := rfl

/-- The time of the last TSR, whether or not it still counts. -/
def Clock.high (clock : Clock) : Int := clock.epoch + clock.tsr.getD 0

/-- The time is that of the last TSR or unknown, and a TSR has 32 bits. -/
structure Clock.Settled (clock : Clock) : Prop where
  base_eq : clock.base = -1 ∨ clock.base = clock.high
  fits : clock.tsr.getD 0 < 2 ^ 32

/-- The times so far lie between `floor` and the last TSR, and do not decrease. -/
structure Scan.Rising (floor : Int) (s : Scan) : Prop where
  settled : s.clock.Settled
  floor_le : floor ≤ s.clock.high
  within : ∀ time ∈ times s.out, floor ≤ time ∧ time ≤ s.clock.high
  sorted : (times s.out).Pairwise (· ≤ ·)

/-- The value of a row has no more bytes than its size says. -/
def Row.Fits (row : Row) : Prop := row.size < 64 ∧ row.value < 2 ^ (8 * row.size)

instance Row.decidableFits (row : Row) : Decidable row.Fits := inferInstanceAs (Decidable (_ ∧ _))

/-- A row fits, and a gap has no time. -/
def Row.Sound (row : Row) : Prop := row.Fits ∧ (row.kind = .gap → row.cycles = -1)

instance Row.decidableSound (row : Row) : Decidable row.Sound :=
  inferInstanceAs (Decidable (row.Fits ∧ (_ → _)))

/-- At most one row more, at the time of the clock. -/
def Scan.Adds (tickMode : Bool) (s s' : Scan) : Prop :=
  s'.out = s.out ∨
    ∃ row : Row, row.cycles = s.clock.now tickMode ∧ row.Sound ∧ s'.out = s.out ++ [row]

variable {tickMode final comp : Bool} {core tt data dbits : Nat} {s s' : Scan} {floor : Int}
  {item : RawMessage} {items : List RawMessage}

/-! ## Messages other than TSRs -/

theorem Scan.Adds.ite
    {p : Prop} [Decidable p]
    {first second : Scan}
    (yes : s.Adds tickMode first)
    (no : s.Adds tickMode second) : s.Adds tickMode (if p then first else second) := by
  split_ifs
  · exact yes
  · exact no

theorem Scan.adds_of_same (same : s'.out = s.out) : s.Adds tickMode s' := Or.inl same

theorem Scan.adds_append
    {row : Row}
    (same : s'.out = s.out)
    (cycles : row.cycles = s.clock.now tickMode)
    (sound : row.Sound) : s.Adds tickMode (s'.append row) :=
  Or.inr ⟨row, cycles, sound, by rw [Scan.append, same]⟩

/-- A row without a value. -/
theorem Row.sound_of_none
    {row : Row}
    (none : row.value = -1)
    (size : row.size = 0)
    (event : row.kind = .gap → row.cycles = -1) : row.Sound := by
  rw [Row.Sound, Row.Fits, none, size]
  exact ⟨⟨by decide, by decide⟩, event⟩

/-- A row with the value of a data message. -/
theorem Row.sound_of_dmask
    {row : Row}
    (value : row.value = (dmask dsize field : Nat))
    (size : row.size = dsizeBytes dsize)
    (event : row.kind = .gap → row.cycles = -1) : row.Sound := by
  refine ⟨?_, event⟩
  rw [Row.Fits, value, size]
  constructor
  · unfold dsizeBytes
    split <;> decide
  · exact_mod_cast Nat.mod_lt field (Nat.two_pow_pos (8 * dsizeBytes dsize))

theorem dataMessage_adds (kind : Kind) (event : kind ≠ .gap) (dsize field : Nat) :
    s.Adds tickMode (dataMessage tickMode s core comp kind dsize field) := by
  apply Scan.Adds.ite (Scan.adds_of_same rfl)
  exact Scan.adds_append rfl rfl (Row.sound_of_dmask rfl rfl fun gap => absurd gap event)

theorem addressMessage_adds (sub : Nat) :
    s.Adds tickMode (addressMessage tickMode s core comp sub data) := by
  apply Scan.Adds.ite (Scan.adds_of_same rfl)
  apply Scan.Adds.ite (Scan.adds_of_same rfl)
  exact Scan.adds_append rfl rfl
    (Row.sound_of_none rfl rfl fun gap => absurd gap (accessKind_ne_gap _))

theorem access_adds : s.Adds tickMode (access tickMode s core comp tt data dbits) := by
  apply Scan.Adds.ite (Scan.adds_of_same rfl)
  apply Scan.Adds.ite (Scan.adds_of_same rfl)
  apply Scan.Adds.ite (Scan.adds_of_same rfl)
  exact Scan.adds_append rfl rfl
    (Row.sound_of_dmask rfl rfl fun gap => absurd gap (accessKind_ne_gap _))

theorem dtuMessage_adds : s.Adds tickMode (dtuMessage tickMode s core comp tt data dbits) := by
  have bad : s.Adds tickMode (s.bad core tt dbits) := Scan.adds_of_same rfl
  apply Scan.Adds.ite (.ite bad (dataMessage_adds .write nofun _ _))
  apply Scan.Adds.ite
  · apply Scan.Adds.ite bad
    exact .ite (.ite bad (dataMessage_adds .read nofun _ _)) (addressMessage_adds _)
  · exact access_adds

theorem wtuMessage_adds : s.Adds tickMode (wtuMessage tickMode s comp tt data dbits) := by
  have unsynced : s.Adds tickMode s.unsynced := Scan.adds_of_same rfl
  apply Scan.Adds.ite
  · apply Scan.Adds.ite unsynced
    exact Scan.adds_append rfl rfl (Row.sound_of_none rfl rfl nofun)
  apply Scan.Adds.ite
  · apply Scan.Adds.ite unsynced
    exact Scan.adds_append rfl rfl (Row.sound_of_none rfl rfl nofun)
  apply Scan.Adds.ite
  · apply Scan.Adds.ite (Scan.adds_of_same rfl)
    apply Scan.Adds.ite unsynced
    exact Scan.adds_append rfl rfl (Row.sound_of_none rfl rfl nofun)
  · exact Scan.adds_of_same rfl

theorem process_adds (other : item.tsr = none) : s.Adds tickMode (process tickMode final s item) := by
  cases item with
  | error bit core errCnt => exact Scan.adds_append rfl rfl (Row.sound_of_none rfl rfl nofun)
  | msg bit core tt data dbits =>
      have other : ¬(core = coreTsu ∧ tt ≤ 1) := by
        intro tsr
        rw [RawMessage.tsr, if_pos tsr] at other
        exact absurd other (Option.some_ne_none _)
      simp only [process, decodeMessage]
      split_ifs with dtu tsu wtu
      · exact (dtuMessage_adds : s.counted.Adds tickMode _)
      · have later : ¬tt ≤ 1 := fun stamp => other ⟨tsu, stamp⟩
        rw [tsuMessage, if_neg later]
        exact .ite (.ite (Scan.adds_of_same rfl) (Scan.adds_of_same rfl)) (Scan.adds_of_same rfl)
      · exact (wtuMessage_adds : s.counted.Adds tickMode _)
      · exact Scan.adds_of_same rfl
  | _ => exact Scan.adds_of_same rfl

theorem tsrMessage_out (comp : Bool) (data : Nat) : (tsrMessage s comp data).out = s.out := by
  simp only [tsrMessage, apply_ite Scan.out]
  split_ifs <;> rfl

/-- The rows of a scan are sound. -/
theorem process_sound (sound : ∀ row ∈ s.out, row.Sound) :
    ∀ row ∈ (process tickMode final s item).out, row.Sound := by
  cases isTsr : item.tsr with
  | some stamp =>
      rw [process_tsr isTsr, tsrMessage_out]
      exact sound
  | none =>
      rcases process_adds isTsr with same | ⟨row, -, own, out⟩
      · rw [same]
        exact sound
      · rw [out]
        intro other member
        rcases List.mem_append.mp member with earlier | newest
        · exact sound other earlier
        · rw [List.mem_singleton.mp newest]
          exact own

/-! ## A paragraph -/

theorem Clock.high_congr
    {clock other : Clock}
    (tsr : other.tsr = clock.tsr)
    (epoch : other.epoch = clock.epoch) : other.high = clock.high := by
  rw [Clock.high, tsr, epoch, Clock.high]

theorem Clock.Settled.now
    {clock : Clock}
    (settled : clock.Settled)
    (known : 0 ≤ clock.now false) : clock.now false = clock.high := by
  rw [Clock.now] at known ⊢
  by_cases early : clock.base < 0
  · rw [if_pos early] at known
    exact absurd known (by decide)
  · rw [if_neg early]
    exact settled.base_eq.resolve_left fun unknown => early (unknown ▸ by decide)

/-- A row at the time of the clock. -/
theorem Scan.Rising.adds
    (rising : s.Rising floor)
    (adds : s.Adds false s')
    (settled : s'.clock.Settled)
    (high : s'.clock.high = s.clock.high) : s'.Rising floor := by
  rcases adds with same | ⟨row, cycles, -, out⟩
  · exact ⟨settled, by rw [high]; exact rising.floor_le, by rw [same, high]; exact rising.within,
      by rw [same]; exact rising.sorted⟩
  by_cases known : 0 ≤ row.cycles
  · have row_time : times [row] = [s.clock.high] := by
      rw [← rising.settled.now (cycles ▸ known), ← cycles]
      exact List.filter_cons_of_pos (decide_eq_true known)
    have out_times : times s'.out = times s.out ++ [s.clock.high] := by
      rw [out, times_append, row_time]
    refine ⟨settled, by rw [high]; exact rising.floor_le, ?_, ?_⟩
    · rw [out_times, high]
      intro time member
      rcases List.mem_append.mp member with earlier | newest
      · exact rising.within time earlier
      · rw [List.mem_singleton.mp newest]
        exact ⟨rising.floor_le, le_refl _⟩
    · rw [out_times, List.pairwise_append]
      refine ⟨rising.sorted, List.pairwise_singleton _ _, fun earlier member time newest => ?_⟩
      rw [List.mem_singleton.mp newest]
      exact (rising.within earlier member).2
  · have out_times : times s'.out = times s.out := by
      rw [out, times_append]
      have none : times [row] = [] := List.filter_cons_of_neg (by simpa using known)
      rw [none, List.append_nil]
    exact ⟨settled, by rw [high]; exact rising.floor_le, by rw [out_times, high]; exact rising.within,
      by rw [out_times]; exact rising.sorted⟩

/-- A TSR that is no step back is at or after the one before. -/
theorem Clock.high_stamped
    {clock : Clock}
    (fits : clock.tsr.getD 0 < 2 ^ 32)
    (ahead : ¬clock.Behind value) :
    clock.high ≤ (Clock.stamped (clock.epochAt value) value).high := by
  rw [Clock.Behind, Clock.lag] at ahead
  change (clock.epoch : Int) + clock.tsr.getD 0 ≤ (clock.epochAt value : Nat) + (value : Nat)
  rw [Clock.epochAt, Clock.lag]
  split_ifs with wrapped
  · push_cast
    omega
  · omega

/-- A message of a paragraph that is kept. -/
theorem Scan.Rising.process
    (rising : s.Rising floor)
    (kept : ¬(Decode.process false final s item).Dropped) :
    (Decode.process false final s item).Rising floor := by
  cases isTsr : item.tsr with
  | none =>
      obtain ⟨clock, -⟩ := process_other false final s isTsr
      have high : (s.clock.advance item).high = s.clock.high :=
        Clock.high_congr (Clock.advance_tsr _ _) (Clock.advance_epoch _ _)
      apply rising.adds (process_adds isTsr)
      · rw [clock]
        refine ⟨?_, ?_⟩
        · rw [Clock.advance_base, high]
          exact rising.settled.base_eq
        · rw [Clock.advance_tsr]
          exact rising.settled.fits
      · rw [clock, high]
  | some stamp =>
      obtain ⟨comp, data⟩ := stamp
      rw [process_tsr isTsr] at kept ⊢
      by_cases early : comp = true ∧ s.clock.tsrOk = false
      · obtain ⟨rfl, unsynced⟩ := early
        have unsynced : s.counted.clock.tsrOk = false := unsynced
        rw [tsrMessage_unsynced unsynced]
        exact rising.adds (Scan.adds_of_same rfl) rising.settled rfl
      · have known : comp = true → s.counted.clock.tsrOk = true := by
          intro isComp
          exact Bool.not_eq_false _ ▸ fun unsynced => early ⟨isComp, unsynced⟩
        have ahead : ¬s.counted.clock.Behind (s.counted.clock.stamp comp data) :=
          fun behind => kept (Or.inl (tsrMessage_behind known behind))
        obtain ⟨clock, -⟩ := tsrMessage_accepted known ahead
        have later := Clock.high_stamped rising.settled.fits ahead
        have out : (tsrMessage s.counted comp data).out = s.out := tsrMessage_out comp data
        refine ⟨?_, ?_, ?_, ?_⟩
        · rw [clock]
          exact ⟨Or.inr rfl, Nat.mod_lt _ (by decide)⟩
        · rw [clock]
          exact rising.floor_le.trans later
        · rw [clock, out]
          exact fun time member =>
            ⟨(rising.within time member).1, (rising.within time member).2.trans later⟩
        · rw [out]
          exact rising.sorted

theorem Scan.Rising.foldl
    (rising : s.Rising floor)
    (kept : ¬(items.foldl (Decode.process false final) s).Dropped) :
    (items.foldl (Decode.process false final) s).Rising floor := by
  induction items generalizing s with
  | nil => exact rising
  | cons item rest inductionHypothesis =>
      exact inductionHypothesis (rising.process fun dropped => kept dropped.foldl) kept

/-! ## All calls -/

variable {settings : Settings} {d : Decoder settings} {par : List Byte} {gap : Bool}

theorem Decoder.measure_clock (d : Decoder settings) (gap : Bool) (first : Option Int) :
    (d.measure gap first).clock = d.clock := by
  unfold Decoder.measure
  cases first with
  | none => rfl
  | some first =>
      cases d.prevFirst with
      | none => rfl
      | some previous =>
          dsimp only
          split_ifs <;> rfl

/-- A call returns times between those before it and the clock it leaves, in order. -/
theorem rows_rising
    (noTicks : settings.tickMode = false)
    (settled : d.clock.Settled)
    (par : List Byte) (gap final : Bool) :
    (d.rows par gap final).2.clock.Settled ∧
      d.clock.high ≤ (d.rows par gap final).2.clock.high ∧
      (∀ time ∈ times (d.rows par gap final).1,
        d.clock.high ≤ time ∧ time ≤ (d.rows par gap final).2.clock.high) ∧
      (times (d.rows par gap final).1).Pairwise (· ≤ ·) := by
  have entered : (d.entered par gap).clock.Settled ∧
      (d.entered par gap).clock.high = d.clock.high := by
    cases before : d.gapBefore par gap with
    | true =>
        rw [(Decoder.entered_gap before).1]
        exact ⟨⟨Or.inl rfl, settled.fits⟩, rfl⟩
    | false =>
        rw [(Decoder.entered_continuing before).1]
        exact ⟨settled, rfl⟩
  have gap_times : times (gapRows (d.gapBefore par gap)) = [] := by
    cases d.gapBefore par gap <;> rfl
  rw [Decoder.rows_eq]
  split_ifs with dropped
  · have rewound : ((d.entered par gap).rewind (d.scanOf par gap final)).clock =
        { (d.entered par gap).clock with tsrOk := false, base := -1 } := rfl
    rw [times_append, gap_times, times_gapRow, rewound, ← entered.2]
    exact ⟨⟨Or.inl rfl, entered.1.fits⟩, le_refl _, nofun, List.Pairwise.nil⟩
  · have start : (Scan.start (d.entered par gap).clock (d.entered par gap).bases).Rising
        d.clock.high := ⟨entered.1, entered.2.ge, nofun, List.Pairwise.nil⟩
    have scan : d.scanOf par gap final = (parseParagraph par).foldl (process false final)
        (.start (d.entered par gap).clock (d.entered par gap).bases) := by
      rw [Decoder.scanOf, noTicks]
    have rising : (d.scanOf par gap final).Rising d.clock.high := by
      rw [scan] at dropped ⊢
      exact start.foldl dropped
    have clock : (((d.entered par gap).scanned (d.scanOf par gap final)).measure
        (d.gapBefore par gap) (d.scanOf par gap final).first).clock =
          (d.scanOf par gap final).clock := Decoder.measure_clock _ _ _
    rw [times_append, gap_times, List.nil_append, clock]
    exact ⟨rising.settled, rising.floor_le, rising.within, rising.sorted⟩

/-- The known times of the rows of all calls never decrease. -/
theorem run_rising
    (noTicks : settings.tickMode = false)
    (settled : d.clock.Settled)
    (paragraphs : List Paragraph) :
    (∀ time ∈ times (d.run paragraphs).1.flatten, d.clock.high ≤ time) ∧
      (times (d.run paragraphs).1.flatten).Pairwise (· ≤ ·) := by
  induction paragraphs generalizing d with
  | nil => exact ⟨nofun, List.Pairwise.nil⟩
  | cons par rest inductionHypothesis =>
      obtain ⟨settled', later, within, sorted⟩ :=
        rows_rising noTicks settled par.bytes par.gap par.final
      obtain ⟨others, sortedOthers⟩ := inductionHypothesis settled'
      have split : (d.run (par :: rest)).1.flatten = (d.rows par.bytes par.gap par.final).1 ++
          ((d.rows par.bytes par.gap par.final).2.run rest).1.flatten := rfl
      rw [split, times_append]
      refine ⟨fun time member => ?_, List.pairwise_append.mpr ⟨sorted, sortedOthers, ?_⟩⟩
      · rcases List.mem_append.mp member with here | there
        · exact (within time here).1
        · exact later.trans (others time there)
      · intro time here other there
        exact (within time here).2.trans (others other there)

/-- Every row that a decoder returns is sound. -/
theorem run_sound (d : Decoder settings) (paragraphs : List Paragraph) :
    ∀ row ∈ (d.run paragraphs).1.flatten, row.Sound := by
  have scanned (items : List RawMessage) (s : Scan) (sound : ∀ row ∈ s.out, row.Sound)
      (final : Bool) : ∀ row ∈ (items.foldl (process settings.tickMode final) s).out, row.Sound := by
    induction items generalizing s with
    | nil => exact sound
    | cons item rest inductionHypothesis => exact inductionHypothesis _ (process_sound sound)
  have gaps (gap : Bool) : ∀ row ∈ gapRows gap, row.Sound := by
    intro row member
    cases gap with
    | false => exact absurd member List.not_mem_nil
    | true =>
        rw [List.mem_singleton.mp member]
        exact Row.sound_of_none rfl rfl fun _ => rfl
  induction paragraphs generalizing d with
  | nil => exact nofun
  | cons par rest inductionHypothesis =>
      have split : (d.run (par :: rest)).1.flatten = (d.rows par.bytes par.gap par.final).1 ++
          ((d.rows par.bytes par.gap par.final).2.run rest).1.flatten := rfl
      rw [split]
      intro row member
      rcases List.mem_append.mp member with here | there
      · rw [Decoder.rows_eq] at here
        split_ifs at here
        · rcases List.mem_append.mp here with before | torn
          · exact gaps _ row before
          · rw [List.mem_singleton.mp torn]
            exact Row.sound_of_none rfl rfl fun _ => rfl
        · rcases List.mem_append.mp here with before | events
          · exact gaps _ row before
          · exact scanned _ _ (fun _ none => absurd none List.not_mem_nil) _ row events
      · exact inductionHypothesis _ row there

theorem new_settled (settings : Settings) : (Decoder.new settings).clock.Settled :=
  ⟨Or.inl rfl, Nat.two_pow_pos 32⟩

end Decode
end TriCoreDap
