import TriCoreDap.Decode.Paragraphs

/-!
# Resynchronisation after a gap

What the rows of a paragraph after a gap depend on.  Every base is forgotten,
but the last TSR is kept: a first absolute TSR that lies behind it makes the
paragraph count as torn, whatever the paragraph itself says.
-/

namespace TriCoreDap
namespace Decode

/-- A time stamp that counts as a step back, not as a wrap. -/
def Clock.Behind (clock : Clock) (value : Nat) : Prop :=
  0 < clock.lag value ∧ clock.lag value ≤ 2 ^ 31

instance (clock : Clock) (value : Nat) : Decidable (clock.Behind value) :=
  inferInstanceAs (Decidable (_ ∧ _))

/-- A message for which the paragraph is dropped wherever it stands. -/
def RawMessage.breaks (final : Bool) : RawMessage → Bool
  | .damaged _ => true
  | .endOfTrace _ => !final
  | .msg _ core tt data dbits => unfit core tt data dbits
  | _ => false

/-- The time stamps step back among themselves, `last` being the one before if
there is one; compressed ones before the first absolute one do not count. -/
def stepsBack : (last : Option Nat) → List RawMessage → Bool
  | _, [] => false
  | last, item :: rest =>
      match item.tsr with
      | none => stepsBack last rest
      | some (comp, data) =>
          if comp ∧ last = none then stepsBack last rest
          else
            let value := (if comp then data ^^^ last.getD 0 else data) % 2 ^ 32
            let lag := last.getD 0 - value
            decide (0 < lag ∧ lag ≤ 2 ^ 31) || stepsBack (some value) rest

/-- The paragraph is to be dropped for what is in it. -/
def BreaksItself (final : Bool) (par : List Byte) : Prop :=
  (parseParagraph par).any (·.breaks final) = true ∨ stepsBack none (parseParagraph par) = true

variable {tickMode final : Bool} {c : Int} {s : Scan} {clock : Clock} {item : RawMessage}
  {items : List RawMessage} {last : Option Nat} {settings : Settings}

/-! ## Single messages -/

/-- A message other than a TSR. -/
theorem process_other (tickMode final : Bool) (s : Scan) (other : item.tsr = none) :
    (process tickMode final s item).clock = s.clock.advance item ∧
      ((process tickMode final s item).Dropped ↔ s.Dropped ∨ item.breaks final = true) := by
  cases item with
  | endOfTrace bit =>
      refine ⟨rfl, ?_⟩
      cases final <;> simp [process, Scan.Dropped, Scan.Flawed, RawMessage.breaks]
  | damaged bit => exact ⟨rfl, by simp [process, Scan.Dropped, RawMessage.breaks]⟩
  | msg bit core tt data dbits =>
      have other : ¬(core = coreTsu ∧ tt ≤ 1) := by
        intro tsr
        rw [RawMessage.tsr, if_pos tsr] at other
        exact absurd other (Option.some_ne_none _)
      have ext : s.Extends (decodeMessage tickMode s core tt data dbits) :=
        decodeMessage_extends other
      refine ⟨ext.clock, ?_⟩
      rw [process, Scan.Dropped, ext.suspect, decodeMessage_flawed, ← or_assoc]
      rfl
  | _ => exact ⟨rfl, by simp [process, Scan.Dropped, Scan.Flawed, RawMessage.breaks, Scan.append]⟩

/-- A TSR is never a flaw. -/
theorem breaks_of_tsr (tsr : item.tsr = some (comp, data)) : item.breaks final = false := by
  cases item with
  | msg bit core tt data dbits =>
      simp only [RawMessage.tsr, Option.ite_none_right_eq_some] at tsr
      obtain ⟨⟨rfl, first⟩, -⟩ := tsr
      simp [RawMessage.breaks, unfit, coreTsu, coreDtu0, coreDtu1, show ¬3 < tt by omega]
  | _ => simp [RawMessage.tsr] at tsr

theorem process_tsr (tsr : item.tsr = some (comp, data)) :
    process tickMode final s item = tsrMessage s.counted comp data := by
  cases item with
  | msg bit core tt data dbits =>
      simp only [RawMessage.tsr, Option.ite_none_right_eq_some, Option.some.injEq,
        Prod.mk.injEq] at tsr
      obtain ⟨isTsr, rfl, rfl⟩ := tsr
      exact decodeMessage_tsr isTsr _ _
  | _ => simp [RawMessage.tsr] at tsr

/-- The epoch of an accepted time stamp. -/
def Clock.epochAt (clock : Clock) (value : Nat) : Nat :=
  if clock.lag value > 2 ^ 31 then clock.epoch + 2 ^ 32 else clock.epoch

theorem tsrMessage_flawed (comp : Bool) (data : Nat) :
    (tsrMessage s comp data).Flawed ↔ s.Flawed := by
  apply Scan.flawed_of_flaws
  simp only [tsrMessage, apply_ite Scan.flaws]
  split_ifs <;> rfl

theorem tsrMessage_unsynced (unsynced : s.clock.tsrOk = false) (data : Nat) :
    tsrMessage s true data = s.unsynced := by
  simp [tsrMessage, unsynced]

/-- A step back makes the paragraph suspect. -/
theorem tsrMessage_behind
    (known : comp = true → s.clock.tsrOk = true)
    (behind : s.clock.Behind (s.clock.stamp comp data)) :
    (tsrMessage s comp data).suspect = true := by
  obtain ⟨positive, small⟩ := behind
  have looked : ¬(comp = true ∧ (!s.clock.tsrOk) = true) := by
    rintro ⟨isComp, unknown⟩
    simp [known isComp] at unknown
  rw [tsrMessage, if_neg looked]
  by_cases broken : 0 < s.clock.lag (s.clock.stamp comp data) ∧ comp = true ∧
      s.clock.lag (s.clock.stamp comp data) < 2 ^ 31
  · simp only [if_pos broken]
  · have stepped : 0 < s.clock.lag (s.clock.stamp comp data) ∧
        ¬s.clock.lag (s.clock.stamp comp data) > 2 ^ 31 := ⟨positive, not_lt.mpr small⟩
    simp only [if_neg broken, decide_eq_true stepped, Bool.or_true]

/-- Any other TSR that is looked at sets the clock. -/
theorem tsrMessage_accepted
    (known : comp = true → s.clock.tsrOk = true)
    (ahead : ¬s.clock.Behind (s.clock.stamp comp data)) :
    (tsrMessage s comp data).clock =
        .stamped (s.clock.epochAt (s.clock.stamp comp data)) (s.clock.stamp comp data) ∧
      (tsrMessage s comp data).suspect = s.suspect := by
  have looked : ¬(comp = true ∧ (!s.clock.tsrOk) = true) := by
    rintro ⟨isComp, unknown⟩
    simp [known isComp] at unknown
  rw [tsrMessage, if_neg looked]
  rw [Clock.Behind] at ahead
  have whole : ¬(0 < s.clock.lag (s.clock.stamp comp data) ∧ comp = true ∧
      s.clock.lag (s.clock.stamp comp data) < 2 ^ 31) := by
    omega
  have notStepped : ¬(0 < s.clock.lag (s.clock.stamp comp data) ∧
      ¬s.clock.lag (s.clock.stamp comp data) > 2 ^ 31) := by
    omega
  simp only [if_neg whole, decide_eq_false notStepped, Bool.or_false]
  exact ⟨rfl, trivial⟩

theorem tsrMessage_suspect (suspect : s.suspect = true) :
    (tsrMessage s comp data).suspect = true := by
  simp only [tsrMessage, apply_ite Scan.suspect, suspect, Bool.true_or]
  split_ifs
  · exact suspect
  · rfl
  · rfl

/-- A paragraph that is to be dropped stays so. -/
theorem Scan.Dropped.process (dropped : s.Dropped) :
    (process tickMode final s item).Dropped := by
  cases tsr : item.tsr with
  | none => exact (process_other _ _ s tsr).2.mpr (Or.inl dropped)
  | some stamp =>
      obtain ⟨comp, data⟩ := stamp
      rw [process_tsr tsr]
      exact dropped.imp tsrMessage_suspect (tsrMessage_flawed comp data).mpr

theorem Scan.Dropped.foldl (dropped : s.Dropped) :
    (items.foldl (Decode.process tickMode final) s).Dropped := by
  induction items generalizing s with
  | nil => exact dropped
  | cons item rest inductionHypothesis => exact inductionHypothesis dropped.process

/-! ## Whole paragraphs -/

theorem absoluteTsr_of_tsr (tsr : item.tsr = some (comp, data)) :
    item.absoluteTsr = if comp then none else some data := by
  cases item with
  | msg bit core tt data dbits =>
      simp only [RawMessage.tsr, Option.ite_none_right_eq_some, Option.some.injEq,
        Prod.mk.injEq] at tsr
      obtain ⟨⟨rfl, first⟩, rfl, rfl⟩ := tsr
      rcases Nat.le_one_iff_eq_zero_or_eq_one.mp first with rfl | rfl
      · rfl
      · rfl
  | _ => simp [RawMessage.tsr] at tsr

theorem absoluteTsr_of_other (other : item.tsr = none) : item.absoluteTsr = none := by
  cases item with
  | msg bit core tt data dbits =>
      simp only [RawMessage.tsr, ite_eq_right_iff, Option.some_ne_none, imp_false,
        not_and] at other
      rw [RawMessage.absoluteTsr, if_neg]
      rintro ⟨isTsu, rfl⟩
      exact other isTsu (Nat.zero_le 1)
  | _ => rfl

theorem firstStamp_cons (item : RawMessage) (rest : List RawMessage) :
    firstStamp (item :: rest) = item.absoluteTsr.or (firstStamp rest) := by
  rw [firstStamp, List.findSome?_cons]
  cases item.absoluteTsr <;> rfl

@[simp] theorem Clock.advance_tsr (clock : Clock) (item : RawMessage) :
    (clock.advance item).tsr = clock.tsr := by
  cases item <;> rfl

@[simp] theorem Clock.advance_tsrOk (clock : Clock) (item : RawMessage) :
    (clock.advance item).tsrOk = clock.tsrOk := by
  cases item <;> rfl

@[simp] theorem Clock.advance_base (clock : Clock) (item : RawMessage) :
    (clock.advance item).base = clock.base := by
  cases item <;> rfl

@[simp] theorem Clock.advance_epoch (clock : Clock) (item : RawMessage) :
    (clock.advance item).epoch = clock.epoch := by
  cases item <;> rfl

theorem Clock.behind_of_tsr
    {clock other : Clock}
    (same : clock.tsr = other.tsr)
    (value : Nat) : clock.Behind value ↔ other.Behind value := by
  rw [Clock.Behind, Clock.lag, same, Clock.Behind, Clock.lag]

/-- The last TSR that the clock goes back to, if there is one. -/
def Clock.After (clock : Clock) (last : Option Nat) : Prop :=
  clock.tsrOk = last.isSome ∧ ∀ t, last = some t → clock.tsr = some t

theorem Clock.After.stamp
    (after : clock.After last)
    (looked : ¬(comp = true ∧ last = none))
    (data : Nat) :
    clock.stamp comp data = (if comp = true then data ^^^ last.getD 0 else data) % 2 ^ 32 := by
  cases last with
  | none =>
      have absolute : comp = false := Bool.eq_false_iff.mpr fun isComp => looked ⟨isComp, rfl⟩
      subst absolute
      rfl
  | some t => rw [Clock.stamp, after.2 t rfl]

theorem Clock.After.behind
    (after : clock.After last)
    (ahead : last = none → ¬clock.Behind value) :
    clock.Behind value ↔ 0 < last.getD 0 - value ∧ last.getD 0 - value ≤ 2 ^ 31 := by
  cases last with
  | none => exact iff_of_false (ahead rfl) (by simp)
  | some t => rw [Clock.Behind, Clock.lag, after.2 t rfl]

theorem Clock.After.known
    (after : clock.After last)
    (looked : ¬(comp = true ∧ last = none))
    (isComp : comp = true) : clock.tsrOk = true := by
  cases last with
  | none => exact absurd ⟨isComp, rfl⟩ looked
  | some t => exact after.1

theorem Clock.after_stamped (epoch value : Nat) : (Clock.stamped epoch value).After (some value) :=
  ⟨rfl, fun _ found => found⟩

/-- Unless the first absolute TSR is behind the clock, the paragraph is dropped
for what is in it. -/
theorem dropped_foldl
    (after : s.clock.After last)
    (ahead : last = none → ∀ v, firstStamp items = some v → ¬s.clock.Behind (v % 2 ^ 32)) :
    (items.foldl (process tickMode final) s).Dropped ↔
      s.Dropped ∨ items.any (·.breaks final) = true ∨ stepsBack last items = true := by
  induction items generalizing s last with
  | nil => simp [stepsBack]
  | cons item rest inductionHypothesis =>
      rw [firstStamp_cons] at ahead
      rw [List.foldl_cons, List.any_cons, stepsBack]
      cases isTsr : item.tsr with
      | none =>
          obtain ⟨clock, dropped⟩ := process_other tickMode final s isTsr
          rw [absoluteTsr_of_other isTsr] at ahead
          have sameTsr : (process tickMode final s item).clock.tsr = s.clock.tsr := by
            rw [clock, Clock.advance_tsr]
          have next : (process tickMode final s item).clock.After last := by
            rw [Clock.After, sameTsr, clock, Clock.advance_tsrOk]
            exact after
          have later := inductionHypothesis next fun start v found => by
            rw [Clock.behind_of_tsr sameTsr]
            exact ahead start v found
          rw [later, dropped]
          simp only [Bool.or_eq_true]
          tauto
      | some stamp =>
          obtain ⟨comp, data⟩ := stamp
          have after : s.counted.clock.After last := after
          rw [absoluteTsr_of_tsr isTsr] at ahead
          rw [process_tsr isTsr, breaks_of_tsr isTsr, Bool.false_or]
          simp only
          by_cases early : comp = true ∧ last = none
          · obtain ⟨rfl, rfl⟩ := early
            rw [tsrMessage_unsynced after.1, if_pos ⟨rfl, rfl⟩]
            exact inductionHypothesis after ahead
          have known := after.known early
          have first : last = none → ¬s.counted.clock.Behind (s.counted.clock.stamp comp data) := by
            rintro rfl
            have absolute : comp = false := Bool.eq_false_iff.mpr fun isComp => early ⟨isComp, rfl⟩
            subst absolute
            exact ahead rfl data rfl
          rw [if_neg early, ← after.stamp early data]
          by_cases behind : s.counted.clock.Behind (s.counted.clock.stamp comp data)
          · have suspect : (tsrMessage s.counted comp data).Dropped :=
              Or.inl (tsrMessage_behind known behind)
            rw [decide_eq_true ((after.behind first).mp behind), Bool.true_or]
            exact iff_of_true suspect.foldl (Or.inr (Or.inr rfl))
          · obtain ⟨clock, suspect⟩ := tsrMessage_accepted known behind
            rw [decide_eq_false (mt (after.behind first).mpr behind), Bool.false_or]
            have next : (tsrMessage s.counted comp data).clock.After
                (some (s.counted.clock.stamp comp data)) := by
              rw [clock]
              exact Clock.after_stamped _ _
            have later := inductionHypothesis next fun impossible =>
              absurd impossible (Option.some_ne_none _)
            rw [later, Scan.Dropped, suspect, tsrMessage_flawed]
            rfl

/-- A first absolute TSR behind the clock makes the paragraph suspect. -/
theorem dropped_of_behind
    (unknown : s.clock.tsrOk = false)
    (found : firstStamp items = some v)
    (behind : s.clock.Behind (v % 2 ^ 32)) :
    (items.foldl (process tickMode final) s).Dropped := by
  induction items generalizing s with
  | nil => exact absurd found (by simp [firstStamp])
  | cons item rest inductionHypothesis =>
      rw [firstStamp_cons] at found
      rw [List.foldl_cons]
      cases isTsr : item.tsr with
      | none =>
          obtain ⟨clock, -⟩ := process_other tickMode final s isTsr
          rw [absoluteTsr_of_other isTsr] at found
          have sameTsr : (process tickMode final s item).clock.tsr = s.clock.tsr := by
            rw [clock, Clock.advance_tsr]
          apply inductionHypothesis
          · rw [clock, Clock.advance_tsrOk, unknown]
          · exact found
          · exact (Clock.behind_of_tsr sameTsr _).mpr behind
      | some stamp =>
          obtain ⟨comp, data⟩ := stamp
          rw [absoluteTsr_of_tsr isTsr] at found
          rw [process_tsr isTsr]
          have unknown : s.counted.clock.tsrOk = false := unknown
          cases comp with
          | true =>
              rw [tsrMessage_unsynced unknown]
              exact inductionHypothesis unknown found behind
          | false =>
              obtain rfl := Option.some.inj found
              have suspect : (tsrMessage s.counted false data).suspect = true :=
                tsrMessage_behind (by simp) behind
              exact Scan.Dropped.foldl (Or.inl suspect)

/-! ## Two histories -/

theorem process_shifted
    (tickMode final : Bool)
    (item : RawMessage)
    (shifted : s.clock.Shifted c clock) :
    ∃ clock', process tickMode final (s.retimed c clock) item =
        (process tickMode final s item).retimed c clock' ∧
      (process tickMode final s item).clock.Shifted c clock' := by
  cases isTsr : item.tsr with
  | none =>
      refine ⟨clock.advance item, process_retimed shifted.sameTime isTsr, ?_⟩
      rw [(process_other tickMode final s isTsr).1]
      exact shifted.advance item
  | some stamp =>
      obtain ⟨comp, data⟩ := stamp
      have shifted : s.counted.clock.Shifted c clock := shifted
      rw [process_tsr isTsr, process_tsr isTsr]
      exact tsrMessage_retimed shifted comp data

/-- Once both clocks go back to the same TSR, the rest is shifted. -/
theorem foldl_shifted
    (tickMode final : Bool)
    (items : List RawMessage)
    (shifted : s.clock.Shifted c clock) :
    ∃ clock', items.foldl (process tickMode final) (s.retimed c clock) =
        (items.foldl (process tickMode final) s).retimed c clock' ∧
      (items.foldl (process tickMode final) s).clock.Shifted c clock' := by
  induction items generalizing s clock with
  | nil => exact ⟨clock, rfl, shifted⟩
  | cons item rest inductionHypothesis =>
      obtain ⟨clock₁, same, shifted₁⟩ := process_shifted tickMode final item shifted
      rw [List.foldl_cons, List.foldl_cons, same]
      exact inductionHypothesis shifted₁

/-- An absolute TSR that is not behind. -/
theorem tsrMessage_absolute (ahead : ¬s.clock.Behind (data % 2 ^ 32)) :
    tsrMessage s false data =
      { s with
        clock := .stamped (s.clock.epochAt (data % 2 ^ 32)) (data % 2 ^ 32)
        first := if s.first = none then
            some ((s.clock.epochAt (data % 2 ^ 32) : Int) + (data % 2 ^ 32 : Nat))
          else s.first } := by
  have stamp : s.clock.stamp false data = data % 2 ^ 32 := rfl
  have notStepped : ¬(0 < s.clock.lag (data % 2 ^ 32) ∧ ¬s.clock.lag (data % 2 ^ 32) > 2 ^ 31) := by
    rw [Clock.Behind] at ahead
    omega
  simp only [tsrMessage, stamp, Bool.false_eq_true, false_and, and_false, if_false,
    decide_eq_false notStepped, Bool.or_false, if_neg notStepped, Nat.add_zero, Bool.not_false,
    true_and]
  rfl

theorem tsrMessage_absolute_retimed
    (ahead : ¬s.clock.Behind (data % 2 ^ 32))
    (other : ¬clock.Behind (data % 2 ^ 32))
    (later : (clock.epochAt (data % 2 ^ 32) : Int) = s.clock.epochAt (data % 2 ^ 32) + c) :
    tsrMessage (s.retimed c clock) false data =
      (tsrMessage s false data).retimed c
        (.stamped (clock.epochAt (data % 2 ^ 32)) (data % 2 ^ 32)) := by
  have other : ¬(s.retimed c clock).clock.Behind (data % 2 ^ 32) := other
  rw [tsrMessage_absolute ahead, tsrMessage_absolute other]
  simp only [Scan.retimed, Option.map_eq_none_iff]
  congr 1
  split_ifs
  · rw [later]
    simp only [Option.map_some]
    congr 1
    omega
  · rfl

/-- The time is not known. -/
def Clock.Unknown (clock : Clock) : Prop := clock.base < 0 ∧ clock.tsrOk = false

theorem Clock.Unknown.advance (unknown : clock.Unknown) (item : RawMessage) :
    (clock.advance item).Unknown := by
  rw [Clock.Unknown, Clock.advance_base, Clock.advance_tsrOk]
  exact unknown

/-- Two scans that have not seen an absolute TSR go the same way up to the first
one, and from there on shifted by the difference of their epochs. -/
theorem foldl_retimed
    (tickMode final : Bool)
    (unknown : s.clock.Unknown)
    (other : clock.Unknown)
    (ahead : ∀ v, firstStamp items = some v →
      ¬s.clock.Behind (v % 2 ^ 32) ∧ ¬clock.Behind (v % 2 ^ 32) ∧
        (clock.epochAt (v % 2 ^ 32) : Int) = s.clock.epochAt (v % 2 ^ 32) + c) :
    ∃ clock', items.foldl (process tickMode final) (s.retimed c clock) =
      (items.foldl (process tickMode final) s).retimed c clock' := by
  induction items generalizing s clock with
  | nil => exact ⟨clock, rfl⟩
  | cons item rest inductionHypothesis =>
      rw [firstStamp_cons] at ahead
      rw [List.foldl_cons, List.foldl_cons]
      cases isTsr : item.tsr with
      | none =>
          have same : SameTime tickMode c s.clock clock :=
            sameTime_of_unknown unknown.1 other.1
          rw [process_retimed same isTsr]
          have next := (process_other tickMode final s isTsr).1
          rw [absoluteTsr_of_other isTsr] at ahead
          apply inductionHypothesis
          · rw [next]
            exact unknown.advance item
          · exact other.advance item
          · intro v found
            obtain ⟨first, second, later⟩ := ahead v found
            rw [next, Clock.Behind, Clock.Behind, Clock.epochAt, Clock.epochAt, Clock.lag,
              Clock.lag]
            simp only [Clock.advance_tsr, Clock.advance_epoch]
            exact ⟨first, second, later⟩
      | some stamp =>
          obtain ⟨comp, data⟩ := stamp
          rw [absoluteTsr_of_tsr isTsr] at ahead
          rw [process_tsr isTsr, process_tsr isTsr]
          have unsynced : s.counted.clock.tsrOk = false := unknown.2
          have unsynced' : (s.retimed c clock).counted.clock.tsrOk = false := other.2
          cases comp with
          | true =>
              rw [tsrMessage_unsynced unsynced, tsrMessage_unsynced unsynced']
              have unknown : s.counted.unsynced.clock.Unknown := unknown
              exact inductionHypothesis unknown other ahead
          | false =>
              obtain ⟨first, second, later⟩ := ahead data rfl
              have first : ¬s.counted.clock.Behind (data % 2 ^ 32) := first
              have same : tsrMessage (s.retimed c clock).counted false data = _ :=
                tsrMessage_absolute_retimed first second later
              have shifted : (tsrMessage s.counted false data).clock.Shifted c
                  (.stamped (clock.epochAt (data % 2 ^ 32)) (data % 2 ^ 32)) := by
                rw [tsrMessage_absolute first]
                exact Clock.shifted_stamped later _
              obtain ⟨clock', rest, -⟩ := foldl_shifted tickMode final rest shifted
              exact ⟨clock', same ▸ rest⟩

/-! ## The rows after a gap -/

/-- The first absolute TSR of the paragraph is behind the last TSR from before
the gap, by at most half the range of the counter. -/
def Decoder.FallsBehind (d : Decoder settings) (par : List Byte) : Prop :=
  ∃ v, firstStamp (parseParagraph par) = some v ∧ d.clock.Behind (v % 2 ^ 32)

theorem Decoder.scanOf_gap (d : Decoder settings) (par : List Byte) (final : Bool) :
    d.scanOf par true final =
      (parseParagraph par).foldl (process settings.tickMode final)
        (.start d.clock.reset .unknown) := by
  obtain ⟨clock, bases⟩ := Decoder.entered_gap (d.gapBefore_true par)
  rw [Decoder.scanOf, clock, bases]

theorem Decoder.scanOf_dropped
    (d : Decoder settings)
    (par : List Byte)
    (final : Bool)
    (ahead : ¬d.FallsBehind par) :
    (d.scanOf par true final).Dropped ↔ BreaksItself final par := by
  have after : (Scan.start d.clock.reset .unknown).clock.After none :=
    ⟨rfl, fun _ found => absurd found.symm (Option.some_ne_none _)⟩
  rw [d.scanOf_gap, dropped_foldl after fun _ v found behind => ahead ⟨v, found, behind⟩,
    BreaksItself]
  simp [Scan.Dropped, Scan.Flawed, Scan.start]

theorem Decoder.scanOf_behind
    (d : Decoder settings)
    (par : List Byte)
    (final : Bool)
    (behind : d.FallsBehind par) : (d.scanOf par true final).Dropped := by
  obtain ⟨v, found, behind⟩ := behind
  rw [d.scanOf_gap]
  exact dropped_of_behind rfl found behind

/-- Two histories that are not ahead of the paragraph give the same scan but for
the difference of their epochs. -/
theorem Decoder.scanOf_retimed
    (d d' : Decoder settings)
    (par : List Byte)
    (final : Bool)
    (ahead : ¬d.FallsBehind par)
    (ahead' : ¬d'.FallsBehind par) :
    ∃ c, (d'.scanOf par true final).out =
      (d.scanOf par true final).out.map (Row.shift c) := by
  have unknown (clock : Clock) : clock.reset.Unknown := ⟨by simp [Clock.reset], rfl⟩
  rw [d.scanOf_gap, d'.scanOf_gap]
  generalize start : Scan.start d.clock.reset .unknown = s
  have same (c : Int) : Scan.start d'.clock.reset .unknown = s.retimed c d'.clock.reset := by
    subst start
    rfl
  have startUnknown : s.clock.Unknown := by
    subst start
    exact unknown d.clock
  have startAhead : ∀ v, firstStamp (parseParagraph par) = some v →
      ¬s.clock.Behind (v % 2 ^ 32) := by
    subst start
    exact fun v found behind => ahead ⟨v, found, behind⟩
  have otherAhead : ∀ v, firstStamp (parseParagraph par) = some v →
      ¬d'.clock.reset.Behind (v % 2 ^ 32) := fun v found behind => ahead' ⟨v, found, behind⟩
  -- The shift is the difference of the epochs at the first stamp, if there is one.
  let stamp := ((firstStamp (parseParagraph par)).getD 0) % 2 ^ 32
  let c : Int := (d'.clock.reset.epochAt stamp : Int) - s.clock.epochAt stamp
  obtain ⟨clock, retimed⟩ := foldl_retimed settings.tickMode final startUnknown
    (unknown d'.clock) fun v found => by
      refine ⟨startAhead v found, otherAhead v found, ?_⟩
      have sameStamp : stamp = v % 2 ^ 32 := by
        simp only [stamp, found, Option.getD_some]
      show _ = (s.clock.epochAt (v % 2 ^ 32) : Int) + c
      simp only [c, sameStamp]
      omega
  refine ⟨c, ?_⟩
  rw [same c, retimed]
  rfl

/-- Shifted rows of one scan are never the rows of a dropped paragraph. -/
theorem rows_ne_dropped
    {rows : List Row}
    (events : ∀ row ∈ rows, row.kind ≠ .gap)
    (c : Int) : ([gapRow] ++ rows).map (Row.shift c) ≠ [gapRow] ++ [gapRow] := by
  intro same
  cases rows with
  | nil => simp at same
  | cons row rest =>
      have kind : row.kind = .gap := by
        have second : (row.shift c) = gapRow := by
          simp only [List.cons_append, List.nil_append, List.map_cons, List.cons.injEq] at same
          exact same.2.1
        exact congrArg Row.kind second
      exact events row List.mem_cons_self kind

/-- After a gap, two histories give the same rows up to a constant added to the
known times, exactly where the paragraph is dropped for what is in it, or its
first absolute TSR is behind the last one of both histories or of neither. -/
theorem gap_rows_agree_iff
    (d d' : Decoder settings)
    (par : List Byte)
    (final : Bool) :
    (∃ c, (d'.rows par true final).1 = (d.rows par true final).1.map (Row.shift c)) ↔
      BreaksItself final par ∨ (d.FallsBehind par ↔ d'.FallsBehind par) := by
  have dropped (d : Decoder settings) (drops : (d.scanOf par true final).Dropped) :
      (d.rows par true final).1 = [gapRow] ++ [gapRow] := by
    rw [d.rows_eq, if_pos drops, d.gapBefore_true]
    rfl
  have kept (d : Decoder settings) (keeps : ¬(d.scanOf par true final).Dropped) :
      (d.rows par true final).1 = [gapRow] ++ (d.scanOf par true final).out := by
    rw [d.rows_eq, if_neg keeps, d.gapBefore_true]
    rfl
  have whenDropped (drops : (d.scanOf par true final).Dropped)
      (drops' : (d'.scanOf par true final).Dropped) :
      ∃ c, (d'.rows par true final).1 = (d.rows par true final).1.map (Row.shift c) :=
    ⟨0, by rw [dropped d drops, dropped d' drops', Row.shift_zero, List.map_id]⟩
  by_cases breaks : BreaksItself final par
  · have drops (d : Decoder settings) : (d.scanOf par true final).Dropped := by
      by_cases behind : d.FallsBehind par
      · exact d.scanOf_behind par final behind
      · exact (d.scanOf_dropped par final behind).mpr breaks
    exact iff_of_true (whenDropped (drops d) (drops d')) (Or.inl breaks)
  by_cases behind : d.FallsBehind par
  · by_cases behind' : d'.FallsBehind par
    · refine iff_of_true ?_ (Or.inr (iff_of_true behind behind'))
      exact whenDropped (d.scanOf_behind par final behind) (d'.scanOf_behind par final behind')
    · refine iff_of_false ?_ (by tauto)
      rintro ⟨c, same⟩
      rw [dropped d (d.scanOf_behind par final behind),
        kept d' (mt (d'.scanOf_dropped par final behind').mp breaks)] at same
      have shifted := congrArg (List.map (Row.shift 0)) same
      rw [List.map_append, List.map_append] at shifted
      exact rows_ne_dropped (d'.scanOf_rows par true final) 0 shifted
  · by_cases behind' : d'.FallsBehind par
    · refine iff_of_false ?_ (by tauto)
      rintro ⟨c, same⟩
      rw [dropped d' (d'.scanOf_behind par final behind'),
        kept d (mt (d.scanOf_dropped par final behind).mp breaks)] at same
      exact rows_ne_dropped (d.scanOf_rows par true final) c same.symm
    · refine iff_of_true ?_ (Or.inr (iff_of_false behind behind'))
      obtain ⟨c, same⟩ := d.scanOf_retimed d' par final behind behind'
      refine ⟨c, ?_⟩
      rw [kept d (mt (d.scanOf_dropped par final behind).mp breaks),
        kept d' (mt (d'.scanOf_dropped par final behind').mp breaks), same, List.map_append]
      rfl

/-- A paragraph with a time stamp and two watch points, then padding. -/
def stampedParagraph (stamp : Nat) : List Byte :=
  toBytes 1024 (packBits
    [(4, 0x7), (5, coreTsu), (3, 0), (32, stamp),
     (4, 0x2), (5, coreWtu), (3, 0), (4, 5),
     (4, 0x2), (5, coreWtu), (3, 0), (4, 3),
     (4, 0x2), (12, coreSkip)])

/-- A decoder that has seen the counter half way through its range drops the good
paragraph that a new decoder reads. -/
theorem gap_rows_depend_on_history :
    ¬∃ c, (((Decoder.new wholeCycles).run
          [⟨stampedParagraph 0x80000000, false, true⟩]).2.rows (stampedParagraph 0) true true).1 =
      ((Decoder.new wholeCycles).rows (stampedParagraph 0) true true).1.map (Row.shift c) := by
  rintro ⟨c, same⟩
  have lengths := congrArg List.length same
  rw [List.length_map] at lengths
  have dropped : (((Decoder.new wholeCycles).run
      [⟨stampedParagraph 0x80000000, false, true⟩]).2.rows (stampedParagraph 0) true
        true).1.length = 2 := by
    decide +kernel
  have kept : ((Decoder.new wholeCycles).rows (stampedParagraph 0) true true).1.length = 3 := by
    decide +kernel
  rw [dropped, kept] at lengths
  exact absurd lengths (by decide)

end Decode
end TriCoreDap
