import TriCoreDap.Decode.Discard
import TriCoreDap.Decode.Rising

/-!
# Unwrapping the time stamps

A sender stamps its messages with true times, of which only 32 bits are sent, as they
are or against the stamp before.  As long as no step reaches 2^31 the decoder takes
each backward step of the 32 bits for a wrap and none for a torn paragraph, and its
time differs from the true one by the same constant throughout.
-/

namespace TriCoreDap
namespace Decode

/-- The time stamps among messages: whether they are compressed, and their data. -/
def stamps (items : List RawMessage) : List (Bool × Nat) := items.filterMap RawMessage.tsr

/-- The data of a time stamp. -/
def sent (prev : Option Nat) (comp : Bool) (time : Nat) : Nat :=
  if comp then time % 2 ^ 32 ^^^ prev.getD 0 % 2 ^ 32 else time % 2 ^ 32

/-- Time stamps for true times: each comes less than 2^31 cycles after the one before
and may be compressed against it. -/
def Sends : (prev : Option Nat) → (times : List Nat) → List (Bool × Nat) → Prop
  | _, [], [] => True
  | prev, time :: times, (comp, data) :: rest =>
      ((∀ before, prev = some before → before ≤ time ∧ time < before + 2 ^ 31) ∧
        (comp = true → prev.isSome = true) ∧ data = sent prev comp time) ∧
      Sends (some time) times rest
  | _, _, _ => False

/-- The last time that was sent. -/
def lastSent (prev : Option Nat) (times : List Nat) : Option Nat := times.getLast?.or prev

variable {settings : Settings} {tickMode final : Bool} {prev : Option Nat} {times : List Nat}
  {constant : Nat} {clock : Clock} {s : Scan} {item : RawMessage} {items : List RawMessage}
  {d : Decoder settings}

/-- The clock after the time stamp of `time`. -/
structure Clock.Shows (constant : Nat) (time : Nat) (clock : Clock) : Prop where
  tsr_eq : clock.tsr = some (time % 2 ^ 32)
  tsrOk : clock.tsrOk = true
  epoch_eq : clock.epoch + constant = time / 2 ^ 32 * 2 ^ 32
  base_eq : clock.base = (clock.epoch : Int) + (time % 2 ^ 32 : Nat)

/-- The clock after the last time stamp, if there was one. -/
def Clock.Keeps (constant : Nat) (prev : Option Nat) (clock : Clock) : Prop :=
  match prev with
  | none => clock.tsr = none ∧ clock.epoch = 0
  | some time => clock.Shows constant time

/-- The decoder's time is the true one less the constant. -/
theorem Clock.Shows.base_true (shows : clock.Shows constant time) :
    clock.base = (time : Int) - constant := by
  have split := Nat.div_add_mod time (2 ^ 32)
  have epoch_eq := shows.epoch_eq
  rw [shows.base_eq]
  omega

theorem Clock.Keeps.advance (keeps : clock.Keeps constant prev) (item : RawMessage) :
    (clock.advance item).Keeps constant prev := by
  cases prev with
  | none => simpa only [Clock.Keeps, Clock.advance_tsr, Clock.advance_epoch] using keeps
  | some time =>
      have shows : clock.Shows constant time := keeps
      exact ⟨by rw [Clock.advance_tsr, shows.tsr_eq], by rw [Clock.advance_tsrOk, shows.tsrOk],
        by rw [Clock.advance_epoch, shows.epoch_eq],
        by rw [Clock.advance_base, Clock.advance_epoch, shows.base_eq]⟩

/-! ## A time stamp -/

/-- A time stamp is read as the 32 bits of its time. -/
theorem Clock.Keeps.stamp
    (keeps : clock.Keeps constant prev)
    (known : comp = true → prev.isSome = true) :
    clock.stamp comp (sent prev comp time) = time % 2 ^ 32 := by
  cases comp with
  | false => exact Nat.mod_mod _ _
  | true =>
      obtain ⟨before, rfl⟩ := Option.isSome_iff_exists.mp (known rfl)
      have shows : clock.Shows constant before := keeps
      rw [Clock.stamp, shows.tsr_eq, sent]
      simp only [if_true, Option.getD_some]
      rw [Nat.xor_assoc, Nat.xor_self, Nat.xor_zero, Nat.mod_mod]

/-- A step of less than 2^31 is a wrap or goes forward. -/
theorem Clock.Keeps.ahead
    (keeps : clock.Keeps constant prev)
    (step : ∀ before, prev = some before → before ≤ time ∧ time < before + 2 ^ 31) :
    ¬clock.Behind (time % 2 ^ 32) := by
  cases prev with
  | none =>
      rw [Clock.Behind, Clock.lag, keeps.1]
      simp
  | some before =>
      have shows : clock.Shows constant before := keeps
      have near := step before rfl
      rw [Clock.Behind, Clock.lag, shows.tsr_eq, Option.getD_some]
      omega

/-- The epoch goes up where the 32 bits wrap. -/
theorem Clock.Keeps.epochAt
    (keeps : clock.Keeps constant prev)
    (step : ∀ before, prev = some before → before ≤ time ∧ time < before + 2 ^ 31)
    (starts : prev = none → constant = time / 2 ^ 32 * 2 ^ 32) :
    clock.epochAt (time % 2 ^ 32) + constant = time / 2 ^ 32 * 2 ^ 32 := by
  cases prev with
  | none =>
      have first := starts rfl
      rw [Clock.epochAt, Clock.lag, keeps.1, keeps.2, Option.getD_none, if_neg (by omega)]
      omega
  | some before =>
      have shows : clock.Shows constant before := keeps
      have near := step before rfl
      have epoch_eq := shows.epoch_eq
      have before_eq := Nat.div_add_mod before (2 ^ 32)
      have time_eq := Nat.div_add_mod time (2 ^ 32)
      have before_lt := Nat.mod_lt before (Nat.two_pow_pos 32)
      have time_lt := Nat.mod_lt time (Nat.two_pow_pos 32)
      rw [Clock.epochAt, Clock.lag, shows.tsr_eq, Option.getD_some]
      generalize before / 2 ^ 32 = laps at epoch_eq before_eq
      generalize time / 2 ^ 32 = lapsThen at time_eq
      generalize before % 2 ^ 32 = low at before_eq before_lt
      generalize time % 2 ^ 32 = lowThen at time_eq time_lt
      split_ifs with wrapped
      · omega
      · have same : lapsThen = laps := by omega
        rw [same, epoch_eq]

/-- A time stamp sets the clock to its time, and is nothing to drop the paragraph for. -/
theorem process_stamp
    (keeps : s.clock.Keeps constant prev)
    (whole : ¬s.Dropped)
    (isTsr : item.tsr = some (comp, sent prev comp time))
    (step : ∀ before, prev = some before → before ≤ time ∧ time < before + 2 ^ 31)
    (known : comp = true → prev.isSome = true)
    (starts : prev = none → constant = time / 2 ^ 32 * 2 ^ 32) :
    (process tickMode final s item).clock.Shows constant time ∧
      ¬(process tickMode final s item).Dropped := by
  have stamp_eq : s.clock.stamp comp (sent prev comp time) = time % 2 ^ 32 := keeps.stamp known
  have looked : comp = true → s.counted.clock.tsrOk = true := by
    intro isComp
    obtain ⟨before, rfl⟩ := Option.isSome_iff_exists.mp (known isComp)
    exact Clock.Shows.tsrOk keeps
  have ahead : ¬s.counted.clock.Behind (s.counted.clock.stamp comp (sent prev comp time)) := by
    rw [show s.counted.clock = s.clock from rfl, stamp_eq]
    exact keeps.ahead step
  obtain ⟨clock_eq, suspect⟩ := tsrMessage_accepted looked ahead
  rw [process_tsr isTsr]
  constructor
  · rw [clock_eq, show s.counted.clock = s.clock from rfl, stamp_eq]
    exact ⟨rfl, rfl, keeps.epochAt step starts, rfl⟩
  · rw [Scan.Dropped, suspect, tsrMessage_flawed]
    exact whole

/-! ## Runs of messages -/

theorem Sends.split
    {first : List (Bool × Nat)}
    (sends : Sends prev times (first ++ rest)) :
    Sends prev (times.take first.length) first ∧
      Sends (lastSent prev (times.take first.length)) (times.drop first.length) rest := by
  induction first generalizing prev times with
  | nil =>
      have same : lastSent prev (times.take 0) = prev := rfl
      exact ⟨trivial, same ▸ sends⟩
  | cons stamp first inductionHypothesis =>
      cases times with
      | nil => exact absurd sends id
      | cons time times =>
          obtain ⟨here, later⟩ := sends
          obtain ⟨front, back⟩ := inductionHypothesis later
          refine ⟨⟨here, front⟩, ?_⟩
          have last : lastSent prev ((time :: times).take (first.length + 1)) =
              lastSent (some time) (times.take first.length) := by
            rw [List.take_succ_cons, lastSent, lastSent, List.getLast?_cons]
            cases (times.take first.length).getLast? <;> rfl
          rw [List.length_cons, last]
          exact back

theorem Sends.length_eq (sends : Sends prev times sentStamps) :
    times.length = sentStamps.length := by
  induction sentStamps generalizing prev times with
  | nil =>
      cases times with
      | nil => rfl
      | cons time times => exact absurd sends id
  | cons stamp rest inductionHypothesis =>
      cases times with
      | nil => exact absurd sends id
      | cons time times =>
          rw [List.length_cons, List.length_cons, inductionHypothesis sends.2]

/-- The constant is that of the first time. -/
def Starts (constant : Nat) (prev : Option Nat) (times : List Nat) : Prop :=
  prev = none → ∀ time, times.head? = some time → constant = time / 2 ^ 32 * 2 ^ 32

theorem lastSent_append (prev : Option Nat) (times more : List Nat) :
    lastSent prev (times ++ more) = lastSent (lastSent prev times) more := by
  rw [lastSent, lastSent, lastSent, List.getLast?_append, Option.or_assoc]

/-- Once a time was sent the constant is settled. -/
theorem Starts.later
    (starts : Starts constant prev (times ++ more)) :
    Starts constant (lastSent prev times) more := by
  intro none time first
  rw [lastSent, Option.or_eq_none_iff, List.getLast?_eq_none_iff] at none
  obtain ⟨rfl, rfl⟩ := none
  exact starts rfl time first

theorem Starts.front
    (starts : Starts constant prev (times ++ more)) : Starts constant prev times := by
  intro none time first
  refine starts none time ?_
  rw [List.head?_append, first]
  rfl

/-- The messages of a paragraph, or of the beginning of one. -/
theorem foldl_keeps
    (keeps : s.clock.Keeps constant prev)
    (whole : ¬s.Dropped)
    (sends : Sends prev times (stamps items))
    (starts : Starts constant prev times)
    (intact : ∀ item ∈ items, item.breaks final = false) :
    (items.foldl (process tickMode final) s).clock.Keeps constant (lastSent prev times) ∧
      ¬(items.foldl (process tickMode final) s).Dropped := by
  induction items generalizing s prev times with
  | nil =>
      obtain rfl : times = [] := List.length_eq_zero_iff.mp sends.length_eq
      exact ⟨keeps, whole⟩
  | cons item rest inductionHypothesis =>
      have later (other : RawMessage) (member : other ∈ rest) : other.breaks final = false :=
        intact other (List.mem_cons_of_mem _ member)
      cases isTsr : item.tsr with
      | none =>
          obtain ⟨clock, dropped⟩ := process_other tickMode final s isTsr
          have same : stamps (item :: rest) = stamps rest := List.filterMap_cons_none isTsr
          rw [same] at sends
          apply inductionHypothesis (clock ▸ keeps.advance item) _ sends starts later
          rw [dropped, intact item List.mem_cons_self]
          simpa using whole
      | some stamp =>
          have more : stamps (item :: rest) = stamp :: stamps rest :=
            List.filterMap_cons_some isTsr
          rw [more] at sends
          obtain ⟨comp, data⟩ := stamp
          cases times with
          | nil => exact absurd sends id
          | cons time times =>
              obtain ⟨⟨step, known, rfl⟩, rest_sends⟩ := sends
              obtain ⟨shows, kept⟩ := process_stamp keeps whole isTsr step known
                fun first => starts first time rfl
              have last : lastSent prev (time :: times) = lastSent (some time) times := by
                rw [lastSent, lastSent, List.getLast?_cons]
                cases times.getLast? <;> rfl
              rw [last]
              exact inductionHypothesis shows kept rest_sends (fun none => nomatch none) later

/-- After a time stamp the clock shows its time. -/
theorem foldl_shows
    (tickMode : Bool)
    {first rest : List RawMessage}
    (keeps : s.clock.Keeps constant prev)
    (whole : ¬s.Dropped)
    (sends : Sends prev times (stamps (first ++ item :: rest) ++ more))
    (starts : Starts constant prev times)
    (intact : ∀ item ∈ first, item.breaks final = false)
    (isTsr : item.tsr.isSome = true) :
    ∃ time, times[(stamps first).length]? = some time ∧
      ((first ++ [item]).foldl (process tickMode final) s).clock.Shows constant time := by
  obtain ⟨⟨comp, data⟩, isTsr⟩ := Option.isSome_iff_exists.mp isTsr
  have parts : stamps (first ++ item :: rest) = stamps first ++ (comp, data) :: stamps rest := by
    rw [stamps, List.filterMap_append, List.filterMap_cons_some isTsr]
    rfl
  rw [parts, List.append_assoc] at sends
  obtain ⟨front, back⟩ := sends.split
  rw [← List.take_append_drop (stamps first).length times] at starts
  obtain ⟨keeps, whole⟩ : (first.foldl (process tickMode final) s).clock.Keeps constant
      (lastSent prev (times.take (stamps first).length)) ∧
        ¬(first.foldl (process tickMode final) s).Dropped :=
    foldl_keeps keeps whole front starts.front intact
  have startsItem := starts.later
  rw [List.foldl_append]
  cases last : times.drop (stamps first).length with
  | nil =>
      rw [last] at back
      exact absurd back id
  | cons time others =>
      rw [last] at back startsItem
      obtain ⟨⟨step, known, rfl⟩, -⟩ := back
      refine ⟨time, ?_, ?_⟩
      · rw [← Nat.add_zero (stamps first).length, ← List.getElem?_drop, last]
        rfl
      · exact (process_stamp keeps whole isTsr step known fun none => startsItem none time rfl).1

/-! ## Runs of paragraphs -/

/-- The time stamps of paragraphs. -/
def allStamps (paragraphs : List Paragraph) : List (Bool × Nat) :=
  paragraphs.flatMap fun par => stamps (parseParagraph par.bytes)

/-- Nothing in a paragraph but its time stamps can make it torn. -/
def Intact (par : Paragraph) : Prop :=
  ∀ item ∈ parseParagraph par.bytes, item.breaks par.final = false

theorem not_dropped_start (clock : Clock) (bases : Bases) : ¬(Scan.start clock bases).Dropped := by
  simp [Scan.Dropped, Scan.Flawed, Scan.start]

/-- A paragraph of the run: it is not torn, and the clock goes on. -/
theorem rows_keeps
    {par : Paragraph}
    (keeps : d.clock.Keeps constant prev)
    (continuing : d.gapBefore par.bytes par.gap = false)
    (sends : Sends prev times (stamps (parseParagraph par.bytes)))
    (starts : Starts constant prev times)
    (intact : Intact par) :
    ¬d.FindsTorn par ∧
      (d.rows par.bytes par.gap par.final).2.clock.Keeps constant (lastSent prev times) := by
  have entered : (Scan.start (d.entered par.bytes par.gap).clock
      (d.entered par.bytes par.gap).bases).clock.Keeps constant prev := by
    rw [Scan.start, (Decoder.entered_continuing continuing).1]
    exact keeps
  obtain ⟨clock, whole⟩ : (d.scanOf par.bytes par.gap par.final).clock.Keeps constant
      (lastSent prev times) ∧ ¬(d.scanOf par.bytes par.gap par.final).Dropped :=
    foldl_keeps entered (not_dropped_start _ _) sends starts intact
  refine ⟨fun torn => whole ((d.findsTorn_iff par).mp torn), ?_⟩
  rw [Decoder.rows_eq, if_neg whole, Decoder.measure_clock]
  exact clock

/-- A run of paragraphs leaves the clock at the last time sent. -/
theorem run_keeps
    {paragraphs : List Paragraph}
    (keeps : d.clock.Keeps constant prev)
    (gapless : d.Gapless paragraphs)
    (sends : Sends prev times (allStamps paragraphs))
    (starts : Starts constant prev times)
    (intact : ∀ par ∈ paragraphs, Intact par) :
    (d.run paragraphs).2.clock.Keeps constant (lastSent prev times) := by
  induction paragraphs generalizing d prev times with
  | nil =>
      obtain rfl : times = [] := List.length_eq_zero_iff.mp sends.length_eq
      exact keeps
  | cons par rest inductionHypothesis =>
      have split : allStamps (par :: rest) = stamps (parseParagraph par.bytes) ++ allStamps rest :=
        List.flatMap_cons
      rw [split] at sends
      obtain ⟨front, back⟩ := sends.split
      have whole := List.take_append_drop (stamps (parseParagraph par.bytes)).length times
      rw [← whole] at starts
      obtain ⟨-, next⟩ := rows_keeps keeps gapless.1 front starts.front
        (intact par List.mem_cons_self)
      have last := inductionHypothesis next gapless.2 back starts.later fun other member =>
        intact other (List.mem_cons_of_mem _ member)
      rw [← lastSent_append, whole] at last
      exact last

theorem Decoder.Gapless.split
    {before after : List Paragraph}
    (gapless : d.Gapless (before ++ after)) :
    d.Gapless before ∧ (d.run before).2.Gapless after := by
  induction before generalizing d with
  | nil => exact ⟨trivial, gapless⟩
  | cons par rest inductionHypothesis =>
      obtain ⟨front, back⟩ := inductionHypothesis gapless.2
      exact ⟨⟨gapless.1, front⟩, back⟩

/-- No paragraph is found torn, and after each time stamp the decoder's time is the true
one less one constant. -/
def Unwrapped (settings : Settings) (paragraphs : List Paragraph) (times : List Nat) : Prop :=
  ∃ constant : Nat, ∀ before par after, paragraphs = before ++ par :: after →
    let d := ((Decoder.new settings).run before).2
    ¬d.FindsTorn par ∧
      ∀ first item rest, parseParagraph par.bytes = first ++ item :: rest →
        item.tsr.isSome = true →
          ∃ time, times[(allStamps before ++ stamps first).length]? = some time ∧
            ((first ++ [item]).foldl (process settings.tickMode par.final)
              (.start (d.entered par.bytes par.gap).clock
                (d.entered par.bytes par.gap).bases)).clock.base = (time : Int) - constant

/-- Every run without gaps whose time stamps send true times, with steps below 2^31, is
unwrapped. -/
theorem times_unwrapped
    {paragraphs : List Paragraph}
    (gapless : (Decoder.new settings).Gapless paragraphs)
    (sends : Sends none times (allStamps paragraphs))
    (intact : ∀ par ∈ paragraphs, Intact par) : Unwrapped settings paragraphs times := by
  obtain ⟨constant, starts⟩ : ∃ constant, Starts constant none times := by
    refine ⟨times.headD 0 / 2 ^ 32 * 2 ^ 32, fun _ time first => ?_⟩
    rw [List.headD_eq_head?_getD, first, Option.getD_some]
  refine ⟨constant, ?_⟩
  rintro before par after rfl d
  have fresh : (Decoder.new settings).clock.Keeps constant none := ⟨rfl, rfl⟩
  obtain ⟨earlier, later⟩ := gapless.split
  have all : allStamps (before ++ par :: after) =
      allStamps before ++ (stamps (parseParagraph par.bytes) ++ allStamps after) :=
    List.flatMap_append
  rw [all] at sends
  obtain ⟨front, back⟩ := sends.split
  obtain ⟨here, -⟩ := back.split
  have whole := List.take_append_drop (allStamps before).length times
  have startsBoth := starts
  rw [← whole] at startsBoth
  have startsHere := startsBoth.later
  rw [← List.take_append_drop (stamps (parseParagraph par.bytes)).length
    (times.drop (allStamps before).length)] at startsHere
  have keeps := run_keeps fresh earlier front startsBoth.front
    fun other member => intact other (List.mem_append_left _ member)
  have parIntact : Intact par :=
    intact par (List.mem_append_right _ List.mem_cons_self)
  refine ⟨(rows_keeps keeps later.1 here startsHere.front parIntact).1, ?_⟩
  intro first item rest parsed isTsr
  have entered : (Scan.start (d.entered par.bytes par.gap).clock
      (d.entered par.bytes par.gap).bases).clock.Keeps constant
        (lastSent none (times.take (allStamps before).length)) := by
    rw [Scan.start, (Decoder.entered_continuing later.1).1]
    exact keeps
  rw [parsed] at back
  have shown := foldl_shows settings.tickMode entered (not_dropped_start _ _) back startsBoth.later
    (fun other member => parIntact other (parsed ▸ List.mem_append_left _ member)) isTsr
  obtain ⟨time, time_eq, shows⟩ := shown
  refine ⟨time, ?_, shows.base_true⟩
  rw [List.length_append, ← List.getElem?_drop]
  exact time_eq

/-- Two paragraphs with a time stamp each, the counter wrapping between them. -/
def wrapping : List Paragraph :=
  [⟨stampedParagraph (2 ^ 32 - 5), false, true⟩, ⟨stampedParagraph 3, false, true⟩]

theorem times_unwrapped_wrapping :
    Unwrapped wholeCycles wrapping [2 ^ 32 - 5, 2 ^ 32 + 3] := by
  apply times_unwrapped
  · exact ⟨by decide +kernel, by decide +kernel, trivial⟩
  · have sentStamps : allStamps wrapping = [(false, 2 ^ 32 - 5), (false, 3)] := by
      decide +kernel
    rw [sentStamps]
    refine ⟨⟨nofun, nofun, rfl⟩, ⟨fun before last => ?_, nofun, rfl⟩, trivial⟩
    rw [← Option.some.inj last]
    decide
  · unfold Intact
    decide +kernel

end Decode
end TriCoreDap
