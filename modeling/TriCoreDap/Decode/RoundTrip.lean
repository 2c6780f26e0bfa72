import TriCoreDap.Decode.Stream

/-!
# Round trip

What is sent comes back as rows: message by message the scan knows what the
sender has sent.
-/

namespace TriCoreDap
namespace Decode

/-- An engine of the decoder has the last value that was sent, if there is one. -/
def Knows (last : Option Nat) (base : Nat) (ok : Bool) : Prop :=
  ∀ value, last = some value → base = value ∧ ok = true

/-- The clock shows the time that was sent. -/
def Sent.Clocked (sent : Sent) (clock : Clock) : Prop :=
  match sent.time with
  | none => clock.tsr = none ∧ clock.epoch = 0 ∧ clock.base < 0
  | some time => clock = ⟨some (time % 2 ^ 32), time / 2 ^ 32 * 2 ^ 32, time, sent.ticks, true⟩

/-- The decoder knows what was sent. -/
structure Sent.KnownTo (sent : Sent) (clock : Clock) (bases : Bases) : Prop where
  addr : ∀ core, Knows (sent.addr core) (bases.dtu core).addr (bases.dtu core).addrOk
  data : ∀ core, Knows (sent.data core) (bases.dtu core).data (bases.dtu core).dataOk
  wps : Knows sent.wps bases.wps bases.wpsOk
  wpm : Knows sent.wpm bases.wpm bases.wpmOk
  evcId : Knows (sent.evc.map Prod.fst) bases.evcId bases.evcOk
  evcCnt : Knows (sent.evc.map Prod.snd) bases.evcCnt bases.evcOk
  clock : sent.Clocked clock

/-- The frames take a scan that knows `sent` to one that knows `sent'`, and give
the rows. -/
structure Carries
    (tickMode final : Bool)
    (s : Scan)
    (frames : List Frame)
    (rows : List Row)
    (sent' : Sent) : Prop where
  known : sent'.KnownTo (frames.foldl (Frame.apply tickMode final) s).clock
    (frames.foldl (Frame.apply tickMode final) s).bases
  kept : ¬(frames.foldl (Frame.apply tickMode final) s).Dropped
  pending : (frames.foldl (Frame.apply tickMode final) s).pending = s.pending
  out : (frames.foldl (Frame.apply tickMode final) s).out = s.out ++ rows

variable {tickMode final : Bool} {s : Scan} {sent sent' : Sent} {comp ok : Bool}
  {last : Option Nat} {base value before time : Nat} {coding : Coding} {event : Event} {item : Item}

/-! ## Engines -/

theorem Knows.of_some (value : Nat) : Knows (some value) value true := by
  intro other same
  exact ⟨Option.some.inj same, rfl⟩

theorem Knows.none (base : Nat) (ok : Bool) : Knows .none base ok := by
  intro value same
  cases same

theorem Knows.synced (knows : Knows last base ok) (known : last.isSome) : ok = true := by
  obtain ⟨value, same⟩ := Option.isSome_iff_exists.mp known
  exact (knows value same).2

/-- What was coded comes back. -/
theorem Knows.coded
    (knows : Knows last base ok)
    (known : comp = true → last.isSome = true)
    (value : Nat) : (if comp then coded comp last value ^^^ base else coded comp last value) =
      value := by
  cases comp with
  | false => rfl
  | true =>
      obtain ⟨other, same⟩ := Option.isSome_iff_exists.mp (known rfl)
      obtain ⟨base_eq, -⟩ := knows other same
      subst same base_eq
      simp [Decode.coded]

/-- So does the part of a value that is accessed. -/
theorem Knows.dmask
    (knows : Knows last base ok)
    (known : comp = true → last.isSome = true)
    (fits : value < 2 ^ (8 * dsizeBytes dsize)) :
    dmask dsize (if comp then dmask dsize (Decode.coded comp last value) ^^^ base
      else dmask dsize (Decode.coded comp last value)) = value := by
  have back := knows.coded known value
  cases comp with
  | false =>
      simp only [Bool.false_eq_true, if_false] at back ⊢
      rw [back, Decode.dmask, Decode.dmask, Nat.mod_mod, Nat.mod_eq_of_lt fits]
  | true =>
      simp only [if_true] at back ⊢
      calc Decode.dmask dsize (Decode.dmask dsize (Decode.coded true last value) ^^^ base)
          = Decode.dmask dsize (Decode.coded true last value ^^^ base) := by
            simp only [Decode.dmask, Nat.xor_mod_two_pow, Nat.mod_mod]
        _ = value := by rw [back, Decode.dmask, Nat.mod_eq_of_lt fits]

/-- A compressed message is not refused. -/
theorem Knows.guard
    (knows : Knows last base ok)
    (known : comp = true → last.isSome = true) : ¬(comp = true ∧ (!ok) = true) :=
  not_refused fun compressed => knows.synced (known compressed)

/-! ## The time -/

theorem Sent.Clocked.now (clocked : sent.Clocked clock) : clock.now tickMode = sent.now tickMode := by
  cases time : sent.time with
  | none =>
      simp only [Sent.Clocked, time] at clocked
      simp [Clock.now, Sent.now, time, clocked.2.2]
  | some last =>
      simp only [Sent.Clocked, time] at clocked
      rw [clocked]
      simp only [Clock.now, Sent.now, time]
      rw [if_neg (by omega)]

/-- A step forward of less than half the range of the counter either stays in
its lap or is seen as a wrap. -/
theorem forward_lag (forward : before ≤ time) (near : time - before < 2 ^ 31) :
    (before % 2 ^ 32 - time % 2 ^ 32 = 0 ∧ time / 2 ^ 32 * 2 ^ 32 = before / 2 ^ 32 * 2 ^ 32) ∨
      (2 ^ 31 < before % 2 ^ 32 - time % 2 ^ 32 ∧
        time / 2 ^ 32 * 2 ^ 32 = before / 2 ^ 32 * 2 ^ 32 + 2 ^ 32) := by
  omega

/-- The first absolute time stamp of the paragraph, after another TSR. -/
def Scan.firstAfter (s : Scan) (comp : Bool) (epoch value : Nat) : Option Int :=
  if !comp ∧ s.first = none then some ((epoch : Int) + value) else s.first

/-- A TSR that does not step back sets the time. -/
theorem tsrMessage_forward
    (synced : comp = true → s.clock.tsrOk = true)
    (value : s.clock.stamp comp data = stamp)
    (forward : (s.clock.lag stamp = 0 ∧ epoch = s.clock.epoch) ∨
      (2 ^ 31 < s.clock.lag stamp ∧ epoch = s.clock.epoch + 2 ^ 32)) :
    tsrMessage s comp data =
      { s with
        clock := .stamped epoch stamp
        first := s.firstAfter comp epoch stamp } := by
  simp only [tsrMessage, if_neg (not_refused synced), value]
  rcases forward with ⟨none, rfl⟩ | ⟨far, rfl⟩
  · simp [none, Scan.firstAfter]
  · have ahead : 0 < s.clock.lag stamp := by omega
    have notNear : ¬s.clock.lag stamp < 2 ^ 31 := by omega
    have wrap : s.clock.lag stamp > 2 ^ 31 := far
    simp only [notNear, and_false, if_false, wrap, not_true, decide_false, Bool.or_false,
      Nat.add_zero, Scan.firstAfter, if_true]

/-- The clock after a TSR of the sender. -/
theorem tsrMessage_sent
    (clocked : sent.Clocked s.clock)
    (forward : sent.Forward time)
    (known : comp = true → sent.time.isSome = true) :
    tsrMessage s comp (coded comp (sent.time.map (· % 2 ^ 32)) (time % 2 ^ 32)) =
      { s with
        clock := ⟨some (time % 2 ^ 32), time / 2 ^ 32 * 2 ^ 32, time, 0, true⟩
        first := s.firstAfter comp (time / 2 ^ 32 * 2 ^ 32) (time % 2 ^ 32) } := by
  have whole : Clock.stamped (time / 2 ^ 32 * 2 ^ 32) (time % 2 ^ 32) =
      ⟨some (time % 2 ^ 32), time / 2 ^ 32 * 2 ^ 32, time, 0, true⟩ := by
    have sum : ((time / 2 ^ 32 * 2 ^ 32 : Nat) : Int) + (time % 2 ^ 32 : Nat) = time := by omega
    rw [Clock.stamped, sum]
  rw [← whole]
  cases last : sent.time with
  | none =>
      simp only [Sent.Clocked, last] at clocked
      simp only [Sent.Forward, last] at forward
      have absolute : comp = false := by simpa [last] using known
      subst absolute
      apply tsrMessage_forward (by simp)
      · simp [Clock.stamp, coded]
      · left
        constructor
        · simp [Clock.lag, clocked.1]
        · rw [clocked.2.1]
          omega
  | some before =>
      simp only [Sent.Clocked, last] at clocked
      simp only [Sent.Forward, last] at forward
      have knows := Knows.of_some (before % 2 ^ 32)
      apply tsrMessage_forward
      · intro compressed
        rw [clocked]
      · rw [Clock.stamp, clocked, Option.getD_some, Option.map_some, knows.coded (by simp),
          Nat.mod_mod]
      · simp only [Clock.lag, clocked, Option.getD_some]
        exact forward_lag forward.1 forward.2

/-! ## Events -/

theorem Coding.apply_frame (coding : Coding) (core tt data : Nat) (s : Scan) :
    (coding.frame core tt data).apply tickMode final s =
      decodeMessage tickMode s core (tt + coding.comp.toNat) data (coding.framing.length - 8) :=
  rfl

theorem odd_iff (even : tt % 2 = 0) (comp : Bool) : decide ((tt + comp.toNat) % 2 = 1) = comp := by
  cases comp with
  | false => simp [even]
  | true => simp [Nat.add_mod, even]

/-- The trace type of a message is that of its kind, compressed or not. -/
theorem toNat_le (comp : Bool) (tt : Nat) : tt + comp.toNat ≤ tt + 1 :=
  Nat.add_le_add_left (Bool.toNat_le comp) tt

theorem decodeMessage_tsu (comp : Bool) :
    decodeMessage tickMode s coreTsu (0 + comp.toNat) data dbits =
      tsrMessage s.counted comp data := by
  have absolute : 0 + comp.toNat ≤ 1 := toNat_le comp 0
  simp only [decodeMessage, odd_iff (show 0 % 2 = 0 from rfl), tsuMessage, if_pos absolute]
  rfl

theorem decodeMessage_wtu (even : tt % 2 = 0) (comp : Bool) :
    decodeMessage tickMode s coreWtu (tt + comp.toNat) data dbits =
      wtuMessage tickMode s.counted comp (tt + comp.toNat) data dbits := by
  simp only [decodeMessage, odd_iff even]
  rfl

theorem wpsMessage_sent
    {id : Nat}
    (knows : Knows last s.bases.wps s.bases.wpsOk)
    (synced : comp = true → last.isSome = true)
    (small : id < 2 ^ 3) :
    wtuMessage tickMode s comp (0 + comp.toNat) (coded comp last id) dbits =
      { s with bases := { s.bases with wps := id, wpsOk := true } }.watch tickMode .wps id
        (-1) := by
  have low : id % 8 = id := Nat.mod_eq_of_lt small
  rw [wtuMessage, if_pos (toNat_le comp 0)]
  simp only [wpsMessage, if_neg (knows.guard synced), knows.coded synced, low]

theorem wpmMessage_sent
    {set : Nat}
    (knows : Knows last s.bases.wpm s.bases.wpmOk)
    (synced : comp = true → last.isSome = true)
    (small : set < 2 ^ 8) :
    wtuMessage tickMode s comp (2 + comp.toNat) (coded comp last set) dbits =
      { s with bases := { s.bases with wpm := set, wpmOk := true } }.watch tickMode .wpm set
        (-1) := by
  have low : set % 256 = set := Nat.mod_eq_of_lt small
  rw [wtuMessage, if_neg (by omega), if_pos (toNat_le comp 2)]
  simp only [wpmMessage, if_neg (knows.guard synced), knows.coded synced, low]

/-- A field of a message, cut where the message ends, and what is above it. -/
theorem cut_fields
    (below : List (Nat × Nat))
    (fits : field < 2 ^ width)
    (whole : packBelow (below ++ [(width, field)]) top < 2 ^ dbits)
    (room : fieldsWidth below ≤ dbits) :
    (packBelow (below ++ [(width, field)]) top >>> fieldsWidth below) %
        2 ^ (if width > dbits - fieldsWidth below then dbits - fieldsWidth below else width) =
          field ∧
      packBelow (below ++ [(width, field)]) top >>> (fieldsWidth below +
        (if width > dbits - fieldsWidth below then dbits - fieldsWidth below else width)) =
          top := by
  have cut : (if width > dbits - fieldsWidth below then dbits - fieldsWidth below else width) =
      min width (dbits - fieldsWidth below) := by
    split_ifs <;> omega
  have above : packBelow [(width, field)] top < 2 ^ (dbits - fieldsWidth below) := by
    rw [← packBelow_append_shiftRight below, Nat.shiftRight_eq_div_pow,
      Nat.div_lt_iff_lt_mul (Nat.two_pow_pos _), ← Nat.pow_add, Nat.sub_add_cancel room]
    exact whole
  rw [cut, Nat.shiftRight_add, packBelow_append_shiftRight]
  exact packBelow_cut fits above

theorem evcMessage_sent
    {id count : Nat}
    {lastId lastCount : Option Nat}
    (knowsId : Knows lastId s.bases.evcId s.bases.evcOk)
    (knowsCount : Knows lastCount s.bases.evcCnt s.bases.evcOk)
    (syncedId : comp = true → lastId.isSome = true)
    (syncedCount : comp = true → lastCount.isSome = true)
    (code : length1 < 2 ^ 4)
    (fits : coded comp lastId id < 2 ^ len1 length1)
    (room : 4 ≤ dbits)
    (whole : packBelow [(4, length1), (len1 length1, coded comp lastId id)]
      (coded comp lastCount count) < 2 ^ dbits) :
    wtuMessage tickMode s comp (4 + comp.toNat)
        (packBelow [(4, length1), (len1 length1, coded comp lastId id)]
          (coded comp lastCount count)) dbits =
      { s with bases := { s.bases with evcId := id, evcCnt := count, evcOk := true } }.watch
        tickMode .evc id count := by
  obtain ⟨first, second⟩ := cut_fields [(4, length1)] fits whole room
  have low : packBelow [(4, length1), (len1 length1, coded comp lastId id)]
      (coded comp lastCount count) % 16 = length1 := packBelow_mod code _ _
  rw [wtuMessage, if_neg (by omega), if_neg (by omega), if_pos (toNat_le comp 4)]
  simp only [fieldsWidth_cons, fieldsWidth_nil, List.cons_append, List.nil_append,
    Nat.add_zero] at first second
  simp only [evcMessage, if_neg (show ¬dbits < 4 by omega), low, first, second,
    if_neg (knowsId.guard syncedId), knowsId.coded syncedId, knowsCount.coded syncedCount]

theorem Carries.single
    (known : sent'.KnownTo (frame.apply tickMode final s).clock (frame.apply tickMode final s).bases)
    (kept : ¬(frame.apply tickMode final s).Dropped)
    (pending : (frame.apply tickMode final s).pending = s.pending)
    (out : (frame.apply tickMode final s).out = s.out ++ rows) :
    Carries tickMode final s [frame] rows sent' :=
  ⟨known, kept, pending, out⟩

/-- A message of the WTU. -/
theorem Carries.watch
    {bases : Bases}
    {wp count : Int}
    (known : sent'.KnownTo s.clock bases)
    (kept : ¬s.Dropped)
    (applied : frame.apply tickMode final s =
      { s.counted with bases := bases }.watch tickMode kind wp count) :
    Carries tickMode final s [frame]
      [⟨s.clock.now tickMode, kind, -1, -1, 0, wp, count, "WTU", -1⟩] sent' := by
  apply Carries.single <;> rw [applied]
  · exact known
  · exact kept
  · rfl
  · rfl

/-- Ticks of the paragraph and of the sender. -/
theorem Sent.KnownTo.tick (known : sent.KnownTo s.clock s.bases) (ticks : Nat) :
    { sent with ticks := sent.ticks + ticks }.KnownTo
      { s.clock with ticks := s.clock.ticks + ticks } s.bases := by
  have clocked := known.clock
  refine { known with clock := ?_ }
  unfold Sent.Clocked at clocked ⊢
  cases time : sent.time with
  | none =>
      simp only [time] at clocked ⊢
      exact clocked
  | some time =>
      simp only [time] at clocked ⊢
      rw [clocked]

theorem isSome_map {f : α → β} {value : Option α} (h : comp = true → value.isSome = true) :
    comp = true → (value.map f).isSome = true := by
  rw [Option.isSome_map]
  exact h

theorem length1_lt (known : (length1Bits code).isSome) : code < 2 ^ 4 := by
  by_contra large
  have unknown : length1Bits code = none := by
    unfold length1Bits
    split <;> first | omega | rfl
  simp [unknown] at known

/-- An event takes the scan along. -/
theorem Event.carries
    (known : sent.KnownTo s.clock s.bases)
    (kept : ¬s.Dropped)
    (valid : event.Valid sent) :
    Carries tickMode final s (event.frames sent) (event.rows tickMode sent) (event.send sent) := by
  have now : s.clock.now tickMode = sent.now tickMode := known.clock.now
  cases event with
  | tick =>
      apply Carries.single
      · exact known.tick 1
      · exact kept
      · rfl
      · exact (List.append_nil _).symm
  | multick ticks =>
      have applied : (Frame.multick ticks).apply tickMode final s =
          { s with clock := { s.clock with ticks := s.clock.ticks + ticks } } := by
        by_cases filler : ticks = 0
        · simp [Frame.apply, Frame.items, filler]
        · simp [Frame.apply, Frame.items, filler, process]
      apply Carries.single <;> rw [applied]
      · exact known.tick ticks
      · exact kept
      · exact (List.append_nil _).symm
  | error core errCnt =>
      apply Carries.single
      · exact known
      · exact kept
      · rfl
      · simp [Frame.apply, Frame.items, process, Scan.append, Event.rows, ← now]
  | wps coding id =>
      obtain ⟨small, synced, -⟩ := valid
      have knows : { sent with wps := some id }.KnownTo s.clock
          { s.bases with wps := id, wpsOk := true } := { known with wps := .of_some id }
      simp only [Event.rows, ← now]
      apply Carries.watch knows kept
      rw [Coding.apply_frame, decodeMessage_wtu rfl]
      exact wpsMessage_sent (s := s.counted) known.wps synced small
  | wpm coding set =>
      obtain ⟨small, synced, -⟩ := valid
      have knows : { sent with wpm := some set }.KnownTo s.clock
          { s.bases with wpm := set, wpmOk := true } := { known with wpm := .of_some set }
      simp only [Event.rows, ← now]
      apply Carries.watch knows kept
      rw [Coding.apply_frame, decodeMessage_wtu rfl]
      exact wpmMessage_sent (s := s.counted) known.wpm synced small
  | evc coding length1 id count =>
      obtain ⟨code, fits, synced, -, room, whole⟩ := valid
      have knows : { sent with evc := some (id, count) }.KnownTo s.clock
          { s.bases with evcId := id, evcCnt := count, evcOk := true } :=
        { known with evcId := .of_some id, evcCnt := .of_some count }
      simp only [Event.rows, ← now]
      apply Carries.watch knows kept
      rw [Coding.apply_frame, decodeMessage_wtu rfl]
      exact evcMessage_sent (s := s.counted) known.evcId known.evcCnt (isSome_map synced)
        (isSome_map synced) (length1_lt code) fits (by omega) whole
  | tsr coding time =>
      obtain ⟨forward, synced, -⟩ := valid
      have applied : (coding.frame coreTsu 0 (Event.tsrData coding sent time)).apply tickMode final s =
          { s.counted with
            clock := ⟨some (time % 2 ^ 32), time / 2 ^ 32 * 2 ^ 32, time, 0, true⟩
            first := s.counted.firstAfter coding.comp (time / 2 ^ 32 * 2 ^ 32)
              (time % 2 ^ 32) } := by
        rw [Coding.apply_frame, decodeMessage_tsu, Event.tsrData]
        exact tsrMessage_sent known.clock forward synced
      apply Carries.single <;> rw [applied]
      · exact { known with clock := rfl }
      · exact kept
      · rfl
      · exact (List.append_nil _).symm

/-! ## Accesses -/

theorem Prefix.code_ne_zero (pre : Prefix) : pre.code ≠ 0 := by
  obtain ⟨svm, master, subchannel, svm_lt, master_lt, subchannel_lt, present⟩ := pre
  simp only [Prefix.code, packBits]
  omega

theorem Prefix.code_master (pre : Prefix) : (pre.code >>> 1) % 16 = pre.master := by
  have above : pre.code >>> 1 = packBits [(4, pre.master), (7, pre.subchannel)] :=
    packBits_shiftRight 1 pre.svm _
  rw [above]
  exact packBits_mod pre.master_lt _

variable {a : Access}

theorem Access.full_above (a : Access) : a.full >>> addrBits = a.pre.elim 0 Prefix.code :=
  packBelow_shiftRight _ _ _ _

theorem Access.addressOf_full (a : Access) : addressOf a.full = a.addr :=
  packBelow_mod a.addr_lt _ _

theorem Access.masterOf_full (a : Access) : masterOf a.full = a.master := by
  simp only [masterOf, a.full_above, Access.master]
  cases a.pre with
  | none => rfl
  | some pre =>
      simp [pre.code_ne_zero, pre.code_master]

/-- The engines after the address of an access. -/
def Bases.withAddr (bases : Bases) (a : Access) : Bases :=
  let dtu := { bases.dtu a.core with addr := a.full, addrOk := true }
  { bases with dtu := Function.update bases.dtu a.core dtu }

/-- The engines after the value of an access. -/
def Bases.withData (bases : Bases) (a : Access) : Bases :=
  let dtu := { bases.dtu a.core with data := a.value, dataOk := true }
  { bases with dtu := Function.update bases.dtu a.core dtu }

theorem Sent.KnownTo.sendAddr
    {clock : Clock}
    {bases : Bases}
    (known : sent.KnownTo clock bases)
    (a : Access) : (sent.sendAddr a).KnownTo clock (bases.withAddr a) := by
  refine { known with addr := ?_, data := ?_ }
  · intro core
    by_cases same : core = a.core
    · subst same
      simpa [Sent.sendAddr, Bases.withAddr] using Knows.of_some a.full
    · simpa [Sent.sendAddr, Bases.withAddr, same] using known.addr core
  · intro core
    by_cases same : core = a.core
    · subst same
      simpa [Sent.sendAddr, Bases.withAddr] using known.data a.core
    · simpa [Sent.sendAddr, Bases.withAddr, same] using known.data core

theorem Sent.KnownTo.sendData
    {clock : Clock}
    {bases : Bases}
    (known : sent.KnownTo clock bases)
    (a : Access) : (sent.sendData a).KnownTo clock (bases.withData a) := by
  refine { known with addr := ?_, data := ?_ }
  · intro core
    by_cases same : core = a.core
    · subst same
      simpa [Sent.sendData, Bases.withData] using known.addr a.core
    · simpa [Sent.sendData, Bases.withData, same] using known.addr core
  · intro core
    by_cases same : core = a.core
    · subst same
      simpa [Sent.sendData, Bases.withData] using Knows.of_some a.value
    · simpa [Sent.sendData, Bases.withData, same] using known.data core

theorem decodeMessage_dtu (even : tt % 2 = 0) (comp : Bool) (a : Access) :
    decodeMessage tickMode s a.core (tt + comp.toNat) data dbits =
      dtuMessage tickMode s.counted a.core comp (tt + comp.toNat) data dbits := by
  simp only [decodeMessage, odd_iff even, if_pos a.core_eq]

/-- The scan that waits for the data message of an access. -/
def Scan.awaiting (s : Scan) (a : Access) : Scan :=
  { s with bases := s.bases.withAddr a, pending := some (a.addr, a.master) }

/-- The address message of a split access. -/
theorem addressMessage_sent
    (known : sent.KnownTo s.clock s.bases)
    (synced : comp = true → (sent.addr a.core).isSome = true)
    (room : 2 ≤ dbits) :
    dtuMessage tickMode s a.core comp (2 + comp.toNat)
        (packBelow [(2, 0)] (coded comp (sent.addr a.core) a.full)) dbits =
      s.awaiting a := by
  have knows := known.addr a.core
  have sub : packBelow [(2, 0)] (coded comp (sent.addr a.core) a.full) % 4 = 0 :=
    packBelow_mod (by decide) [] _
  have field : packBelow [(2, 0)] (coded comp (sent.addr a.core) a.full) >>> 2 =
      coded comp (sent.addr a.core) a.full := packBelow_shiftRight 2 0 [] _
  rw [dtuMessage, if_neg (by omega), if_pos (toNat_le comp 2), if_neg (by omega), sub,
    if_neg (by decide)]
  simp only [addressMessage, if_neg (knows.guard synced), field, knows.coded synced,
    a.addressOf_full, a.masterOf_full, if_true]
  rfl

/-- What a data message of an access does. -/
theorem dataMessage_sent
    (known : sent.KnownTo s.clock s.bases)
    (synced : comp = true → (sent.data a.core).isSome = true)
    (pending : s.pending = some ((a.addr : Int), a.master)) :
    dataMessage tickMode s a.core comp a.kind a.dsize (a.field comp (sent.data a.core)) =
      { s with bases := s.bases.withData a, pending := none }.append
        (a.row (s.clock.now tickMode)) := by
  have knows := known.data a.core
  have value := knows.dmask synced a.value_lt
  simp only [dataMessage, if_neg (knows.guard synced), pending, Option.getD_some, Access.field,
    value]
  rfl

/-- DTWD and DTRD are data messages. -/
theorem dtuMessage_data
    (comp : Bool)
    (field : Nat)
    (room : (if a.write then 2 else 4) ≤ dbits) :
    dtuMessage tickMode s a.core comp ((if a.write then 0 else 2) + comp.toNat)
        (packBelow (if a.write then [(2, a.dsize)] else [(2, 2), (2, a.dsize)]) field) dbits =
      dataMessage tickMode s a.core comp a.kind a.dsize field := by
  cases write : a.write with
  | true =>
      simp only [write, if_true] at room ⊢
      have dsize : packBelow [(2, a.dsize)] field % 4 = a.dsize := packBelow_mod a.dsize_lt [] _
      have value : packBelow [(2, a.dsize)] field >>> 2 = field := packBelow_shiftRight 2 _ [] _
      rw [dtuMessage, if_pos (toNat_le comp 0), dtwd, if_neg (by omega), dsize, value]
      simp [Access.kind, write]
  | false =>
      simp only [write, Bool.false_eq_true, if_false] at room ⊢
      have sub : packBelow [(2, 2), (2, a.dsize)] field % 4 = 2 := packBelow_mod (by decide) _ _
      have above : packBelow [(2, 2), (2, a.dsize)] field >>> 2 = packBelow [(2, a.dsize)] field :=
        packBelow_shiftRight 2 2 _ _
      have dsize : packBelow [(2, a.dsize)] field % 4 = a.dsize := packBelow_mod a.dsize_lt [] _
      have value : packBelow [(2, 2), (2, a.dsize)] field >>> 4 = field :=
        packBelow_append_shiftRight [(2, 2), (2, a.dsize)] [] field
      rw [dtuMessage, if_neg (by omega), if_pos (toNat_le comp 2), if_neg (by omega), sub,
        if_pos rfl, dtrd, if_neg (by omega), above, dsize, value]
      simp [Access.kind, write]

/-- An access in one message. -/
theorem access_sent
    (known : sent.KnownTo s.clock s.bases)
    (syncedData : comp = true → (sent.data a.core).isSome = true)
    (syncedAddr : comp = true → (sent.addr a.core).isSome = true)
    (code : length1 < 2 ^ 4)
    (fits : a.field comp (sent.data a.core) < 2 ^ len1 length1)
    (room : 6 ≤ dbits)
    (whole : packBelow [(4, length1), (2, a.dsize), (len1 length1, a.field comp (sent.data a.core))]
      (coded comp (sent.addr a.core) a.full) < 2 ^ dbits) :
    dtuMessage tickMode s a.core comp ((if a.write then 4 else 6) + comp.toNat)
        (packBelow [(4, length1), (2, a.dsize), (len1 length1, a.field comp (sent.data a.core))]
          (coded comp (sent.addr a.core) a.full)) dbits =
      { s with bases := (s.bases.withData a).withAddr a }.append
        (a.row (s.clock.now tickMode)) := by
  obtain ⟨first, second⟩ := cut_fields [(4, length1), (2, a.dsize)] fits whole room
  simp only [fieldsWidth_cons, fieldsWidth_nil, List.cons_append, List.nil_append,
    Nat.add_zero, Nat.reduceAdd] at first second
  have low : packBelow [(4, length1), (2, a.dsize),
      (len1 length1, a.field comp (sent.data a.core))] (coded comp (sent.addr a.core) a.full) % 16 =
        length1 := packBelow_mod code _ _
  have above : packBelow [(4, length1), (2, a.dsize),
      (len1 length1, a.field comp (sent.data a.core))] (coded comp (sent.addr a.core) a.full) >>> 4 =
        packBelow [(2, a.dsize), (len1 length1, a.field comp (sent.data a.core))]
          (coded comp (sent.addr a.core) a.full) := packBelow_shiftRight 4 _ _ _
  have dsize : packBelow [(2, a.dsize), (len1 length1, a.field comp (sent.data a.core))]
      (coded comp (sent.addr a.core) a.full) % 4 = a.dsize := packBelow_mod a.dsize_lt _ _
  have value := (known.data a.core).dmask syncedData a.value_lt
  have address := (known.addr a.core).coded syncedAddr a.full
  have kind : (if (if a.write then 4 else 6) + comp.toNat < 6 then Kind.write else Kind.read) =
      a.kind := by
    have odd := toNat_le comp 4
    cases write : a.write <;> simp [Access.kind, write]
    omega
  have wide : ¬(if a.write then 4 else 6) + comp.toNat ≤ 3 := by
    split_ifs <;> omega
  rw [dtuMessage, if_neg (by omega), if_neg wide]
  simp only [access, if_neg (show ¬dbits < 6 by omega), low, first, second, above, dsize,
    if_neg ((known.data a.core).guard syncedData)]
  simp only [Access.field] at value ⊢
  simp only [value, address, kind, a.addressOf_full, a.masterOf_full,
    if_neg ((known.addr a.core).guard syncedAddr)]
  simp [Scan.setDtu, Bases.withAddr, Bases.withData, Scan.append, Access.row]

/-! ## Runs -/

theorem Carries.append
    {first second : List Frame}
    (start : Carries tickMode final s first rows sent)
    (rest : Carries tickMode final (first.foldl (Frame.apply tickMode final) s) second others
      sent') : Carries tickMode final s (first ++ second) (rows ++ others) sent' := by
  have split : (first ++ second).foldl (Frame.apply tickMode final) s =
      second.foldl (Frame.apply tickMode final) (first.foldl (Frame.apply tickMode final) s) :=
    List.foldl_append
  constructor
  · rw [split]
    exact rest.known
  · rw [split]
    exact rest.kept
  · rw [split, rest.pending, start.pending]
  · rw [split, rest.out, start.out, List.append_assoc]

/-- What holds of every input that is met with `pending` holds of the list. -/
theorem Carries.emitted
    {α : Type}
    {step : Sent → α → Sent}
    {frames : Sent → α → List Frame}
    {rows : Sent → α → List Row}
    {allowed : Sent → α → Prop}
    (pending : Option (Int × Int))
    (each : ∀ (s : Scan) (sent : Sent) (input : α), sent.KnownTo s.clock s.bases →
      ¬s.Dropped → s.pending = pending → allowed sent input →
        Carries tickMode final s (frames sent input) (rows sent input) (step sent input))
    (inputs : List α)
    (known : sent.KnownTo s.clock s.bases)
    (kept : ¬s.Dropped)
    (waits : s.pending = pending)
    (along : Along step allowed sent inputs) :
    Carries tickMode final s (TriCoreDap.emitted step frames sent inputs)
      (TriCoreDap.emitted step rows sent inputs) (inputs.foldl step sent) := by
  induction inputs generalizing s sent with
  | nil => exact ⟨known, kept, rfl, (List.append_nil _).symm⟩
  | cons input rest inductionHypothesis =>
      have start := each s sent input known kept waits along.1
      apply start.append
      apply inductionHypothesis start.known start.kept _ along.2
      rw [start.pending, waits]

/-- An item takes a scan along that waits for no data message. -/
theorem Item.carries
    (known : sent.KnownTo s.clock s.bases)
    (kept : ¬s.Dropped)
    (waits : s.pending = none)
    (valid : item.Valid sent) :
    Carries tickMode final s (item.frames sent) (item.rows tickMode sent) (item.send sent) := by
  cases item with
  | other event => exact event.carries known kept valid
  | access coding length1 a =>
      obtain ⟨code, fits, synced, -, room, whole⟩ := valid
      simp only [Bool.and_eq_true] at synced
      have even : (if a.write then 4 else 6) % 2 = 0 := by split_ifs <;> rfl
      have applied : (coding.frame a.core (if a.write then 4 else 6)
          (a.accessData coding length1 sent)).apply tickMode final s =
            { s.counted with bases := (s.bases.withData a).withAddr a }.append
              (a.row (s.clock.now tickMode)) := by
        rw [Coding.apply_frame, decodeMessage_dtu even]
        exact access_sent (s := s.counted) known (fun comp => (synced comp).1)
          (fun comp => (synced comp).2) (length1_lt code) fits (by omega) whole
      apply Carries.single <;> rw [applied]
      · exact (known.sendData a).sendAddr a
      · exact kept
      · rfl
      · rw [Item.rows, ← known.clock.now]
        rfl
  | split address data between a =>
      obtain ⟨⟨syncedAddr, -, roomAddr, -⟩, along, ⟨syncedData, -, roomData, -⟩⟩ := valid
      have even : (if a.write then 0 else 2) % 2 = 0 := by split_ifs <;> rfl
      have addressed : (address.frame a.core 2 (a.addressData address sent)).apply tickMode final s =
          s.counted.awaiting a := by
        rw [Coding.apply_frame, decodeMessage_dtu rfl]
        exact addressMessage_sent (s := s.counted) known syncedAddr (by omega)
      have middle : Carries tickMode final (s.counted.awaiting a)
          (emitted Event.send Event.frames (sent.sendAddr a) between)
          (emitted Event.send (Event.rows tickMode) (sent.sendAddr a) between)
          (between.foldl Event.send (sent.sendAddr a)) := by
        apply Carries.emitted (some ((a.addr : Int), a.master))
        · intro s sent event known kept _ valid
          exact event.carries known kept valid
        · exact known.sendAddr a
        · exact kept
        · rfl
        · exact along
      -- the pending address is that of this access, whatever came in between
      obtain ⟨known', kept', pending', out'⟩ := middle
      constructor <;> simp only [Item.frames, List.foldl_cons, List.foldl_append, addressed,
        List.foldl_nil]
      all_goals
        generalize List.foldl (Frame.apply tickMode final) _ _ = s' at known' kept' pending' out' ⊢
        have applied : (data.frame a.core (if a.write then 0 else 2) (a.dataData data
            (between.foldl Event.send (sent.sendAddr a)))).apply tickMode final s' =
              { s'.counted with bases := s'.bases.withData a, pending := none }.append
                (a.row (s'.clock.now tickMode)) := by
          rw [Coding.apply_frame, decodeMessage_dtu even, Access.dataData,
            dtuMessage_data _ _ (by omega)]
          exact dataMessage_sent (s := s'.counted) known' syncedData pending'
        rw [applied]
      · exact known'.sendData a
      · exact kept'
      · exact waits.symm
      · rw [Item.rows, ← known'.clock.now, ← List.append_assoc]
        exact congrArg (· ++ [a.row (s'.clock.now tickMode)]) out'

/-- A paragraph, what is written into it, and the length field of the skip that
closes it. -/
structure Sheet where
  par : Paragraph
  items : List Item
  closing : Framing

namespace Sheet

def send (sent : Sent) (sheet : Sheet) : Sent := sheet.items.foldl Item.send sent

def rows (tickMode : Bool) (sent : Sent) (sheet : Sheet) : List Row :=
  emitted Item.send (Item.rows tickMode) sent sheet.items

/-- The paragraph holds what is sent. -/
structure Valid (sent : Sent) (sheet : Sheet) : Prop where
  items : Along Item.send (fun sent item => item.Valid sent) sent sheet.items
  holds : Holds sheet.par.bytes (emitted Item.send Item.frames sent sheet.items) sheet.closing

end Sheet

variable {settings : Settings} {d : Decoder settings} {sheet : Sheet}

theorem Decoder.measure_same (d : Decoder settings) (gap : Bool) (first : Option Int) :
    (d.measure gap first).clock = d.clock ∧ (d.measure gap first).bases = d.bases := by
  cases first with
  | none => exact ⟨rfl, rfl⟩
  | some first =>
      unfold Decoder.measure
      cases d.prevFirst with
      | none => exact ⟨rfl, rfl⟩
      | some previous =>
          dsimp only
          split_ifs <;> exact ⟨rfl, rfl⟩

/-- A paragraph without a gap before it gives the rows that were sent. -/
theorem Sheet.rows_sent
    (known : sent.KnownTo d.clock d.bases)
    (valid : sheet.Valid sent)
    (continuing : d.gapBefore sheet.par.bytes sheet.par.gap = false) :
    (d.rows sheet.par.bytes sheet.par.gap sheet.par.final).1 =
        sheet.rows settings.tickMode sent ∧
      (sheet.send sent).KnownTo
        (d.rows sheet.par.bytes sheet.par.gap sheet.par.final).2.clock
        (d.rows sheet.par.bytes sheet.par.gap sheet.par.final).2.bases := by
  obtain ⟨clock, bases⟩ := Decoder.entered_continuing continuing
  have start : sent.KnownTo (Scan.start d.clock d.bases).clock (Scan.start d.clock d.bases).bases :=
    known
  have carried : Carries settings.tickMode sheet.par.final (.start d.clock d.bases)
      (emitted Item.send Item.frames sent sheet.items) (sheet.rows settings.tickMode sent)
      (sheet.send sent) := by
    apply Carries.emitted none
    · intro s sent item known kept waits valid
      exact item.carries known kept waits valid
    · exact start
    · simp [Scan.start, Scan.Dropped, Scan.Flawed]
    · rfl
    · exact valid.items
  have scan := valid.holds.scan d sheet.par.gap sheet.par.final
  rw [clock, bases] at scan
  obtain ⟨known', kept, -, out⟩ := carried
  rw [← scan] at known' kept out
  rw [Decoder.rows_eq, if_neg kept, continuing]
  constructor
  · exact out
  · obtain ⟨sameClock, sameBases⟩ := Decoder.measure_same
      ((d.entered sheet.par.bytes sheet.par.gap).scanned
        (d.scanOf sheet.par.bytes sheet.par.gap sheet.par.final)) false
      (d.scanOf sheet.par.bytes sheet.par.gap sheet.par.final).first
    rw [sameClock, sameBases]
    exact known'

theorem Decoder.run_sent
    (sheets : List Sheet)
    (known : sent.KnownTo d.clock d.bases)
    (valid : Along Sheet.send (fun sent sheet => sheet.Valid sent) sent sheets)
    (gapless : d.Gapless (sheets.map Sheet.par)) :
    (d.run (sheets.map Sheet.par)).1 =
      emitted Sheet.send (fun sent sheet => [sheet.rows settings.tickMode sent]) sent sheets := by
  induction sheets generalizing d sent with
  | nil => rfl
  | cons sheet rest inductionHypothesis =>
      obtain ⟨rows, known⟩ := sheet.rows_sent known valid.1 gapless.1
      have others := inductionHypothesis known valid.2 gapless.2
      calc (d.run ((sheet :: rest).map Sheet.par)).1
          = (d.rows sheet.par.bytes sheet.par.gap sheet.par.final).1 ::
              ((d.rows sheet.par.bytes sheet.par.gap sheet.par.final).2.run
                (rest.map Sheet.par)).1 := rfl
        _ = _ := by rw [rows, others]; rfl

theorem Sent.nothing_knownTo (settings : Settings) :
    Sent.nothing.KnownTo (Decoder.new settings).clock (Decoder.new settings).bases where
  addr _ := .none _ _
  data _ := .none _ _
  wps := .none _ _
  wpm := .none _ _
  evcId := .none _ _
  evcCnt := .none _ _
  clock := ⟨rfl, rfl, Int.negSucc_lt_zero 0⟩

/-- A new decoder gives exactly the accesses and events that were sent, over any
number of paragraphs without a gap. -/
theorem messages_round_trip
    (settings : Settings)
    (sheets : List Sheet)
    (valid : Along Sheet.send (fun sent sheet => sheet.Valid sent) .nothing sheets)
    (gapless : (Decoder.new settings).Gapless (sheets.map Sheet.par)) :
    ((Decoder.new settings).run (sheets.map Sheet.par)).1 =
      emitted Sheet.send (fun sent sheet => [sheet.rows settings.tickMode sent]) .nothing
        sheets :=
  Decoder.run_sent sheets (Sent.nothing_knownTo settings) valid gapless

/-- The paragraph of `count` bytes into which the items are written. -/
def Sheet.written (count : Nat) (sent : Sent) (items : List Item) (closing : Framing) : Sheet where
  par :=
    { bytes := toBytes count (packBits (framesFields (emitted Item.send Item.frames sent items) ++
        (closing.head ++ [(5, coreSkip)])))
      gap := false
      final := true }
  items := items
  closing := closing

/-- A word written by CPU1, in DTU0, and a byte that is read, in DTU1. -/
def tracedAccess (write : Bool) : Access where
  core := if write then coreDtu0 else coreDtu1
  write := write
  addr := 0xD0001000
  pre := if write then some ⟨1, 2, 0, by decide, by decide, by decide, by decide⟩ else none
  dsize := if write then 2 else 0
  value := 0x5A
  core_eq := by cases write <;> decide
  addr_lt := by decide
  dsize_lt := by cases write <;> decide
  value_lt := by cases write <;> decide

/-- Messages of each kind. -/
def tracedItems (comp : Bool) (time : Nat) : List Item :=
  [.other (.tsr ⟨comp, .absize 40⟩ time), .other .tick, .other (.multick 0),
    .access ⟨comp, .absize 100⟩ 8 (tracedAccess true),
    .split ⟨comp, .absize 60⟩ ⟨comp, .symlength 4⟩
      [.wps ⟨comp, .symlength 2⟩ 3, .wpm ⟨comp, .symlength 3⟩ 0x81, .error coreDtu0 2]
      (tracedAccess false),
    .other (.evc ⟨comp, .symlength 6⟩ 1 5 17)]

/-- The time passes the end of the counter between two paragraphs, of which the
second is compressed. -/
theorem messages_round_trip_wrapped :
    let first := Sheet.written 64 .nothing (tracedItems false 0xFFFFFFF0) (.symlength 4)
    let second := Sheet.written 64 (first.send .nothing) (tracedItems true 0x100000020)
      (.absize 20)
    ((Decoder.new { wholeCycles with tickMode := true }).run [first.par, second.par]).1 =
      emitted Sheet.send (fun sent sheet => [sheet.rows true sent]) .nothing [first, second] := by
  intro first second
  apply messages_round_trip { wholeCycles with tickMode := true } [first, second]
  · refine ⟨⟨by decide, ?_⟩, ⟨by decide, ?_⟩, True.intro⟩
    · exact .written (by decide) (by decide) (by decide) (by decide)
    · exact .written (by decide) (by decide) (by decide) (by decide)
  · exact ⟨by decide, by decide +kernel, True.intro⟩

end Decode
end TriCoreDap
