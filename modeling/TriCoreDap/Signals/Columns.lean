import TriCoreDap.Decode.Discard
import TriCoreDap.Decode.Rising
import TriCoreDap.Signals.EventLog

/-!
# Rows and the columns of the event log

Of the fields of a row only two come from the trace as wide as they are there: the
id and the count of an EVC.  The others are cut to their width, and the time is the
decoder's.
-/

namespace TriCoreDap
namespace Signals

open Decode

/-- The id and the count of an EVC message. -/
def evcFields (data dbits : Nat) : Nat × Nat :=
  let n1 := if len1 (data % 16) > dbits - 4 then dbits - 4 else len1 (data % 16)
  ((data >>> 4) % 2 ^ n1, data >>> (4 + n1))

/-- What the columns ask of a message: when it makes a row the time is below 2^63, and
an EVC that is looked at has an id and a count of 31 bits. -/
def Storable (tickMode : Bool) (s : Scan) : RawMessage → Prop
  | .error _ _ _ => s.clock.now tickMode < 2 ^ 63
  | .msg _ core tt data dbits =>
      (core = coreDtu0 ∨ core = coreDtu1 ∨ core = coreWtu → s.clock.now tickMode < 2 ^ 63) ∧
        (core = coreWtu → tt = 4 ∨ tt = 5 ∧ s.bases.evcOk = true →
          (evcFields data dbits).1 < 2 ^ 31 ∧ (evcFields data dbits).2 < 2 ^ 31)
  | _ => True

/-- What the columns ask of the messages of a paragraph. -/
def AllStorable (tickMode final : Bool) : Scan → List RawMessage → Prop
  | _, [] => True
  | s, item :: rest =>
      Storable tickMode s item ∧ AllStorable tickMode final (process tickMode final s item) rest

instance decidableStorable (tickMode : Bool) (s : Scan) (item : RawMessage) :
    Decidable (Storable tickMode s item) := by
  cases item <;> unfold Storable <;> infer_instance

instance decidableAllStorable (tickMode final : Bool) (s : Scan) :
    (items : List RawMessage) → Decidable (AllStorable tickMode final s items)
  | [] => inferInstanceAs (Decidable True)
  | item :: rest =>
      have := decidableAllStorable tickMode final (process tickMode final s item) rest
      inferInstanceAs (Decidable (_ ∧ _))

variable {settings : Settings} {tickMode final comp : Bool} {core tt data dbits : Nat}
  {s : Scan} {item : RawMessage} {row : Row}

/-- What the columns ask of the paragraphs of a run; one that is found torn makes no
rows. -/
def StorableRun : Decoder settings → List Paragraph → Prop
  | _, [] => True
  | d, par :: rest =>
      (¬d.FindsTorn par → AllStorable settings.tickMode par.final
        (.start (d.entered par.bytes par.gap).clock (d.entered par.bytes par.gap).bases)
        (parseParagraph par.bytes)) ∧
      StorableRun (d.rows par.bytes par.gap par.final).2 rest

instance decidableStorableRun (d : Decoder settings) :
    (paragraphs : List Paragraph) → Decidable (StorableRun d paragraphs)
  | [] => inferInstanceAs (Decidable True)
  | par :: rest =>
      have := decidableStorableRun (d.rows par.bytes par.gap par.final).2 rest
      inferInstanceAs (Decidable ((_ → _) ∧ _))

/-- The rows so far go into the columns, and what is kept for the next ones does. -/
structure Sized (s : Scan) : Prop where
  rows : ∀ row ∈ s.out, InColumns row
  pending : ∀ access, s.pending = some access → Fits 64 access.1
  evcId_lt : s.bases.evcId < 2 ^ 31
  evcCnt_lt : s.bases.evcCnt < 2 ^ 31

/-! ## Fields -/

theorem fits_of_lt {v : Int} (low : -1 ≤ v) (high : v < 2 ^ (bits - 1)) : Fits bits v := by
  refine ⟨le_trans (neg_le_neg ?_) low, high⟩
  exact_mod_cast Nat.one_le_two_pow

theorem fits_none : Fits bits (-1) :=
  fits_of_lt (le_refl _) (lt_of_lt_of_le (by decide) (pow_nonneg (by decide) _))

theorem fits_nat {n : Nat} (small : n < 2 ^ (bits - 1)) : Fits bits (n : Int) := by
  refine fits_of_lt ?_ ?_
  · omega
  · exact_mod_cast small

theorem fits_now (timely : s.clock.now tickMode < 2 ^ 63) : Fits 64 (s.clock.now tickMode) := by
  refine fits_of_lt ?_ timely
  unfold Clock.now
  split_ifs <;> omega

theorem fits_dmask (dsize value : Nat) : Fits 64 (dmask dsize value : Nat) := by
  have bound : 2 ^ (8 * dsizeBytes dsize) ≤ 2 ^ 32 := by
    apply Nat.pow_le_pow_right (by decide)
    unfold dsizeBytes
    split <;> decide
  have below : dmask dsize value < 2 ^ (8 * dsizeBytes dsize) := Nat.mod_lt _ (by positivity)
  apply fits_nat
  omega

theorem fits_address (full : Nat) : Fits 64 (addressOf full : Nat) := by
  have below : addressOf full < 2 ^ 32 := Nat.mod_lt _ (by decide)
  apply fits_nat
  omega

theorem dsizeBytes_lt (dsize : Nat) : dsizeBytes dsize < 256 := by
  unfold dsizeBytes
  split <;> decide

/-! ## Messages -/

theorem Sized.append (sized : Sized s) (fits : InColumns row) : Sized (s.append row) := by
  refine { sized with rows := fun other member => ?_ }
  rcases List.mem_append.mp member with earlier | newest
  · exact sized.rows other earlier
  · rw [List.mem_singleton.mp newest]
    exact fits

/-- Other engines and other counts. -/
theorem Sized.of_same
    {s' : Scan}
    (sized : Sized s)
    (out : s'.out = s.out)
    (pending : s'.pending = s.pending)
    (evcId : s'.bases.evcId = s.bases.evcId)
    (evcCnt : s'.bases.evcCnt = s.bases.evcCnt) : Sized s' := by
  refine ⟨?_, ?_, ?_, ?_⟩
  · rw [out]
    exact sized.rows
  · rw [pending]
    exact sized.pending
  · rw [evcId]
    exact sized.evcId_lt
  · rw [evcCnt]
    exact sized.evcCnt_lt

/-- A row of a DTU. -/
theorem Sized.accessed
    {kind : Kind}
    {addr value master : Int}
    {core : String}
    (sized : Sized s)
    (timely : s.clock.now tickMode < 2 ^ 63)
    (addr_fits : Fits 64 addr)
    (value_fits : Fits 64 value)
    (size_lt : size < 256) :
    Sized (s.append ⟨s.clock.now tickMode, kind, addr, value, size, -1, -1, core, master⟩) :=
  sized.append ⟨fits_now timely, addr_fits, value_fits, size_lt, fits_none, fits_none⟩

theorem Sized.dataMessage
    (sized : Sized s)
    (timely : s.clock.now tickMode < 2 ^ 63)
    (kind : Kind) (dsize field : Nat) :
    Sized (dataMessage tickMode s core comp kind dsize field) := by
  have address : Fits 64 (s.pending.getD (-1, -1)).1 := by
    cases waiting : s.pending with
    | none => exact fits_none
    | some access => exact sized.pending access waiting
  unfold Decode.dataMessage
  dsimp only
  split
  · exact sized.of_same rfl rfl rfl rfl
  · refine Sized.accessed ?_ timely address (fits_dmask _ _) (dsizeBytes_lt _)
    exact ⟨sized.rows, nofun, sized.evcId_lt, sized.evcCnt_lt⟩

theorem Sized.addressMessage
    (sized : Sized s)
    (timely : s.clock.now tickMode < 2 ^ 63)
    (sub : Nat) : Sized (addressMessage tickMode s core comp sub data) := by
  unfold Decode.addressMessage
  dsimp only
  split
  · exact sized.of_same rfl rfl rfl rfl
  split
  · refine ⟨sized.rows, fun access waiting => ?_, sized.evcId_lt, sized.evcCnt_lt⟩
    rw [← Option.some.inj waiting]
    exact fits_address _
  · refine Sized.accessed ?_ timely (fits_address _) fits_none (by decide)
    exact sized.of_same rfl rfl rfl rfl

theorem Sized.access
    (sized : Sized s)
    (timely : s.clock.now tickMode < 2 ^ 63) :
    Sized (access tickMode s core comp tt data dbits) := by
  unfold Decode.access
  dsimp only
  split
  · exact sized.of_same rfl rfl rfl rfl
  split
  · exact sized.of_same rfl rfl rfl rfl
  split
  · exact sized.of_same rfl rfl rfl rfl
  · refine Sized.accessed ?_ timely (fits_address _) (fits_dmask _ _) (dsizeBytes_lt _)
    exact sized.of_same rfl rfl rfl rfl

theorem Sized.dtuMessage
    (sized : Sized s)
    (timely : s.clock.now tickMode < 2 ^ 63) :
    Sized (dtuMessage tickMode s core comp tt data dbits) := by
  have bad : Sized (s.bad core tt dbits) := sized.of_same rfl rfl rfl rfl
  unfold Decode.dtuMessage dtwd dtrd
  split
  · split
    · exact bad
    · exact sized.dataMessage timely ..
  split
  · split
    · exact bad
    split
    · split
      · exact bad
      · exact sized.dataMessage timely ..
    · exact sized.addressMessage timely _
  · exact sized.access timely

/-- A row of the WTU. -/
theorem Sized.watch
    {kind : Kind}
    {wp count : Int}
    (sized : Sized s)
    (timely : s.clock.now tickMode < 2 ^ 63)
    (wp_fits : Fits 32 wp)
    (count_fits : Fits 32 count) : Sized (s.watch tickMode kind wp count) :=
  sized.append ⟨fits_now timely, fits_none, fits_none, Nat.zero_lt_succ _, wp_fits, count_fits⟩

/-- Against a base of 31 bits, a field has 31 bits if it has them in the message. -/
theorem uncompressed_lt
    {field base : Nat}
    (field_lt : field < 2 ^ 31)
    (base_lt : base < 2 ^ 31)
    (comp : Bool) : (if comp then field ^^^ base else field) < 2 ^ 31 := by
  split
  · exact Nat.xor_lt_two_pow field_lt base_lt
  · exact field_lt

theorem Sized.evcMessage
    (sized : Sized s)
    (timely : s.clock.now tickMode < 2 ^ 63)
    (short : (comp = true → s.bases.evcOk = true) →
      (evcFields data dbits).1 < 2 ^ 31 ∧ (evcFields data dbits).2 < 2 ^ 31) :
    Sized (evcMessage tickMode s comp tt data dbits) := by
  unfold Decode.evcMessage
  split
  · exact sized.of_same rfl rfl rfl rfl
  dsimp only
  split
  · exact sized.of_same rfl rfl rfl rfl
  · next known =>
    obtain ⟨cid_lt, cnt_lt⟩ := short fun isComp =>
      Bool.not_eq_false _ ▸ fun unknown => known ⟨isComp, by simp [unknown]⟩
    unfold evcFields at cid_lt cnt_lt
    dsimp only at cid_lt cnt_lt
    have cid_lt := uncompressed_lt cid_lt sized.evcId_lt comp
    have cnt_lt := uncompressed_lt cnt_lt sized.evcCnt_lt comp
    exact Sized.watch ⟨sized.rows, sized.pending, cid_lt, cnt_lt⟩ timely (fits_nat cid_lt)
      (fits_nat cnt_lt)

theorem Sized.wtuMessage
    (sized : Sized s)
    (timely : s.clock.now tickMode < 2 ^ 63)
    (short : tt = 4 ∨ tt = 5 ∧ s.bases.evcOk = true →
      (evcFields data dbits).1 < 2 ^ 31 ∧ (evcFields data dbits).2 < 2 ^ 31) :
    Sized (wtuMessage tickMode s (decide (tt % 2 = 1)) tt data dbits) := by
  unfold Decode.wtuMessage wpsMessage wpmMessage
  dsimp only
  split
  · split
    · exact sized.of_same rfl rfl rfl rfl
    · refine Sized.watch (sized.of_same rfl rfl rfl rfl) timely (fits_nat ?_) fits_none
      exact lt_of_lt_of_le (Nat.mod_lt _ (by decide)) (by decide : 8 ≤ 2 ^ (32 - 1))
  split
  · split
    · exact sized.of_same rfl rfl rfl rfl
    · refine Sized.watch (sized.of_same rfl rfl rfl rfl) timely (fits_nat ?_) fits_none
      exact lt_of_lt_of_le (Nat.mod_lt _ (by decide)) (by decide : 256 ≤ 2 ^ (32 - 1))
  split
  · refine sized.evcMessage timely fun synced => short ?_
    rcases (by omega : tt = 4 ∨ tt = 5) with rfl | rfl
    · exact Or.inl rfl
    · exact Or.inr ⟨rfl, synced rfl⟩
  · exact sized.of_same rfl rfl rfl rfl

theorem Sized.tsuMessage (sized : Sized s) : Sized (tsuMessage s comp tt data) := by
  unfold Decode.tsuMessage tsrMessage tsaMessage
  dsimp only
  split
  · split
    · exact sized.of_same rfl rfl rfl rfl
    split
    · exact sized.of_same rfl rfl rfl rfl
    · exact sized.of_same rfl rfl rfl rfl
  split
  · split
    · exact sized.of_same rfl rfl rfl rfl
    · exact sized.of_same rfl rfl rfl rfl
  · exact sized.of_same rfl rfl rfl rfl

/-- The count of an error message has seven bits. -/
def Counted : RawMessage → Prop
  | .error _ _ errCnt => errCnt < 2 ^ 7
  | _ => True

/-- A message of the paragraph. -/
theorem Sized.process
    (sized : Sized s)
    (counted : Counted item)
    (storable : Storable tickMode s item) : Sized (process tickMode final s item) := by
  cases item with
  | error bit core errCnt =>
      have errCnt_lt : errCnt < 2 ^ 7 := counted
      refine Sized.append (sized.of_same rfl rfl rfl rfl) ?_
      exact ⟨fits_now storable, fits_none, fits_none, Nat.zero_lt_succ _, fits_none,
        fits_nat (lt_of_lt_of_le errCnt_lt (by decide))⟩
  | msg bit core tt data dbits =>
      obtain ⟨timely, short⟩ := storable
      have later : Sized s.counted := sized.of_same rfl rfl rfl rfl
      simp only [Decode.process, decodeMessage]
      split_ifs with dtu tsu wtu
      · exact later.dtuMessage (timely (dtu.imp_right Or.inl))
      · exact later.tsuMessage
      · exact later.wtuMessage (timely (Or.inr (Or.inr wtu))) (short wtu)
      · exact later.of_same rfl rfl rfl rfl
  | _ => exact sized.of_same rfl rfl rfl rfl

theorem Sized.foldl
    {items : List RawMessage}
    (sized : Sized s)
    (counted : ∀ item ∈ items, Counted item)
    (storable : AllStorable tickMode final s items) :
    Sized (items.foldl (Decode.process tickMode final) s) := by
  induction items generalizing s with
  | nil => exact sized
  | cons item rest inductionHypothesis =>
      exact inductionHypothesis (sized.process (counted item List.mem_cons_self) storable.1)
        (fun later member => counted later (List.mem_cons_of_mem _ member)) storable.2

/-! ## Paragraphs -/

theorem counted_parseQuit
    (quit : parseStep big stop pos = .quit last)
    (member : item ∈ last) : Counted item := by
  have body (start length : Nat) (quits : parseBody big stop pos start length = .quit last) :
      Counted item := by
    unfold parseBody at quits
    grind [Counted]
  unfold parseStep at quit
  grind [Counted]

theorem counted_parseNext
    (next : parseStep big stop pos = .next yielded pos')
    (member : item ∈ yielded) : Counted item := by
  have body (start length : Nat) (goes : parseBody big stop pos start length = .next yielded pos') :
      Counted item := by
    unfold parseBody at goes
    grind [Counted]
  have count := bitsAt_lt big (pos + 9) 7
  unfold parseStep at next
  grind [Counted]

/-- The messages that a paragraph is split into. -/
theorem counted_parseLoop (big stop fuel pos : Nat) :
    ∀ item ∈ (parseLoop big stop fuel pos).1, Counted item := by
  induction fuel generalizing pos with
  | zero => exact fun _ member => absurd member List.not_mem_nil
  | succ fuel inductionHypothesis =>
      rw [parseLoop]
      split
      · exact fun _ member => absurd member List.not_mem_nil
      cases round : parseStep big stop pos with
      | quit last => exact fun item member => counted_parseQuit round member
      | next yielded pos' =>
          intro item member
          rcases List.mem_append.mp member with here | there
          · exact counted_parseNext round here
          · exact inductionHypothesis pos' item there

/-- What an EVC is compressed against has 31 bits. -/
def Bounded (bases : Bases) : Prop := bases.evcId < 2 ^ 31 ∧ bases.evcCnt < 2 ^ 31

theorem bounded_unknown : Bounded .unknown := ⟨Nat.two_pow_pos 31, Nat.two_pow_pos 31⟩

variable {d : Decoder settings} {par : Paragraph}

theorem inColumns_gapRow : InColumns gapRow := by decide

theorem inColumns_gapRows (gap : Bool) : ∀ row ∈ gapRows gap, InColumns row := by
  intro row member
  cases gap with
  | false => exact absurd member List.not_mem_nil
  | true =>
      rw [List.mem_singleton.mp member]
      exact inColumns_gapRow

theorem Decoder.measure_bases (d : Decoder settings) (gap : Bool) (first : Option Int) :
    (d.measure gap first).bases = d.bases := by
  unfold Decoder.measure
  cases first with
  | none => rfl
  | some first =>
      cases d.prevFirst with
      | none => rfl
      | some previous =>
          dsimp only
          split_ifs <;> rfl

/-- The rows of a paragraph go into the columns, and what the decoder keeps does. -/
theorem rows_inColumns
    (bounded : Bounded d.bases)
    (storable : ¬d.FindsTorn par → AllStorable settings.tickMode par.final
      (.start (d.entered par.bytes par.gap).clock (d.entered par.bytes par.gap).bases)
      (parseParagraph par.bytes)) :
    (∀ row ∈ (d.rows par.bytes par.gap par.final).1, InColumns row) ∧
      Bounded (d.rows par.bytes par.gap par.final).2.bases := by
  have entered : Bounded (d.entered par.bytes par.gap).bases := by
    cases before : d.gapBefore par.bytes par.gap with
    | true =>
        rw [(Decoder.entered_gap before).2]
        exact bounded_unknown
    | false =>
        rw [(Decoder.entered_continuing before).2]
        exact bounded
  rw [Decoder.rows_eq]
  by_cases torn : (d.scanOf par.bytes par.gap par.final).Dropped
  · rw [if_pos torn]
    refine ⟨fun row member => ?_, bounded_unknown⟩
    rcases List.mem_append.mp member with before | last
    · exact inColumns_gapRows _ row before
    · rw [List.mem_singleton.mp last]
      exact inColumns_gapRow
  · rw [if_neg torn]
    have start : Sized (.start (d.entered par.bytes par.gap).clock
        (d.entered par.bytes par.gap).bases) := ⟨nofun, nofun, entered.1, entered.2⟩
    have scanned : Sized (d.scanOf par.bytes par.gap par.final) :=
      start.foldl (fun _ => counted_parseLoop _ _ _ _ _) (storable fun found => torn ((d.findsTorn_iff par).mp found))
    refine ⟨fun row member => ?_, ?_⟩
    · rcases List.mem_append.mp member with before | events
      · exact inColumns_gapRows _ row before
      · exact scanned.rows row events
    · rw [Decoder.measure_bases]
      exact ⟨scanned.evcId_lt, scanned.evcCnt_lt⟩

theorem run_inColumns
    {paragraphs : List Paragraph}
    (bounded : Bounded d.bases)
    (storable : StorableRun d paragraphs) :
    ∀ row ∈ (d.run paragraphs).1.flatten, InColumns row := by
  induction paragraphs generalizing d with
  | nil => exact nofun
  | cons par rest inductionHypothesis =>
      obtain ⟨here, later⟩ := rows_inColumns bounded storable.1
      have split : (d.run (par :: rest)).1.flatten = (d.rows par.bytes par.gap par.final).1 ++
          ((d.rows par.bytes par.gap par.final).2.run rest).1.flatten := rfl
      rw [split]
      intro row member
      rcases List.mem_append.mp member with first | others
      · exact here row first
      · exact inductionHypothesis later storable.2 row others

/-! ## The log -/

namespace EventLog

variable {log : EventLog} {rows : List Row} {batches : List (List Row)}

theorem pending_dropChunks (chunks : List (List Row)) :
    (log.dropChunks chunks).pending = log.pending := by
  induction chunks generalizing log with
  | nil => rfl
  | cons chunk rest inductionHypothesis =>
      cases rest with
      | nil => rfl
      | cons next rest =>
          rw [dropChunks]
          split
          · exact inductionHypothesis
          · rfl

/-- A flush of rows that go into the columns leaves nothing pending. -/
theorem flush_of_inColumns (fits : ∀ row ∈ log.pending, InColumns row) :
    ∃ flushed, log.flush = some flushed ∧ flushed.pending = [] := by
  unfold flush
  by_cases idle : log.pending = []
  · exact ⟨log, if_pos idle, idle⟩
  · rw [if_neg idle, if_pos fits]
    refine ⟨_, rfl, ?_⟩
    dsimp only
    split
    · exact pending_dropChunks _
    · rfl

theorem addRows_of_inColumns
    (fits : ∀ row ∈ log.pending, InColumns row)
    (added : ∀ row ∈ rows, InColumns row) :
    ∃ filled, log.addRows rows = some filled ∧ ∀ row ∈ filled.pending, InColumns row := by
  have both : ∀ row ∈ log.pending ++ rows, InColumns row := by
    intro row member
    exact (List.mem_append.mp member).elim (fits row) (added row)
  unfold addRows
  dsimp only
  split
  · obtain ⟨flushed, done, idle⟩ : ∃ flushed,
        flush { log with pending := log.pending ++ rows, n := log.n + rows.length } =
          some flushed ∧ flushed.pending = [] := flush_of_inColumns both
    refine ⟨flushed, done, ?_⟩
    rw [idle]
    exact nofun
  · exact ⟨_, rfl, both⟩

theorem foldlM_of_inColumns
    (fits : ∀ row ∈ log.pending, InColumns row)
    (added : ∀ row ∈ batches.flatten, InColumns row) :
    ∃ filled, batches.foldlM addRows log = some filled ∧
      ∀ row ∈ filled.pending, InColumns row := by
  induction batches generalizing log with
  | nil => exact ⟨log, rfl, fits⟩
  | cons rows rest inductionHypothesis =>
      rw [List.flatten_cons] at added
      obtain ⟨filled, done, pending⟩ := addRows_of_inColumns fits fun row member =>
        added row (List.mem_append_left _ member)
      rw [List.foldlM_cons, done]
      exact inductionHypothesis pending fun row member =>
        added row (List.mem_append_right _ member)

end EventLog

/-- Over any run of paragraphs whose messages are storable, every row goes into the
columns of the event log, and however the rows are added to a log, neither that nor
a flush afterwards raises. -/
theorem log_never_raises
    {paragraphs : List Paragraph}
    (storable : StorableRun (Decoder.new settings) paragraphs) :
    (∀ row ∈ ((Decoder.new settings).run paragraphs).1.flatten, InColumns row) ∧
      ∀ (limit : Nat) (batches : List (List Row)),
        batches.flatten = ((Decoder.new settings).run paragraphs).1.flatten →
        ∃ log flushed, batches.foldlM EventLog.addRows (EventLog.empty limit) = some log ∧
          log.flush = some flushed := by
  have fits := run_inColumns bounded_unknown storable
  refine ⟨fits, fun limit batches same => ?_⟩
  have nothing : ∀ row ∈ (EventLog.empty limit).pending, InColumns row := nofun
  obtain ⟨log, filled, pending⟩ := EventLog.foldlM_of_inColumns nothing (same ▸ fits)
  obtain ⟨flushed, done, -⟩ := EventLog.flush_of_inColumns pending
  exact ⟨log, flushed, filled, done⟩

/-- A paragraph with an EVC of the given count, and ticks. -/
def evcParagraph (count : Nat) : Paragraph where
  bytes := (List.range 1024).map (byteOf (0x8F8 + count <<< 16))
  gap := true
  final := true

theorem log_never_raises_evc :
    (∀ row ∈ ((Decoder.new wholeCycles).run [evcParagraph 5]).1.flatten, InColumns row) ∧
      ∀ (limit : Nat) (batches : List (List Row)),
        batches.flatten = ((Decoder.new wholeCycles).run [evcParagraph 5]).1.flatten →
          ∃ log flushed, batches.foldlM EventLog.addRows (EventLog.empty limit) = some log ∧
            log.flush = some flushed :=
  log_never_raises (by decide +kernel)

/-- An EVC with a count of 2^31 in a valid paragraph makes a row that the log cannot
store. -/
theorem log_raises :
    (∃ row ∈ ((Decoder.new wholeCycles).run [evcParagraph (2 ^ 31)]).1.flatten,
        row.kind = .evc ∧ row.count = 2 ^ 31 ∧ ¬InColumns row) ∧
      (((EventLog.empty 0).addRows
        ((Decoder.new wholeCycles).run [evcParagraph (2 ^ 31)]).1.flatten).bind
          EventLog.flush).isNone = true := by
  decide +kernel

end Signals
end TriCoreDap
