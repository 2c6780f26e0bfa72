import TriCoreDap.Decode.Effects

/-!
# Decoding a paragraph

`Decoder.rows` in terms of the messages of the paragraph: what the decoder
enters it with, when the paragraph is dropped, and that gap rows come from
`rows` alone.
-/

namespace TriCoreDap
namespace Decode

/-- The paragraph is dropped after the scan. -/
def Scan.Dropped (s : Scan) : Prop := s.suspect = true ∨ s.Flawed

instance (s : Scan) : Decidable s.Dropped :=
  inferInstanceAs (Decidable (_ ∨ _ ∨ _))

variable {tickMode final gap : Bool} {s : Scan} {settings : Settings}
  {d : Decoder settings} {par : List Byte}

theorem Decoder.tears_iff (d : Decoder settings) (s : Scan) :
    d.tears s = true ↔ s.Dropped := by
  simp [Decoder.tears, Decoder.scanned, Counts.add, Scan.Dropped, Scan.Flawed, or_assoc]

/-- Whether there is a gap before the paragraph. -/
def Decoder.gapBefore (d : Decoder settings) (par : List Byte) (gap : Bool) : Bool :=
  (d.enter par gap).1

/-- There is no gap before any of the paragraphs, neither flagged nor detected. -/
def Decoder.Gapless (d : Decoder settings) : List Paragraph → Prop
  | [] => True
  | par :: rest =>
      d.gapBefore par.bytes par.gap = false ∧
        (d.rows par.bytes par.gap par.final).2.Gapless rest

/-- The decoder that scans the paragraph. -/
def Decoder.entered (d : Decoder settings) (par : List Byte) (gap : Bool) : Decoder settings :=
  (d.enter par gap).2

/-- The scan of the paragraph by its messages. -/
def Decoder.scanOf (d : Decoder settings) (par : List Byte) (gap final : Bool) : Scan :=
  (parseParagraph par).foldl (process settings.tickMode final)
    (.start (d.entered par gap).clock (d.entered par gap).bases)

/-- The rows that come before those of the messages. -/
def gapRows (gap : Bool) : List Row := if gap then [gapRow] else []

theorem Decoder.rows_eq (d : Decoder settings) (par : List Byte) (gap final : Bool) :
    d.rows par gap final =
      if (d.scanOf par gap final).Dropped then
        (gapRows (d.gapBefore par gap) ++ [gapRow],
          (d.entered par gap).rewind (d.scanOf par gap final))
      else
        (gapRows (d.gapBefore par gap) ++ (d.scanOf par gap final).out,
          ((d.entered par gap).scanned (d.scanOf par gap final)).measure (d.gapBefore par gap)
            (d.scanOf par gap final).first) := by
  simp only [Decoder.rows, scan_eq_foldl, Decoder.tears_iff]
  rfl

theorem Decoder.gapBefore_true (d : Decoder settings) (par : List Byte) :
    d.gapBefore par true = true := by
  simp [Decoder.gapBefore, Decoder.enter]

/-- With a gap, everything but the last TSR and its epoch is forgotten. -/
theorem Decoder.entered_gap (before : d.gapBefore par gap = true) :
    (d.entered par gap).clock = d.clock.reset ∧ (d.entered par gap).bases = .unknown := by
  have before : (gap || (!gap && d.lapped (fromBytes par) (8 * par.length))) = true := before
  simp only [Decoder.entered, Decoder.enter, before, if_true]
  split_ifs
  · exact ⟨rfl, rfl⟩
  · exact ⟨rfl, rfl⟩

/-- Without one, the decoder is as it was. -/
theorem Decoder.entered_continuing (before : d.gapBefore par gap = false) :
    (d.entered par gap).clock = d.clock ∧ (d.entered par gap).bases = d.bases := by
  have before : (gap || (!gap && d.lapped (fromBytes par) (8 * par.length))) = false := before
  simp only [Decoder.entered, Decoder.enter, before, Bool.false_eq_true, if_false]
  split_ifs
  · exact ⟨rfl, rfl⟩
  · exact ⟨rfl, rfl⟩

/-- What the time of the paragraphs is measured with is kept. -/
theorem Decoder.entered_measures (d : Decoder settings) (par : List Byte) (gap : Bool) :
    (d.entered par gap).prevFirst = d.prevFirst ∧ (d.entered par gap).interval = d.interval ∧
      (d.entered par gap).intervals = d.intervals := by
  simp only [Decoder.entered, Decoder.enter]
  split_ifs <;> exact ⟨rfl, rfl, rfl⟩

/-! ## Rows of messages -/

/-- A scan never adds a gap row. -/
theorem process_rows
    (events : ∀ row ∈ s.out, row.kind ≠ .gap)
    (item : RawMessage) :
    ∀ row ∈ (process tickMode final s item).out, row.kind ≠ .gap := by
  have extended {s' : Scan} (ext : s.Extends s') : ∀ row ∈ s'.out, row.kind ≠ .gap := by
    obtain ⟨rows, out, more⟩ := ext.rows
    rw [out]
    intro row member
    exact (List.mem_append.mp member).elim (events row) (more row)
  cases item with
  | error bit core errCnt =>
      apply extended
      apply Scan.Extends.append
      · exact Scan.extends_of_same rfl rfl rfl rfl
      · simp
  | msg bit core tt data dbits =>
      by_cases tsr : core = coreTsu ∧ tt ≤ 1
      · rw [process, decodeMessage_tsr tsr]
        have out : (tsrMessage s.counted (decide (tt % 2 = 1)) data).out = s.out := by
          simp only [tsrMessage, apply_ite Scan.out]
          split_ifs <;> rfl
        rw [out]
        exact events
      · exact extended (decodeMessage_extends tsr)
  | _ => exact events

theorem foldl_rows
    (events : ∀ row ∈ s.out, row.kind ≠ .gap)
    (items : List RawMessage) :
    ∀ row ∈ (items.foldl (process tickMode final) s).out, row.kind ≠ .gap := by
  induction items generalizing s with
  | nil => exact events
  | cons item rest inductionHypothesis => exact inductionHypothesis (process_rows events item)

theorem Decoder.scanOf_rows (d : Decoder settings) (par : List Byte) (gap final : Bool) :
    ∀ row ∈ (d.scanOf par gap final).out, row.kind ≠ .gap :=
  foldl_rows (fun _ member => absurd member List.not_mem_nil) _

end Decode
end TriCoreDap
