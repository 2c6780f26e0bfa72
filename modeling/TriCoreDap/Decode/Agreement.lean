import TriCoreDap.Decode.Decoder
import Mathlib.Tactic.IntervalCases

/-!
# The inlined framing

`_scan` and `_lapped` frame the messages themselves, with a table of lengths and
a 128-bit window; round by round they do with each message what
`parse_paragraph` would have them do.
-/

namespace TriCoreDap
namespace Decode

/-- What a scan does with a raw message. -/
def process (tickMode final : Bool) (s : Scan) : RawMessage → Scan
  | .tick _ => { s with clock := { s.clock with ticks := s.clock.ticks + 1 } }
  | .multick _ ticks => { s with clock := { s.clock with ticks := s.clock.ticks + ticks } }
  | .error _ core errCnt =>
      { s with counts := { s.counts with
          errors := s.counts.errors + 1
          lost := s.counts.lost + errCnt } }.append
        ⟨s.clock.now tickMode, .lost, -1, -1, 0, -1, errCnt, coreName core, -1⟩
  | .skip _ _ => s
  | .endOfTrace _ => { s with suspect := s.suspect || !final }
  | .damaged _ => { s with suspect := true }
  | .msg _ core tt data dbits => decodeMessage tickMode s core tt data dbits

/-- The time stamp of an absolute TSR. -/
def RawMessage.absoluteTsr : RawMessage → Option Nat
  | .msg _ core tt data _ => if core = coreTsu ∧ tt = 0 then some data else none
  | _ => none

variable {tickMode final : Bool} {big stop pos start length hdr k : Nat} {s : Scan}

/-- Every code but the four of its own has a length. -/
theorem symlenBits_spec
    (codeLt : code < 16)
    (tick : code ≠ codeTick)
    (multick : code ≠ codeMultick)
    (error : code ≠ codeError)
    (absize : code ≠ codeAbsize) :
    ∃ length, symlenBits code = some length ∧ 8 ≤ length ∧ length ≤ 112 := by
  simp only [codeTick, codeMultick, codeError, codeAbsize] at *
  interval_cases code <;> simp_all [symlenBits]

theorem window_code (big pos : Nat) : bitsAt big pos 128 % 16 = bitsAt big pos 4 := by
  have inside : 4 ≤ 128 := by decide
  exact bitsAt_mod inside

theorem window_field (big pos shift size : Nat) (inside : shift + size ≤ 128) :
    (bitsAt big pos 128 >>> shift) % 2 ^ size = bitsAt big (pos + shift) size := by
  rw [shiftRight_bitsAt (by omega), bitsAt_mod (by omega)]

/-- The fields of a body are those of the paragraph. -/
theorem body_fields (big start : Nat) (long : ¬length < 8) :
    bitsAt big start length % 32 = bitsAt big start 5 ∧
      (bitsAt big start length >>> 5) % 8 = bitsAt big (start + 5) 3 ∧
        bitsAt big start length >>> 8 = bitsAt big (start + 8) (length - 8) := by
  have coreInside : 5 ≤ length := by omega
  have typeInside : 3 ≤ length - 5 := by omega
  refine ⟨bitsAt_mod coreInside, ?_, shiftRight_bitsAt (by omega)⟩
  rw [shiftRight_bitsAt coreInside]
  exact bitsAt_mod typeInside

/-- The round of a scan that a round of the parser stands for. -/
def ParseStep.scanned (tickMode final : Bool) (s : Scan) : ParseStep → Round Scan
  | .quit last => .quit (last.foldl (process tickMode final) s)
  | .next yielded pos => .next (yielded.foldl (process tickMode final) s) pos

theorem scanBody_eq
    (w : Nat)
    (body : (if hdr = 4 then bitsAt w 4 length else bitsAt big (pos + 12) length) =
      bitsAt big (pos + hdr) length) :
    scanBody tickMode big stop pos s w hdr length =
      (parseBody big stop pos (pos + hdr) length).scanned tickMode final s := by
  unfold scanBody parseBody
  simp only [body, Nat.sub_sub, Nat.add_assoc]
  by_cases cut : length > stop - (pos + hdr)
  · by_cases far : stop - (pos + hdr) > 32
    · simp [cut, far, ParseStep.scanned, process]
    · simp [cut, far, ParseStep.scanned]
  · by_cases short : length < 8
    · simp [cut, short, ParseStep.scanned]
    · obtain ⟨core, tt, data⟩ := body_fields big (pos + hdr) short
      simp only [if_neg cut, if_neg short, core, tt, data, Nat.add_assoc]
      by_cases skip : bitsAt big (pos + hdr) 5 = coreSkip
      · simp [skip, ParseStep.scanned, process]
      · simp [skip, ParseStep.scanned, process]

theorem short_iff (stop pos : Nat) (positive : 0 < size) :
    stop - pos < size + 4 ↔ stop - (pos + 4) < size := by
  omega

/-- A round of `_scan` processes what a round of the parser yields. -/
theorem scanStep_eq (tickMode final : Bool) (big stop pos : Nat) (s : Scan) :
    scanStep tickMode final big stop pos s =
      (parseStep big stop pos).scanned tickMode final s := by
  have codeLt : bitsAt big pos 4 < 16 := bitsAt_lt _ _ _
  have count : (bitsAt big pos 128 >>> 4) % 256 = bitsAt big (pos + 4) 8 :=
    window_field big pos 4 8 (by decide)
  have errorCore : (bitsAt big pos 128 >>> 4) % 32 = bitsAt big (pos + 4) 5 :=
    window_field big pos 4 5 (by decide)
  have errorCount : (bitsAt big pos 128 >>> 9) % 128 = bitsAt big (pos + 9) 7 :=
    window_field big pos 9 7 (by decide)
  unfold scanStep parseStep
  simp only [window_code, count, errorCore, errorCount, short_iff stop pos (show 0 < 8 by decide),
    short_iff stop pos (show 0 < 12 by decide)]
  split_ifs with tick multick short filler error short absize short ends
  · rfl
  · rfl
  · rfl
  · simp [ParseStep.scanned, not_not.mp filler]
  · rfl
  · rfl
  · rfl
  · simp [ParseStep.scanned, process]
  · exact scanBody_eq _ (by simp)
  · obtain ⟨length, known, long, -⟩ := symlenBits_spec codeLt tick multick error absize
    simp only [symlen, known, Option.getD_some] at *
    omega
  · obtain ⟨length, known, -, bounded⟩ := symlenBits_spec codeLt tick multick error absize
    have inWindow : 4 + length ≤ 128 := by omega
    simp only [symlen, known, Option.getD_some]
    apply scanBody_eq
    rw [if_pos rfl, bitsAt_bitsAt inWindow]

/-- The scan of a paragraph processes the messages of `parse_paragraph` and ends
at the same length field. -/
theorem scanLoop_eq
    (tickMode final : Bool)
    (big stop fuel pos : Nat)
    (s : Scan) :
    scanLoop tickMode final big stop fuel pos s =
      ((parseLoop big stop fuel pos).1.foldl (process tickMode final) s,
        (parseLoop big stop fuel pos).2) := by
  induction fuel generalizing pos s with
  | zero => rfl
  | succ fuel inductionHypothesis =>
      rw [scanLoop, parseLoop, scanStep_eq]
      split_ifs with short
      · rfl
      · cases parseStep big stop pos with
        | quit last => rfl
        | next yielded pos' =>
            simp only [ParseStep.scanned, inductionHypothesis, List.foldl_append]

/-! ## The test for a lap -/

/-- The first absolute TSR. -/
def firstStamp (items : List RawMessage) : Option Nat :=
  items.findSome? RawMessage.absoluteTsr

/-- The round of `_lapped` that a round of the parser stands for. -/
def ParseStep.lapped (k : Nat) : ParseStep → LapRound
  | .quit _ => .answer none
  | .next [] pos => .next k pos
  | .next (item :: _) pos =>
      match item.absoluteTsr with
      | some stamp => .answer (some stamp)
      | none => lappedCount k pos

theorem lappedBody_eq :
    lappedBody big stop pos k hdr length =
      (parseBody big stop pos (pos + hdr) length).lapped k := by
  unfold lappedBody parseBody
  simp only [Nat.sub_sub, ← Nat.add_assoc]
  by_cases cut : length > stop - (pos + hdr)
  · by_cases far : stop - (pos + hdr) > 32
    · simp [cut, far, ParseStep.lapped]
    · simp [cut, far, ParseStep.lapped]
  · by_cases short : length < 8
    · simp [cut, short, ParseStep.lapped]
    · obtain ⟨core, tt, data⟩ := body_fields big (pos + hdr) short
      simp only [if_neg cut, if_neg short, core, tt, data]
      by_cases skip : bitsAt big (pos + hdr) 5 = coreSkip
      · simp [skip, ParseStep.lapped]
      · simp only [if_neg skip, ParseStep.lapped, RawMessage.absoluteTsr]
        split_ifs with absolute
        · rfl
        · rfl

theorem lappedStep_eq (big stop pos k : Nat) :
    lappedStep big stop pos k = (parseStep big stop pos).lapped k := by
  have codeLt : bitsAt big pos 4 < 16 := bitsAt_lt _ _ _
  have count : (bitsAt big pos 128 >>> 4) % 256 = bitsAt big (pos + 4) 8 :=
    window_field big pos 4 8 (by decide)
  unfold lappedStep parseStep
  simp only [window_code, count, short_iff stop pos (show 0 < 8 by decide),
    short_iff stop pos (show 0 < 12 by decide), ne_eq, ite_not]
  split_ifs with tick multick short filler error short absize short ends
  · rfl
  · rfl
  · rfl
  · rfl
  · rfl
  · rfl
  · rfl
  · rfl
  · exact lappedBody_eq
  · obtain ⟨length, known, -, -⟩ := symlenBits_spec codeLt tick multick error absize
    simp only [symlen, known, Option.getD_some]
    exact lappedBody_eq

/-- What the last round yields is no time stamp. -/
theorem parseStep_quit
    (quit : parseStep big stop pos = .quit last)
    (member : item ∈ last) : item.absoluteTsr = none := by
  have body (start length : Nat) (quits : parseBody big stop pos start length = .quit last) :
      item.absoluteTsr = none := by
    unfold parseBody at quits
    grind [RawMessage.absoluteTsr]
  unfold parseStep at quit
  grind [RawMessage.absoluteTsr]

/-- A round yields one message or none. -/
theorem parseStep_yields (next : parseStep big stop pos = .next yielded pos') :
    yielded = [] ∨ ∃ item, yielded = [item] := by
  have body (start length : Nat) (goes : parseBody big stop pos start length = .next yielded pos') :
      yielded = [] ∨ ∃ item, yielded = [item] := by
    unfold parseBody at goes
    grind
  unfold parseStep at next
  grind

theorem firstStamp_eq_none (none : ∀ item ∈ items, item.absoluteTsr = none) :
    firstStamp items = .none :=
  List.findSome?_eq_none_iff.mpr none

/-- `_lapped` looks at the messages left of the first seventeen. -/
theorem lappedLoop_eq
    (big stop fuel pos k : Nat)
    (counted : k ≤ 16) :
    lappedLoop big stop fuel pos k =
      firstStamp ((parseLoop big stop fuel pos).1.take (17 - k)) := by
  induction fuel generalizing pos k with
  | zero => simp [lappedLoop, parseLoop, firstStamp]
  | succ fuel inductionHypothesis =>
      rw [lappedLoop, parseLoop, lappedStep_eq]
      split_ifs with short
      · simp [firstStamp]
      · cases round : parseStep big stop pos with
        | quit last =>
            symm
            apply firstStamp_eq_none
            intro item member
            exact parseStep_quit round (List.mem_of_mem_take member)
        | next yielded pos' =>
            rcases parseStep_yields round with rfl | ⟨item, rfl⟩
            · exact inductionHypothesis pos' k counted
            · rw [show 17 - k = 16 - k + 1 by omega]
              simp only [ParseStep.lapped, List.singleton_append, List.take_succ_cons,
                firstStamp, List.findSome?_cons]
              cases item.absoluteTsr with
              | some stamp => rfl
              | none =>
                  by_cases last : k = 16
                  · subst last
                    simp [lappedCount]
                  · rw [lappedCount, if_neg (by omega)]
                    have next := inductionHypothesis pos' (k + 1) (by omega)
                    rwa [show 17 - (k + 1) = 16 - k by omega] at next

/-! ## Whole paragraphs -/

/-- The loop of the parser over a paragraph, with any number of rounds to spare. -/
theorem parseLoop_paragraph (par : List Byte) (more : Nat) :
    parseLoop (fromBytes par) (8 * par.length) (8 * par.length / 4 + more) 0 =
      (parseParagraph par,
        (parseLoop (fromBytes par) (8 * par.length) (8 * par.length / 4) 0).2) := by
  rw [parseLoop_fuel _ more 0 (by omega)]
  rfl

theorem scan_eq_foldl
    (tickMode final : Bool)
    (par : List Byte)
    (clock : Clock)
    (bases : Bases) :
    scan tickMode final (fromBytes par) (8 * par.length) clock bases =
      (parseParagraph par).foldl (process tickMode final) (.start clock bases) := by
  rw [scan, scanLoop_eq]
  rfl

/-- For every byte string, whatever the state: `_scan` processes the messages of
`parse_paragraph` in order and ends at the same length field, and `_lapped`
takes the first absolute TSR of the first seventeen.  This is so however many
rounds the loops are allowed. -/
theorem inlined_framing_agrees
    (tickMode final : Bool)
    (par : List Byte)
    (clock : Clock)
    (bases : Bases)
    (more : Nat) :
    scanLoop tickMode final (fromBytes par) (8 * par.length) (8 * par.length / 4 + more) 0
        (.start clock bases) =
      ((parseParagraph par).foldl (process tickMode final) (.start clock bases),
        (parseLoop (fromBytes par) (8 * par.length) (8 * par.length / 4) 0).2) ∧
    lappedLoop (fromBytes par) (8 * par.length) (8 * par.length / 4 + more) 0 0 =
      firstStamp ((parseParagraph par).take 17) := by
  constructor
  · rw [scanLoop_eq, parseLoop_paragraph]
  · rw [lappedLoop_eq _ _ _ _ _ (by decide), parseLoop_paragraph]

end Decode
end TriCoreDap
