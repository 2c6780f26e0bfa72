import TriCoreDap.Library.Lists
import TriCoreDap.Upload.Records

/-!
# The lines of a file

What the line assembler takes of a line is what follows its last colon, or all of
it if it has none.
-/

namespace TriCoreDap
namespace Upload

open HexImage

/-- The lines of a file, of which the first continues `line`. -/
def fileLines : (line : List Byte) → List Byte → List (List Byte)
  | line, [] => [line]
  | line, c :: rest =>
      if isEol c then line :: fileLines [] rest else fileLines (line ++ [c]) rest

/-- What follows the last colon of a line. -/
def lineText (line : List Byte) : List Byte :=
  line.foldl (fun hand c => if c = colon then [] else hand ++ [c]) []

/-- What is taken of a line. -/
def lineTexts (line : List Byte) : List (List Byte) :=
  if lineText line = [] then [] else [lineText line]

/-- What follows each colon of a line. -/
def lineColons : List Byte → List (List Byte)
  | [] => []
  | c :: rest => if c = colon then rest :: lineColons rest else lineColons rest

/-- A well-formed record: hexadecimal digits, two to a byte, the length that the
record gives, and the checksum. -/
def WellFormedText (text : List Byte) : Prop :=
  ∃ raw, decodeHex text = some raw ∧ raw.length = (raw.getD 0 0).toNat + 5 ∧ raw.sum = 0

/-- A line that is empty, or has one colon and something after it. -/
def OneRecord (line : List Byte) : Prop :=
  line = [] ∨ line.count colon = 1 ∧ lineText line ≠ []

instance (line : List Byte) : Decidable (OneRecord line) :=
  inferInstanceAs (Decidable (_ ∨ _ ∧ _))

variable {line text : List Byte} {lines : List (List Byte)}

theorem lineText_append (line : List Byte) (c : Byte) :
    lineText (line ++ [c]) = if c = colon then [] else lineText line ++ [c] := by
  rw [lineText, List.foldl_append]
  rfl

/-- Of a file without an overlong record, the texts of the lines are taken. -/
theorem pieces_lines
    (line file : List Byte)
    (short : Piece.overlong ∉ pieces true (lineText line) file) :
    pieces true (lineText line) file = ((fileLines line file).flatMap lineTexts).map .text := by
  induction file generalizing line with
  | nil =>
      by_cases empty : lineText line = []
      · simp [pieces, fileLines, lineTexts, empty]
      · simp [pieces, fileLines, lineTexts, empty]
  | cons c rest inductionHypothesis =>
      rw [pieces] at short ⊢
      rw [fileLines]
      by_cases eol : isEol c = true
      · simp only [eol, if_true] at short ⊢
        have next := inductionHypothesis []
        rw [show lineText [] = [] from rfl] at next
        by_cases empty : lineText line = []
        · simp only [empty, ne_eq, not_true_eq_false, if_false] at short ⊢
          rw [next short]
          simp [lineTexts, empty]
        · simp only [empty, ne_eq, not_false_eq_true, if_true, List.mem_cons, reduceCtorEq,
            false_or] at short ⊢
          rw [next short]
          simp [lineTexts, empty]
      · have next := inductionHypothesis (line ++ [c])
        rw [lineText_append] at next
        rw [if_neg eol] at short ⊢
        rw [if_neg eol]
        by_cases starts : c = colon
        · rw [if_pos starts] at short next ⊢
          exact next short
        · rw [if_neg starts] at short next ⊢
          split_ifs at short next ⊢ with room
          · exact next short
          · simp at short

/-! ## Colons -/

theorem decodeHex_colon (member : colon ∈ text) : decodeHex text = none := by
  fun_induction decodeHex text with
  | case1 => cases member
  | case2 => rfl
  | case3 hi lo rest hi' lo' low high inductionHypothesis =>
      have noDigit : hexNibble colon = none := by decide
      have notHigh : hi ≠ colon := by
        rintro rfl
        rw [noDigit] at high
        cases high
      have notLow : lo ≠ colon := by
        rintro rfl
        rw [noDigit] at low
        cases low
      have later : colon ∈ rest := by
        simpa [notHigh.symm, notLow.symm] using member
      rw [inductionHypothesis later]
      rfl
  | case4 => rfl

theorem WellFormedText.no_colon (formed : WellFormedText text) : colon ∉ text := by
  obtain ⟨raw, decoded, -, -⟩ := formed
  intro member
  rw [decodeHex_colon member] at decoded
  cases decoded

theorem WellFormedText.ne_nil (formed : WellFormedText text) : text ≠ [] := by
  obtain ⟨raw, decoded, length, -⟩ := formed
  rintro rfl
  cases decoded
  simp at length

theorem lineColons_length (line : List Byte) : (lineColons line).length = line.count colon := by
  induction line with
  | nil => rfl
  | cons c rest inductionHypothesis =>
      rw [lineColons, List.count_cons]
      by_cases starts : c = colon
      · simp [starts, inductionHypothesis]
      · simp [starts, inductionHypothesis]

/-- Without a colon, all of the line is taken. -/
theorem lineText_no_colon (none : colon ∉ line) : lineText line = line := by
  have go (hand : List Byte) :
      line.foldl (fun hand c => if c = colon then [] else hand ++ [c]) hand = hand ++ line := by
    induction line generalizing hand with
    | nil => exact (List.append_nil hand).symm
    | cons c rest inductionHypothesis =>
        rw [List.mem_cons, not_or] at none
        rw [List.foldl_cons, if_neg (Ne.symm none.1), inductionHypothesis none.2]
        simp
  exact go []

theorem foldl_lineText (hand : List Byte) (some : colon ∈ line) :
    line.foldl (fun hand c => if c = colon then [] else hand ++ [c]) hand = lineText line := by
  induction line generalizing hand with
  | nil => cases some
  | cons c rest inductionHypothesis =>
      unfold lineText
      rw [List.foldl_cons, List.foldl_cons]
      by_cases starts : c = colon
      · rw [if_pos starts, if_pos starts]
      · have later : colon ∈ rest := by simpa [Ne.symm starts] using some
        rw [inductionHypothesis _ later, inductionHypothesis _ later]

/-- A line with one colon is taken from there on. -/
theorem lineColons_one (one : line.count colon = 1) : lineColons line = [lineText line] := by
  induction line with
  | nil => simp at one
  | cons c rest inductionHypothesis =>
      rw [lineColons]
      by_cases starts : c = colon
      · subst starts
        rw [List.count_cons_self] at one
        have none : colon ∉ rest := List.count_eq_zero.mp (by omega)
        have noColons : lineColons rest = [] :=
          List.eq_nil_of_length_eq_zero (by rw [lineColons_length]; omega)
        rw [if_pos rfl, noColons, lineText, List.foldl_cons, if_pos rfl]
        exact congrArg (fun text => [text]) (lineText_no_colon none).symm
      · rw [List.count_cons_of_ne starts] at one
        have some : colon ∈ rest := List.count_pos_iff.mp (by omega)
        have whole : lineText (c :: rest) = lineText rest := by
          rw [lineText, List.foldl_cons, if_neg starts, foldl_lineText _ some]
        rw [if_neg starts, inductionHypothesis one, whole]

/-- With a second colon in the line, the first starts no record. -/
theorem lineColons_many (formed : ∀ text ∈ lineColons line, WellFormedText text) :
    line.count colon ≤ 1 := by
  induction line with
  | nil => simp
  | cons c rest inductionHypothesis =>
      rw [lineColons] at formed
      by_cases starts : c = colon
      · rw [if_pos starts] at formed
        have none := (formed rest List.mem_cons_self).no_colon
        rw [starts, List.count_cons_self, List.count_eq_zero.mpr none]
      · rw [if_neg starts] at formed
        rw [List.count_cons_of_ne starts]
        exact inductionHypothesis formed

/-! ## Lines -/

/-- Where every taken text is a record, the texts are those of the colons, which
are all records, exactly when each line holds one record or nothing. -/
theorem lines_iff (formed : ∀ line ∈ lines, ∀ text ∈ lineTexts line, WellFormedText text) :
    ((∀ text ∈ lines.flatMap lineColons, WellFormedText text) ∧
        lines.flatMap lineTexts = lines.flatMap lineColons) ↔
      ∀ line ∈ lines, OneRecord line := by
  constructor
  · rintro ⟨colons, same⟩
    have ofLine (line : List Byte) (member : line ∈ lines) :
        ∀ text ∈ lineColons line, WellFormedText text := fun text inLine =>
      colons text (List.mem_flatMap.mpr ⟨line, member, inLine⟩)
    have le : ∀ line ∈ lines, (lineColons line).length ≤ (lineTexts line).length := by
      intro line member
      have few := lineColons_many (ofLine line member)
      rw [lineColons_length]
      by_cases one : line.count colon = 1
      · have text := ofLine line member (lineText line) (by rw [lineColons_one one]; simp)
        simp [lineTexts, text.ne_nil, one]
      · omega
    have each := length_flatMap_eq le (by rw [same])
    intro line member
    have few := lineColons_many (ofLine line member)
    by_cases one : line.count colon = 1
    · right
      have text := ofLine line member (lineText line) (by rw [lineColons_one one]; simp)
      exact ⟨one, text.ne_nil⟩
    · left
      have none : line.count colon = 0 := by omega
      have noText := each line member
      rw [lineColons_length, none, lineTexts, lineText_no_colon (List.count_eq_zero.mp none)] at noText
      by_contra some
      rw [if_neg some] at noText
      cases noText
  · intro oneRecord
    have same : ∀ line ∈ lines, lineTexts line = lineColons line := by
      intro line member
      rcases oneRecord line member with rfl | ⟨one, some⟩
      · rfl
      · rw [lineColons_one one, lineTexts, if_neg some]
    have flat : lines.flatMap lineTexts = lines.flatMap lineColons := by
      rw [List.flatMap_def, List.flatMap_def, List.map_congr_left same]
    refine ⟨?_, flat⟩
    rw [← flat]
    intro text member
    obtain ⟨line, inFile, inLine⟩ := List.mem_flatMap.mp member
    exact formed line inFile text inLine

end Upload
end TriCoreDap
