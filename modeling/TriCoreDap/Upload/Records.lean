import TriCoreDap.Upload.Hex

/-!
# An upload as a list of records

The line assembler cuts the bytes of an upload into texts, whatever the chunks;
the parser takes them one after the other up to the first that it refuses.
-/

namespace TriCoreDap
namespace Upload

open Flash Ucb HexImage

/-- What the line assembler comes upon. -/
inductive Piece
  | text (text : List Byte)
  | overlong
  deriving DecidableEq, Repr

/-- The pieces of the bytes that follow `line`. -/
def pieces (whole : Bool) : (line : List Byte) → List Byte → List Piece
  | line, [] => if whole ∧ line ≠ [] then [.text line] else []
  | line, c :: rest =>
      if isEol c then
        if line ≠ [] then .text line :: pieces whole [] rest else pieces whole [] rest
      else if c = colon then pieces whole [] rest
      else if line.length < lineBytes then pieces whole (line ++ [c]) rest
      else [.overlong]

/-- What the parser does with a piece. -/
def Image.takePiece (image : Image) (piece : Piece) : Image :=
  if image.bad then image
  else
    match piece with
    | .text text => image.parseRecord text
    | .overlong => image.fail "a record is longer than this reader accepts"

/-- The record is refused for what it is. -/
def HexRecord.refused (upper : Nat) (record : HexRecord) : Bool :=
  match record.kind with
  | 0 =>
      decide (¬record.InUcb upper ∧ ¬record.Outside upper ∧
        u32 (record.address upper - pflashBase + record.count) > imageMaxBytes)
  | 4 => decide (record.count ≠ 2)
  | 2 => decide (record.count ≠ 2)
  | 1 => false
  | 3 => false
  | 5 => false
  | _ => true

/-- The upper part of the addresses after a record. -/
def HexRecord.nextUpper (upper : Nat) (record : HexRecord) : Nat :=
  match record.kind with
  | 4 => u32 (Image.extension record <<< 16)
  | 2 => u32 (Image.extension record <<< 4)
  | _ => upper

/-- The UCB slots that a data record touches. -/
def HexRecord.slots (upper : Nat) (record : HexRecord) : List Nat :=
  if record.count ≠ 0 then
    Image.slotsOf (record.address upper - ucbBase)
      (record.address upper - ucbBase + record.count - 1)
  else []

/-- What a record stores. -/
def HexRecord.stores (upper : Nat) (record : HexRecord) : List Store :=
  if record.kind ≠ 0 ∨ record.refused upper then []
  else if record.InUcb upper then
    .ucb (record.address upper - ucbBase) record.payload :: (record.slots upper).map .present
  else if record.Outside upper then []
  else [.data (record.address upper - pflashBase) record.payload]

/-- A hexadecimal digit. -/
def hexDigit (digit : Nat) : Byte := UInt8.ofNat (if digit < 10 then 48 + digit else 55 + digit)

/-- A line as a tool writes it, with the checksum. -/
def recordLine (offset kind : Nat) (payload : List Byte) : List Byte :=
  let raw := UInt8.ofNat payload.length :: UInt8.ofNat (offset / 256) :: UInt8.ofNat offset ::
    UInt8.ofNat kind :: payload
  let digits := (raw ++ [0 - raw.sum]).flatMap fun byte =>
    [hexDigit (byte.toNat / 16), hexDigit (byte.toNat % 16)]
  colon :: digits ++ [10]

/-! ## The line assembler -/

variable {whole : Bool} {image : Image} {record : HexRecord} {text line file : List Byte}
  {upper : Nat}

theorem Image.takePiece_bad (bad : image.bad = true) (pieces : List Piece) :
    pieces.foldl Image.takePiece image = image := by
  induction pieces with
  | nil => rfl
  | cons piece rest inductionHypothesis =>
      have stays : image.takePiece piece = image := by simp [Image.takePiece, bad]
      rw [List.foldl_cons, stays, inductionHypothesis]

theorem feed_bad {image : HexImage} (bad : image.bad = true) (file : List Byte) :
    file.foldl feedByte image = image := by
  induction file with
  | nil => rfl
  | cons c rest inductionHypothesis =>
      rw [List.foldl_cons, feedByte, if_pos bad, inductionHypothesis]

theorem Image.takePiece_text (good : image.bad = false) (text : List Byte) :
    image.takePiece (.text text) = image.parseRecord text := by
  simp [Image.takePiece, good]

/-- The end of an upload. -/
def HexImage.ended (whole : Bool) (image : HexImage) : Image :=
  (if whole then image.finish else image).toImage

/-- Byte by byte, the parser takes the pieces. -/
theorem feed_pieces (good : image.bad = false) (line file : List Byte) :
    (file.foldl feedByte ⟨image, line⟩).ended whole =
      (pieces whole line file).foldl Image.takePiece image := by
  induction file generalizing image line with
  | nil =>
      cases whole with
      | false => rfl
      | true =>
          by_cases empty : line = []
          · simp [HexImage.ended, finish, flush, good, pieces, empty]
          · simp [HexImage.ended, finish, flush, good, pieces, empty, Image.takePiece_text]
  | cons c rest inductionHypothesis =>
      rw [List.foldl_cons, feedByte, if_neg (by simp [good]), pieces]
      by_cases eol : isEol c = true
      · rw [if_pos eol, if_pos eol, flush]
        by_cases empty : line = []
        · subst empty
          simp only [ne_eq, not_true_eq_false, if_false]
          exact inductionHypothesis good []
        · simp only [ne_eq, empty, not_false_eq_true, if_true, List.foldl_cons,
            Image.takePiece_text good]
          cases refused : (image.parseRecord line).bad with
          | false => exact inductionHypothesis refused []
          | true =>
              rw [feed_bad refused, Image.takePiece_bad refused]
              cases whole <;> simp [HexImage.ended, finish, refused]
      · rw [if_neg eol, if_neg eol]
        by_cases starts : c = colon
        · rw [if_pos starts, if_pos starts]
          exact inductionHypothesis good []
        · rw [if_neg starts, if_neg starts]
          by_cases room : line.length < lineBytes
          · rw [if_pos room, if_pos room]
            exact inductionHypothesis good _
          · rw [if_neg room, if_neg room]
            have failed : (image.fail "a record is longer than this reader accepts").bad = true := by
              simp [Image.fail, good]
            rw [feed_bad failed]
            cases whole <;> simp [HexImage.ended, finish, failed, Image.takePiece, good]

/-- The image of an upload is that of its pieces, however it was cut into
chunks. -/
theorem upload_pieces (whole : Bool) (chunks : List (List Byte)) :
    (upload whole chunks).toImage =
      (pieces whole [] chunks.flatten).foldl Image.takePiece .reset := by
  have cut : chunks.foldl feed .reset = chunks.flatten.foldl feedByte .reset :=
    List.foldl_flatten.symm
  rw [upload, cut]
  exact feed_pieces rfl [] chunks.flatten

/-! ## Records -/

theorem Image.fail_spec (good : image.bad = false) (why : String) :
    image.fail why = { image with bad := true, error := why } := by
  simp [Image.fail, good]

/-- All that a record does to an image that is not refused yet, as far as the
record itself says it. -/
structure Image.Takes (image image' : Image) (record : HexRecord) : Prop where
  bad : image'.bad = record.refused image.upper
  upper : record.refused image.upper = false → image'.upper = record.nextUpper image.upper
  stores : image'.stores = image.stores ++ record.stores image.upper
  taken : image'.taken = image.taken

theorem Image.dataRecord_takes (good : image.bad = false) (data : record.kind = 0) :
    image.Takes (image.dataRecord record) record := by
  by_cases ucb : record.InUcb image.upper
  · have applied : image.dataRecord record =
        image.storeUcb (record.address image.upper) record.payload := by
      rw [Image.dataRecord, if_pos ucb]
    have accepted : record.refused image.upper = false := by
      simp [HexRecord.refused, data, ucb]
    rw [applied]
    constructor
    · simp [Image.storeUcb, accepted, good]
    · simp [HexRecord.nextUpper, data, Image.storeUcb]
    · simp [HexRecord.stores, data, accepted, ucb, Image.storeUcb, HexRecord.slots,
        HexRecord.count]
    · simp [Image.storeUcb]
  · by_cases outside : record.Outside image.upper
    · have applied : image.dataRecord record =
          { image with skipped := u32 (image.skipped + record.count) } := by
        rw [Image.dataRecord, if_neg ucb, if_pos outside]
      have accepted : record.refused image.upper = false := by
        simp [HexRecord.refused, data, outside]
      rw [applied]
      constructor
      · rw [accepted]
        exact good
      · simp [HexRecord.nextUpper, data]
      · simp [HexRecord.stores, data, accepted, ucb, outside]
      · rfl
    · by_cases past : u32 (record.address image.upper - pflashBase + record.count) > imageMaxBytes
      · have applied : image.dataRecord record =
            image.fail "the image reaches past what this probe will hold" := by
          rw [Image.dataRecord, if_neg ucb, if_neg outside, if_pos past]
        have refused : record.refused image.upper = true := by
          simp [HexRecord.refused, data, ucb, outside, past]
        rw [applied, Image.fail_spec good]
        constructor
        · exact refused.symm
        · simp [refused]
        · simp [HexRecord.stores, refused]
        · rfl
      · have applied : image.dataRecord record =
            image.storeData (record.address image.upper) record.payload := by
          rw [Image.dataRecord, if_neg ucb, if_neg outside, if_neg past]
        have accepted : record.refused image.upper = false := by
          simp [HexRecord.refused, data, past]
        rw [applied]
        constructor
        · simp [Image.storeData, accepted, good]
        · simp [HexRecord.nextUpper, data, Image.storeData]
        · simp [HexRecord.stores, data, accepted, ucb, outside, Image.storeData]
        · simp [Image.storeData]

/-- A record that is not data stores nothing. -/
theorem Image.Takes.other
    {image' : Image}
    (kind : record.kind ≠ 0)
    (bad : image'.bad = record.refused image.upper)
    (upper : record.refused image.upper = false → image'.upper = record.nextUpper image.upper)
    (stores : image'.stores = image.stores)
    (taken : image'.taken = image.taken) : image.Takes image' record :=
  ⟨bad, upper, by simp [stores, HexRecord.stores, kind], taken⟩

/-- An extended address record, with the shift of its kind. -/
theorem Image.extension_takes
    (good : image.bad = false)
    (kind : record.kind ≠ 0)
    (why : String)
    (refused : record.refused image.upper = decide (record.count ≠ 2))
    (upper : record.nextUpper image.upper = next) :
    image.Takes
      (if record.count ≠ 2 then { image with records := more }.fail why
        else { image with records := more, upper := next }) record := by
  by_cases two : record.count = 2
  · rw [if_neg (not_not.mpr two)]
    have accepted : record.refused image.upper = false := by simp [refused, two]
    apply Image.Takes.other kind
    · rw [accepted]
      exact good
    · exact fun _ => upper.symm
    · rfl
    · rfl
  · have isRefused : record.refused image.upper = true := by simp [refused, two]
    have good' : { image with records := more }.bad = false := good
    rw [if_pos two, Image.fail_spec good']
    apply Image.Takes.other kind
    · exact isRefused.symm
    · simp [isRefused]
    · rfl
    · rfl

theorem Image.takeRecord_takes (good : image.bad = false) (record : HexRecord) :
    image.Takes (image.takeRecord record) record := by
  have idle (kind : record.kind ≠ 0) (accepted : record.refused image.upper = false)
      (upper : record.nextUpper image.upper = image.upper) :
      image.Takes { image with records := u32 (image.records + 1) } record := by
    apply Image.Takes.other kind
    · rw [accepted]
      exact good
    · exact fun _ => upper.symm
    · rfl
    · rfl
  unfold Image.takeRecord
  dsimp only
  split
  case h_1 data =>
    have takes : Image.Takes { image with records := u32 (image.records + 1) } _ record :=
      Image.dataRecord_takes good data
    exact ⟨takes.bad, takes.upper, takes.stores, takes.taken⟩
  case h_2 kind =>
    apply Image.extension_takes good (by simp [kind])
    · simp [HexRecord.refused, kind]
    · simp [HexRecord.nextUpper, kind]
  case h_3 kind =>
    apply Image.extension_takes good (by simp [kind])
    · simp [HexRecord.refused, kind]
    · simp [HexRecord.nextUpper, kind]
  case h_4 kind =>
    exact idle (by simp [kind]) (by simp [HexRecord.refused, kind]) (by simp [HexRecord.nextUpper, kind])
  case h_5 kind =>
    exact idle (by simp [kind]) (by simp [HexRecord.refused, kind]) (by simp [HexRecord.nextUpper, kind])
  case h_6 kind =>
    exact idle (by simp [kind]) (by simp [HexRecord.refused, kind]) (by simp [HexRecord.nextUpper, kind])
  case h_7 zero four two one three five =>
    have refused : record.refused image.upper = true := by
      unfold HexRecord.refused
      split <;> first | contradiction | rfl
    have good' : { image with records := u32 (image.records + 1) }.bad = false := good
    rw [Image.fail_spec good']
    apply Image.Takes.other zero
    · exact refused.symm
    · simp [refused]
    · rfl
    · rfl

/-- What the parser does with a text. -/
theorem Image.parseRecord_error (good : image.bad = false) (error : readRecord text = .error why) :
    image.parseRecord text =
      { image with bad := true, error := why, taken := image.taken ++ [text] } := by
  have good' : { image with taken := image.taken ++ [text] }.bad = false := good
  simp only [Image.parseRecord, error, Image.fail_spec good']

/-- What the parser does with a record. -/
theorem Image.parseRecord_ok (good : image.bad = false) (ok : readRecord text = .ok record) :
    { image with taken := image.taken ++ [text] }.Takes (image.parseRecord text) record := by
  have good' : { image with taken := image.taken ++ [text] }.bad = false := good
  simp only [Image.parseRecord, ok]
  exact Image.takeRecord_takes good' record

/-- The stores only grow. -/
theorem Image.takePiece_stores (image : Image) (piece : Piece) :
    ∃ more, (image.takePiece piece).stores = image.stores ++ more := by
  cases good : image.bad with
  | true => exact ⟨[], by simp [Image.takePiece, good]⟩
  | false =>
      cases piece with
      | overlong => exact ⟨[], by simp [Image.takePiece, good, Image.fail]⟩
      | text text =>
          rw [Image.takePiece_text good]
          cases read : readRecord text with
          | error why =>
              rw [Image.parseRecord_error good read]
              exact ⟨[], (List.append_nil _).symm⟩
          | ok record => exact ⟨_, (Image.parseRecord_ok good read).stores⟩

theorem Image.foldl_stores (image : Image) (pieces : List Piece) :
    ∃ more, (pieces.foldl Image.takePiece image).stores = image.stores ++ more := by
  induction pieces generalizing image with
  | nil => exact ⟨[], (List.append_nil _).symm⟩
  | cons piece rest inductionHypothesis =>
      obtain ⟨first, eq⟩ := image.takePiece_stores piece
      obtain ⟨more, eq'⟩ := inductionHypothesis (image.takePiece piece)
      refine ⟨first ++ more, ?_⟩
      rw [List.foldl_cons, eq', eq, List.append_assoc]

end Upload
end TriCoreDap
