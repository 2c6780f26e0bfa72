import TriCoreDap.Library.Search
import TriCoreDap.Library.Word
import Mathlib.Data.List.GetD

/-!
# Splitting the record stream

The probe's trace records come as bytes: a header of twenty, then the payload it
announces.  `records` reads a whole capture, `RecordStream.feed` reads chunks as
they arrive and keeps the remainder.  Both look for the next magic after damage.
-/

namespace TriCoreDap
namespace Decode

/-- `REC_MAGIC`, "DTRP". -/
def recMagic : Nat := 0x50525444

/-- `REC_HEADER.size` of `<IIIHHI`. -/
def recHeaderSize : Nat := 20

structure Record where
  seq : Nat
  tramOffset : Nat
  flags : Nat
  lost : Nat
  payload : List Byte
  deriving DecidableEq, Repr

/-- `struct.pack('<I', REC_MAGIC)`. -/
def magicBytes : List Byte := wordBytes recMagic

/-- The fields of `REC_HEADER.unpack_from` that tell how to go on. -/
def headerMagic (buf : List Byte) : Nat := le32 buf 0

def headerLength (buf : List Byte) : Nat := le16 buf 12

/-- The record at the front of the buffer. -/
def recordAt (buf : List Byte) : Record where
  seq := le32 buf 4
  tramOffset := le32 buf 8
  flags := le16 buf 14
  lost := le32 buf 16
  payload := (buf.drop recHeaderSize).take (headerLength buf)

/-- What is left of the buffer after its first record. -/
def afterRecord (buf : List Byte) : List Byte := buf.drop (recHeaderSize + headerLength buf)

theorem findFrom_tail_lt {buf found : List Byte} (long : ¬buf.length < recHeaderSize)
    (search : findFrom magicBytes buf.tail = some found) : found.length < buf.length := by
  have inside := (suffix_of_findFrom search).length_le
  rw [List.length_tail] at inside
  rw [recHeaderSize] at long
  omega

theorem afterRecord_lt {buf : List Byte} (long : ¬buf.length < recHeaderSize) :
    (afterRecord buf).length < buf.length := by
  rw [afterRecord, List.length_drop]
  rw [recHeaderSize] at long ⊢
  omega

/-- The records read, the bytes kept and the resynchronisations counted. -/
structure Fed where
  out : List Record
  buf : List Byte
  resyncs : Nat
  deriving DecidableEq, Repr

/-- The loop of `feed`; the buffer is what there is from `pos` on. -/
def feedLoop (buf : List Byte) : Fed :=
  if _long : buf.length < recHeaderSize then { out := [], buf, resyncs := 0 }
  else if headerMagic buf ≠ recMagic ∨ 65535 < headerLength buf then
    match _search : findFrom magicBytes buf.tail with
    | none => { out := [], buf := buf.drop (buf.length - 3), resyncs := 1 }
    | some next =>
        let fed := feedLoop next
        { fed with resyncs := fed.resyncs + 1 }
  else if buf.length - recHeaderSize < headerLength buf then { out := [], buf, resyncs := 0 }
  else
    let fed := feedLoop (afterRecord buf)
    { fed with out := recordAt buf :: fed.out }
termination_by buf.length
decreasing_by
  · exact findFrom_tail_lt _long _search
  · exact afterRecord_lt _long

/-- `RecordStream`. -/
structure RecordStream where
  buf : List Byte := []
  resyncs : Nat := 0
  deriving DecidableEq, Repr

/-- `RecordStream.feed`. -/
def RecordStream.feed (stream : RecordStream) (data : List Byte) : List Record × RecordStream :=
  let fed := feedLoop (stream.buf ++ data)
  (fed.out, { buf := fed.buf, resyncs := stream.resyncs + fed.resyncs })

/-- What `feed` returns for the chunks, one after the other. -/
def RecordStream.feedAll (stream : RecordStream) : List (List Byte) → List Record
  | [] => []
  | chunk :: chunks => (stream.feed chunk).1 ++ (stream.feed chunk).2.feedAll chunks

/-- `capfile.records`; the stream is what there is from `pos` on. -/
def records (stream : List Byte) : List Record :=
  if _long : stream.length < recHeaderSize then []
  else if headerMagic stream ≠ recMagic ∨
      stream.length < recHeaderSize + headerLength stream then
    match _search : findFrom magicBytes stream.tail with
    | none => []
    | some next => records next
  else recordAt stream :: records (afterRecord stream)
termination_by stream.length
decreasing_by
  · exact findFrom_tail_lt _long _search
  · exact afterRecord_lt _long

/-- The places where `records` meets a record header, each as the bytes from there on. -/
def headersMet (stream : List Byte) : List (List Byte) :=
  if _long : stream.length < recHeaderSize then []
  else if headerMagic stream ≠ recMagic ∨
      stream.length < recHeaderSize + headerLength stream then
    let later :=
      match _search : findFrom magicBytes stream.tail with
      | none => []
      | some next => headersMet next
    if headerMagic stream = recMagic then stream :: later else later
  else stream :: headersMet (afterRecord stream)
termination_by stream.length
decreasing_by
  · exact findFrom_tail_lt _long _search
  · exact afterRecord_lt _long

/-! ## Headers -/

variable {buf more stream : List Byte}

/-- A word inside the bytes is the same when more follow. -/
theorem le32_append (inside : offset + 4 ≤ buf.length) :
    le32 (buf ++ more) offset = le32 buf offset := by
  unfold le32
  rw [List.getD_append _ _ _ _ (by omega), List.getD_append _ _ _ _ (by omega),
    List.getD_append _ _ _ _ (by omega), List.getD_append _ _ _ _ (by omega)]

theorem le16_append (inside : offset + 2 ≤ buf.length) :
    le16 (buf ++ more) offset = le16 buf offset := by
  unfold le16
  rw [List.getD_append _ _ _ _ (by omega), List.getD_append _ _ _ _ (by omega)]

theorem headerMagic_append (long : ¬buf.length < recHeaderSize) :
    headerMagic (buf ++ more) = headerMagic buf := by
  rw [recHeaderSize] at long
  exact le32_append (by omega)

theorem headerLength_append (long : ¬buf.length < recHeaderSize) :
    headerLength (buf ++ more) = headerLength buf := by
  rw [recHeaderSize] at long
  exact le16_append (by omega)

/-- The length is a half word, so that the limit of `feed` holds of every header. -/
theorem headerLength_le (buf : List Byte) : headerLength buf ≤ 65535 := by
  have low := (buf.getD 12 0).toNat_lt
  have high := (buf.getD (12 + 1) 0).toNat_lt
  unfold headerLength le16
  omega

/-- A whole record does not change when more bytes follow. -/
theorem recordAt_append
    (long : ¬buf.length < recHeaderSize)
    (whole : ¬buf.length - recHeaderSize < headerLength buf) :
    recordAt (buf ++ more) = recordAt buf := by
  rw [recordAt, recordAt, headerLength_append long]
  rw [recHeaderSize] at *
  rw [le32_append (by omega), le32_append (by omega), le16_append (by omega),
    le32_append (by omega), List.drop_append_of_le_length (by omega),
    List.take_append_of_le_length (by rw [List.length_drop]; omega)]

theorem afterRecord_append
    (long : ¬buf.length < recHeaderSize)
    (whole : ¬buf.length - recHeaderSize < headerLength buf) :
    afterRecord (buf ++ more) = afterRecord buf ++ more := by
  rw [afterRecord, afterRecord, headerLength_append long]
  exact List.drop_append_of_le_length (by omega)

theorem magicBytes_eq : magicBytes = [0x44, 0x54, 0x52, 0x50] := by decide

/-- The magic is in the header exactly where a search finds it. -/
theorem headerMagic_iff (long : 4 ≤ buf.length) :
    headerMagic buf = recMagic ↔ magicBytes <+: buf := by
  match buf, long with
  | b0 :: b1 :: b2 :: b3 :: rest, _ =>
      have lt0 := b0.toNat_lt
      have lt1 := b1.toNat_lt
      have lt2 := b2.toNat_lt
      have lt3 := b3.toNat_lt
      have value : headerMagic (b0 :: b1 :: b2 :: b3 :: rest) =
          b0.toNat + b1.toNat <<< 8 + b2.toNat <<< 16 + b3.toNat <<< 24 := rfl
      rw [value, magicBytes_eq, recMagic]
      constructor
      · intro same
        have byte0 : b0 = 0x44 := UInt8.toNat_inj.mp (show b0.toNat = 0x44 by omega)
        have byte1 : b1 = 0x54 := UInt8.toNat_inj.mp (show b1.toNat = 0x54 by omega)
        have byte2 : b2 = 0x52 := UInt8.toNat_inj.mp (show b2.toNat = 0x52 by omega)
        have byte3 : b3 = 0x50 := UInt8.toNat_inj.mp (show b3.toNat = 0x50 by omega)
        rw [byte0, byte1, byte2, byte3]
        exact ⟨rest, rfl⟩
      · rintro ⟨after, same⟩
        obtain ⟨rfl, rfl, rfl, rfl, -⟩ := by simpa using same
        rfl

/-- Without the magic in the header, the search from the next byte is one of the whole. -/
theorem findFrom_tail (long : ¬buf.length < recHeaderSize) (damaged : headerMagic buf ≠ recMagic) :
    findFrom magicBytes buf.tail = findFrom magicBytes buf := by
  cases buf with
  | nil => rfl
  | cons first rest =>
      have four : 4 ≤ (first :: rest).length := by
        rw [recHeaderSize] at long
        omega
      rw [List.tail_cons, findFrom_cons_of_absent]
      exact fun stands => damaged ((headerMagic_iff four).mpr stands)

/-! ## One step of the loops -/

variable {next : List Byte}

theorem feedLoop_short (short : buf.length < recHeaderSize) :
    feedLoop buf = { out := [], buf, resyncs := 0 } := by
  rw [feedLoop, dif_pos short]

/-- No magic to go on from. -/
theorem feedLoop_lost
    (long : ¬buf.length < recHeaderSize) (damaged : headerMagic buf ≠ recMagic)
    (search : findFrom magicBytes buf = none) :
    feedLoop buf = { out := [], buf := buf.drop (buf.length - 3), resyncs := 1 } := by
  rw [feedLoop, dif_neg long, if_pos (Or.inl damaged)]
  split
  · rfl
  · rename_i found
    rw [findFrom_tail long damaged, search] at found
    cases found

theorem feedLoop_found
    (long : ¬buf.length < recHeaderSize) (damaged : headerMagic buf ≠ recMagic)
    (search : findFrom magicBytes buf = some next) :
    feedLoop buf = { feedLoop next with resyncs := (feedLoop next).resyncs + 1 } := by
  rw [feedLoop, dif_neg long, if_pos (Or.inl damaged)]
  split
  · rename_i found
    rw [findFrom_tail long damaged, search] at found
    cases found
  · rename_i found
    rw [findFrom_tail long damaged, search] at found
    cases found
    rfl

/-- The payload has not arrived yet. -/
theorem feedLoop_waiting
    (long : ¬buf.length < recHeaderSize) (magic : headerMagic buf = recMagic)
    (part : buf.length - recHeaderSize < headerLength buf) :
    feedLoop buf = { out := [], buf, resyncs := 0 } := by
  have sound : ¬(headerMagic buf ≠ recMagic ∨ 65535 < headerLength buf) := by
    rintro (damaged | large)
    · exact damaged magic
    · exact (headerLength_le buf).not_gt large
  rw [feedLoop, dif_neg long, if_neg sound, if_pos part]

theorem feedLoop_record
    (long : ¬buf.length < recHeaderSize) (magic : headerMagic buf = recMagic)
    (whole : ¬buf.length - recHeaderSize < headerLength buf) :
    feedLoop buf =
      { feedLoop (afterRecord buf) with
        out := recordAt buf :: (feedLoop (afterRecord buf)).out } := by
  have sound : ¬(headerMagic buf ≠ recMagic ∨ 65535 < headerLength buf) := by
    rintro (damaged | large)
    · exact damaged magic
    · exact (headerLength_le buf).not_gt large
  rw [feedLoop, dif_neg long, if_neg sound, if_neg whole]

theorem records_short (short : stream.length < recHeaderSize) : records stream = [] := by
  rw [records, dif_pos short]

/-- Where `records` finds damage, it goes on from the next magic. -/
theorem records_damaged
    (long : ¬stream.length < recHeaderSize)
    (damaged : headerMagic stream ≠ recMagic) :
    records stream = ((findFrom magicBytes stream).map records).getD [] := by
  rw [records, dif_neg long, if_pos (Or.inl damaged), ← findFrom_tail long damaged]
  split
  · rename_i found
    rw [found]
    rfl
  · rename_i found
    rw [found]
    rfl

theorem records_record
    (long : ¬stream.length < recHeaderSize) (magic : headerMagic stream = recMagic)
    (whole : ¬stream.length - recHeaderSize < headerLength stream) :
    records stream = recordAt stream :: records (afterRecord stream) := by
  have sound : ¬(headerMagic stream ≠ recMagic ∨
      stream.length < recHeaderSize + headerLength stream) := by
    rintro (damaged | part)
    · exact damaged magic
    · omega
  rw [records, dif_neg long, if_neg sound]

/-! ## Independence of the borders -/

/-- What comes out is what comes out from the first magic on. -/
theorem out_feedLoop_eq (buf : List Byte) :
    (feedLoop buf).out =
      ((findFrom magicBytes buf).map fun next => (feedLoop next).out).getD [] := by
  by_cases stands : magicBytes <+: buf
  · rw [findFrom_of_stands stands]
    rfl
  · by_cases short : buf.length < recHeaderSize
    · rw [feedLoop_short short]
      cases search : findFrom magicBytes buf with
      | none => rfl
      | some next =>
          have part := (suffix_of_findFrom search).length_le
          rw [Option.map_some, feedLoop_short (part.trans_lt short)]
          rfl
    · have four : 4 ≤ buf.length := by
        rw [recHeaderSize] at short
        omega
      have damaged : headerMagic buf ≠ recMagic :=
        fun magic => stands ((headerMagic_iff four).mp magic)
      cases search : findFrom magicBytes buf with
      | none =>
          rw [feedLoop_lost short damaged search]
          rfl
      | some next =>
          rw [feedLoop_found short damaged search]
          rfl

/-- The loop can stop at any border and go on from what it kept. -/
theorem out_feedLoop_append (buf more : List Byte) :
    (feedLoop (buf ++ more)).out =
      (feedLoop buf).out ++ (feedLoop ((feedLoop buf).buf ++ more)).out := by
  induction size : buf.length using Nat.strong_induction_on generalizing buf with
  | _ size inductionHypothesis =>
  subst size
  by_cases short : buf.length < recHeaderSize
  · rw [feedLoop_short short]
    rfl
  have long : ¬(buf ++ more).length < recHeaderSize := by
    rw [List.length_append]
    omega
  by_cases magic : headerMagic buf = recMagic
  · by_cases part : buf.length - recHeaderSize < headerLength buf
    · rw [feedLoop_waiting short magic part]
      rfl
    · have whole : ¬(buf ++ more).length - recHeaderSize < headerLength (buf ++ more) := by
        rw [headerLength_append short, List.length_append]
        omega
      rw [feedLoop_record long ((headerMagic_append short).trans magic) whole,
        feedLoop_record short magic part, recordAt_append short part,
        afterRecord_append short part,
        inductionHypothesis _ (afterRecord_lt short) (afterRecord buf) rfl]
      rfl
  · cases search : findFrom magicBytes buf with
    | none =>
        -- a magic may begin in the last three bytes
        have fits : magicBytes.length ≤ 3 + 1 := by decide
        rw [feedLoop_lost short magic search, out_feedLoop_eq (buf ++ more),
          findFrom_append_none 3 fits search, ← out_feedLoop_eq]
        rfl
    | some next =>
        have less : next.length < buf.length :=
          findFrom_tail_lt short ((findFrom_tail short magic).trans search)
        have found : findFrom magicBytes (buf ++ more) = some (next ++ more) :=
          findFrom_append search
        rw [out_feedLoop_eq (buf ++ more), found, feedLoop_found short magic search]
        exact inductionHypothesis _ less next rfl

/-- No record is left in the bytes kept. -/
def RecordStream.Settled (stream : RecordStream) : Prop := (feedLoop stream.buf).out = []

theorem settled_new : RecordStream.Settled {} := by
  rw [RecordStream.Settled, feedLoop_short (by decide)]

theorem RecordStream.settled_feed (stream : RecordStream) (data : List Byte) :
    (stream.feed data).2.Settled := by
  have again := out_feedLoop_append (stream.buf ++ data) []
  rw [List.append_nil, List.append_nil] at again
  exact List.self_eq_append_right.mp again

/-- The chunks count by their bytes alone. -/
theorem RecordStream.feedAll_eq {stream : RecordStream} (settled : stream.Settled)
    (chunks : List (List Byte)) :
    stream.feedAll chunks = (feedLoop (stream.buf ++ chunks.flatten)).out := by
  induction chunks generalizing stream with
  | nil => rw [feedAll, List.flatten_nil, List.append_nil, settled]
  | cons chunk chunks inductionHypothesis =>
      rw [feedAll, inductionHypothesis (stream.settled_feed chunk), List.flatten_cons,
        ← List.append_assoc, out_feedLoop_append (stream.buf ++ chunk)]
      rfl

/-! ## Agreement of the two readers -/

/-- On any bytes, `feed` reads the first of the records that `records` reads. -/
theorem out_feedLoop_prefix_records (stream : List Byte) :
    (feedLoop stream).out <+: records stream := by
  induction size : stream.length using Nat.strong_induction_on generalizing stream with
  | _ size inductionHypothesis =>
  subst size
  by_cases short : stream.length < recHeaderSize
  · rw [feedLoop_short short]
    exact List.nil_prefix
  by_cases magic : headerMagic stream = recMagic
  · by_cases part : stream.length - recHeaderSize < headerLength stream
    · rw [feedLoop_waiting short magic part]
      exact List.nil_prefix
    · rw [feedLoop_record short magic part, records_record short magic part]
      exact (List.prefix_cons_inj _).mpr (inductionHypothesis _ (afterRecord_lt short) _ rfl)
  · rw [records_damaged short magic]
    cases search : findFrom magicBytes stream with
    | none =>
        rw [feedLoop_lost short magic search]
        exact List.nil_prefix
    | some next =>
        have less : next.length < stream.length :=
          findFrom_tail_lt short ((findFrom_tail short magic).trans search)
        rw [feedLoop_found short magic search]
        exact inductionHypothesis _ less next rfl

/-- The header announces no more payload than the bytes still hold. -/
def PayloadHeld (stream : List Byte) : Prop :=
  headerLength stream ≤ stream.length - recHeaderSize

theorem headersMet_record
    (long : ¬stream.length < recHeaderSize) (magic : headerMagic stream = recMagic)
    (whole : ¬stream.length - recHeaderSize < headerLength stream) :
    headersMet stream = stream :: headersMet (afterRecord stream) := by
  have sound : ¬(headerMagic stream ≠ recMagic ∨
      stream.length < recHeaderSize + headerLength stream) := by
    rintro (damaged | part)
    · exact damaged magic
    · omega
  rw [headersMet, dif_neg long, if_neg sound]

theorem headersMet_damaged
    (long : ¬stream.length < recHeaderSize)
    (damaged : headerMagic stream ≠ recMagic) :
    headersMet stream = ((findFrom magicBytes stream).map headersMet).getD [] := by
  rw [headersMet, dif_neg long, if_pos (Or.inl damaged), ← findFrom_tail long damaged,
    if_neg damaged]
  split
  · rename_i found
    rw [found]
    rfl
  · rename_i found
    rw [found]
    rfl

/-- The header of a record cut short is met. -/
theorem mem_headersMet_part
    (long : ¬stream.length < recHeaderSize) (magic : headerMagic stream = recMagic) :
    stream ∈ headersMet stream := by
  rw [headersMet, dif_neg long]
  split_ifs
  · exact List.mem_cons_self
  · exact List.mem_cons_self

/-- When no record is cut short, both read the same records. -/
theorem out_feedLoop_eq_records
    (held : ∀ header ∈ headersMet stream, PayloadHeld header) :
    (feedLoop stream).out = records stream := by
  induction size : stream.length using Nat.strong_induction_on generalizing stream with
  | _ size inductionHypothesis =>
  subst size
  by_cases short : stream.length < recHeaderSize
  · rw [feedLoop_short short, records_short short]
  by_cases magic : headerMagic stream = recMagic
  · have whole : ¬stream.length - recHeaderSize < headerLength stream :=
      (held stream (mem_headersMet_part short magic)).not_gt
    rw [headersMet_record short magic whole] at held
    have later := inductionHypothesis _ (afterRecord_lt short)
      (fun header met => held header (List.mem_cons_of_mem _ met)) rfl
    rw [feedLoop_record short magic whole, records_record short magic whole, later]
  · rw [headersMet_damaged short magic] at held
    rw [records_damaged short magic]
    cases search : findFrom magicBytes stream with
    | none => rw [feedLoop_lost short magic search, Option.map_none, Option.getD_none]
    | some next =>
        have less : next.length < stream.length :=
          findFrom_tail_lt short ((findFrom_tail short magic).trans search)
        rw [search] at held
        rw [feedLoop_found short magic search]
        exact inductionHypothesis _ less held rfl

/-- Splitting into records does not depend on the chunks, and agrees with reading the
whole capture up to a record cut short. -/
theorem feedAll_chunks (stream : List Byte) (chunks : List (List Byte))
    (cut : chunks.flatten = stream) :
    (∀ another : List (List Byte), another.flatten = stream →
        RecordStream.feedAll {} chunks = RecordStream.feedAll {} another) ∧
      RecordStream.feedAll {} chunks <+: records stream ∧
      ((∀ header ∈ headersMet stream, PayloadHeld header) →
        RecordStream.feedAll {} chunks = records stream) := by
  have whole : RecordStream.feedAll {} chunks = (feedLoop stream).out := by
    rw [RecordStream.feedAll_eq settled_new, cut]
    rfl
  refine ⟨fun another same => ?_, ?_, fun held => ?_⟩
  · rw [whole, RecordStream.feedAll_eq settled_new, same]
    rfl
  · rw [whole]
    exact out_feedLoop_prefix_records stream
  · rw [whole]
    exact out_feedLoop_eq_records held

/-- A record with two bytes of payload. -/
def shortRecord : List Byte :=
  [0x44, 0x54, 0x52, 0x50, 1, 0, 0, 0, 0, 0, 0, 0, 2, 0, 0, 0, 0, 0, 0, 0, 7, 8]

theorem payloadHeld_shortRecord : ∀ header ∈ headersMet shortRecord, PayloadHeld header := by
  rw [headersMet_record (by decide) (by decide) (by decide), headersMet,
    dif_pos (show (afterRecord shortRecord).length < recHeaderSize by decide)]
  intro header met
  rw [List.mem_singleton.mp met, PayloadHeld]
  decide

/-- A border in the magic. -/
theorem feedAll_chunks_shortRecord :
    [shortRecord.take 3, shortRecord.drop 3].flatten = shortRecord ∧
      (∀ another : List (List Byte), another.flatten = shortRecord →
        RecordStream.feedAll {} [shortRecord.take 3, shortRecord.drop 3] =
          RecordStream.feedAll {} another) ∧
      RecordStream.feedAll {} [shortRecord.take 3, shortRecord.drop 3] = records shortRecord :=
  have split := feedAll_chunks shortRecord [shortRecord.take 3, shortRecord.drop 3] (by decide)
  ⟨by decide, split.1, split.2.2 payloadHeld_shortRecord⟩

end Decode
end TriCoreDap
