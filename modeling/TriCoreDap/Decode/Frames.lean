import TriCoreDap.Decode.Paragraphs

/-!
# Framed messages

Messages as the writer puts them into a paragraph, one bit field above the
other, and what the parser makes of them.
-/

namespace TriCoreDap
namespace Decode

/-- How the length of a message is written. -/
inductive Framing
  | symlength (code : Nat)
  | absize (length : Nat)
  deriving DecidableEq, Repr

namespace Framing

/-- The length of the body. -/
def length : Framing → Nat
  | symlength code => symlen code
  | absize length => length

/-- The length field. -/
def head : Framing → List (Nat × Nat)
  | symlength code => [(4, code)]
  | absize length => [(4, codeAbsize), (8, length)]

/-- A code of the table, or an absolute size that leaves room for the core and
the trace type and is not the end of the trace. -/
def Valid : Framing → Prop
  | symlength code => (symlenBits code).isSome
  | absize length => 8 ≤ length ∧ length < 0xFF

instance (framing : Framing) : Decidable framing.Valid := by
  cases framing <;> unfold Valid <;> infer_instance

end Framing

/-- A message with its length field; a multitick of 0 is a filler. -/
inductive Frame
  | tick
  | multick (ticks : Nat)
  | error (core errCnt : Nat)
  | msg (framing : Framing) (core tt data : Nat)
  deriving DecidableEq, Repr

namespace Frame

def fields : Frame → List (Nat × Nat)
  | tick => [(4, codeTick)]
  | multick ticks => [(4, codeMultick), (8, ticks)]
  | error core errCnt => [(4, codeError), (5, core), (7, errCnt)]
  | msg framing core tt data =>
      framing.head ++ [(5, core), (3, tt), (framing.length - 8, data)]

def width (frame : Frame) : Nat := fieldsWidth frame.fields

/-- A message that the parser yields as it is. -/
def Valid : Frame → Prop
  | msg framing core _ _ => framing.Valid ∧ core ≠ coreSkip
  | _ => True

instance (frame : Frame) : Decidable frame.Valid := by
  cases frame <;> unfold Valid <;> infer_instance

/-- What the parser yields for the message at `pos`. -/
def items (pos : Nat) : Frame → List RawMessage
  | tick => [.tick pos]
  | multick ticks => if ticks ≠ 0 then [.multick pos ticks] else []
  | error core errCnt => [.error pos core errCnt]
  | msg framing core tt data => [.msg pos core tt data (framing.length - 8)]

/-- What a scan does with the message. -/
def apply (tickMode final : Bool) (s : Scan) (frame : Frame) : Scan :=
  (frame.items 0).foldl (process tickMode final) s

end Frame

variable {big stop pos length : Nat} {framing : Framing} {frame : Frame} {frames : List Frame}
  {tickMode final : Bool} {s : Scan}

theorem Framing.eight_le_length (valid : framing.Valid) : 8 ≤ framing.length := by
  cases framing with
  | symlength code =>
      have known : (symlenBits code).isSome := valid
      obtain ⟨length, found⟩ := Option.isSome_iff_exists.mp known
      have spec : 8 ≤ length := by
        unfold symlenBits at found
        split at found <;> simp_all <;> omega
      simpa [Framing.length, symlen, found] using spec
  | absize length => exact valid.1

/-- The length field leads to the body. -/
theorem parseStep_framing
    (valid : framing.Valid)
    (reads : Reads big pos framing.head)
    (fits : pos + fieldsWidth framing.head ≤ stop) :
    parseStep big stop pos =
      parseBody big stop pos (pos + fieldsWidth framing.head) framing.length := by
  cases framing with
  | symlength code =>
      have known : (symlenBits code).isSome := valid
      obtain ⟨length, found⟩ := Option.isSome_iff_exists.mp known
      obtain ⟨code_eq, -⟩ := reads
      have other : code ≠ codeTick ∧ code ≠ codeMultick ∧ code ≠ codeError ∧
          code ≠ codeAbsize := by
        refine ⟨?_, ?_, ?_, ?_⟩
        all_goals
          rintro rfl
          simp [symlenBits, codeTick, codeMultick, codeError, codeAbsize] at found
      unfold parseStep
      simp only [code_eq, other, if_false, found]
      simp [Framing.length, symlen, found, Framing.head]
  | absize length =>
      obtain ⟨code_eq, length_eq, -⟩ := reads
      have room : ¬stop - (pos + 4) < 8 := by
        simp only [Framing.head, fieldsWidth_cons, fieldsWidth_nil] at fits
        omega
      have notEnd : length ≠ 0xFF := Nat.ne_of_lt valid.2
      unfold parseStep
      simp only [code_eq, length_eq, codeAbsize, codeTick, codeMultick, codeError]
      simp [room, notEnd, Framing.length, Framing.head]

/-- A message with its bits in the paragraph is yielded. -/
theorem parseStep_frame
    (valid : frame.Valid)
    (reads : Reads big pos frame.fields)
    (fits : pos + frame.width ≤ stop) :
    parseStep big stop pos = .next (frame.items pos) (pos + frame.width) := by
  cases frame with
  | tick =>
      obtain ⟨code, -⟩ := reads
      simp [parseStep, code, Frame.items, Frame.width, Frame.fields]
  | multick ticks =>
      obtain ⟨code, count, -⟩ := reads
      simp only [Frame.width, Frame.fields, fieldsWidth_cons, fieldsWidth_nil] at fits
      have room : ¬stop - (pos + 4) < 8 := by omega
      simp [parseStep, code, codeMultick, codeTick, room, count, Frame.items, Frame.width,
        Frame.fields]
  | error core errCnt =>
      obtain ⟨code, core_eq, count, -⟩ := reads
      simp only [Frame.width, Frame.fields, fieldsWidth_cons, fieldsWidth_nil] at fits
      have room : ¬stop - (pos + 4) < 12 := by omega
      simp [parseStep, code, codeMultick, codeTick, codeError, room, core_eq, count, Frame.items,
        Frame.width, Frame.fields]
  | msg framing core tt data =>
      obtain ⟨valid, notSkip⟩ := valid
      have long := Framing.eight_le_length valid
      have reads : Reads big pos (framing.head ++ [(5, core), (3, tt), (framing.length - 8, data)]) :=
        reads
      have fits : pos + fieldsWidth (framing.head ++
          [(5, core), (3, tt), (framing.length - 8, data)]) ≤ stop := fits
      rw [reads_append] at reads
      rw [fieldsWidth_append] at fits
      simp only [fieldsWidth_cons, fieldsWidth_nil] at fits
      obtain ⟨head, core_eq, tt_eq, data_eq, -⟩ := reads
      have whole : framing.length ≤ stop - (pos + fieldsWidth framing.head) := by omega
      rw [parseStep_framing valid head (by omega), parseBody, if_neg (by omega),
        if_neg (by omega)]
      simp only [core_eq, if_neg notSkip]
      rw [tt_eq, show pos + fieldsWidth framing.head + 8 =
        pos + fieldsWidth framing.head + 5 + 3 by omega, data_eq]
      simp only [Frame.items, Frame.width, Frame.fields, fieldsWidth_append, fieldsWidth_cons,
        fieldsWidth_nil]
      congr 1
      omega

/-! ## Paragraphs of frames -/

/-- The fields of the frames, one after the other. -/
def framesFields (frames : List Frame) : List (Nat × Nat) := frames.flatMap Frame.fields

/-- What the parser yields for frames from `pos` on. -/
def framesItems : (pos : Nat) → List Frame → List RawMessage
  | _, [] => []
  | pos, frame :: rest => frame.items pos ++ framesItems (pos + frame.width) rest

/-- The paragraph holds the frames and then a skip that fits in it. -/
structure Holds (par : List Byte) (frames : List Frame) (closing : Framing) : Prop where
  valid : ∀ frame ∈ frames, frame.Valid
  closes : closing.Valid
  reads : Reads (fromBytes par) 0 (framesFields frames ++ (closing.head ++ [(5, coreSkip)]))
  fits : fieldsWidth (framesFields frames) + (fieldsWidth closing.head + closing.length) ≤
    8 * par.length

theorem framesFields_cons (frame : Frame) (rest : List Frame) :
    framesFields (frame :: rest) = frame.fields ++ framesFields rest := rfl

theorem Frame.four_le_width (frame : Frame) : 4 ≤ frame.width := by
  cases frame with
  | msg framing core tt data =>
      cases framing <;> simp [Frame.width, Frame.fields, Framing.head]
  | _ => simp [Frame.width, Frame.fields]

theorem Framing.four_le_head (framing : Framing) : 4 ≤ fieldsWidth framing.head := by
  cases framing <;> simp [Framing.head]

/-- The closing skip ends the paragraph. -/
theorem parseStep_skip
    (valid : framing.Valid)
    (reads : Reads big pos (framing.head ++ [(5, coreSkip)]))
    (fits : pos + (fieldsWidth framing.head + framing.length) ≤ stop) :
    parseStep big stop pos = .quit [.skip pos framing.length] := by
  have long := Framing.eight_le_length valid
  obtain ⟨head, core, -⟩ := (reads_append _ _).mp reads
  rw [parseStep_framing valid head (by omega), parseBody, if_neg (by omega), if_neg (by omega)]
  simp only [core, if_true]

theorem parseLoop_frames
    (closing : Framing)
    (valid : ∀ frame ∈ frames, frame.Valid)
    (validClosing : closing.Valid)
    (reads : Reads big pos (framesFields frames ++ (closing.head ++ [(5, coreSkip)])))
    (fits : pos + (fieldsWidth (framesFields frames) +
      (fieldsWidth closing.head + closing.length)) ≤ stop)
    (enough : stop - pos < 4 * (fuel + 1)) :
    ∃ bit, (parseLoop big stop fuel pos).1 =
      framesItems pos frames ++ [.skip bit closing.length] := by
  have head := closing.four_le_head
  have long := Framing.eight_le_length validClosing
  induction frames generalizing pos fuel with
  | nil =>
      cases fuel with
      | zero => omega
      | succ fuel =>
          have fits : pos + (fieldsWidth closing.head + closing.length) ≤ stop := by
            simpa [framesFields] using fits
          refine ⟨pos, ?_⟩
          rw [parseLoop, if_neg (by omega), parseStep_skip validClosing reads fits]
          rfl
  | cons frame rest inductionHypothesis =>
      rw [framesFields_cons, List.append_assoc, reads_append] at reads
      rw [framesFields_cons, fieldsWidth_append] at fits
      have wide : 4 ≤ fieldsWidth frame.fields := frame.four_le_width
      cases fuel with
      | zero => omega
      | succ fuel =>
          have here : pos + frame.width ≤ stop := by
            rw [Frame.width]
            omega
          have step := parseStep_frame (valid frame List.mem_cons_self) reads.1 here
          have fits' : pos + frame.width + (fieldsWidth (framesFields rest) +
              (fieldsWidth closing.head + closing.length)) ≤ stop := by
            rw [Frame.width]
            omega
          have enough' : stop - (pos + frame.width) < 4 * (fuel + 1) := by
            rw [Frame.width]
            omega
          have later : Reads big (pos + frame.width)
              (framesFields rest ++ (closing.head ++ [(5, coreSkip)])) := reads.2
          obtain ⟨bit, tail⟩ := inductionHypothesis
            (fun frame member => valid frame (List.mem_cons_of_mem _ member)) later fits' enough'
          refine ⟨bit, ?_⟩
          rw [parseLoop, if_neg (by omega), step]
          simp only [tail, framesItems, List.append_assoc]

/-- Bytes that hold frames whose fields fit. -/
theorem Holds.written
    (valid : ∀ frame ∈ frames, frame.Valid)
    (closes : framing.Valid)
    (fit : ∀ field ∈ framesFields frames ++ (framing.head ++ [(5, coreSkip)]),
      field.2 < 2 ^ field.1)
    (fits : fieldsWidth (framesFields frames) + (fieldsWidth framing.head + framing.length) ≤
      8 * count) :
    Holds (toBytes count (packBits (framesFields frames ++ (framing.head ++ [(5, coreSkip)]))))
      frames framing where
  valid := valid
  closes := closes
  reads := by
    apply reads_toBytes fit
    have long := Framing.eight_le_length closes
    simp only [fieldsWidth_append, fieldsWidth_cons, fieldsWidth_nil]
    omega
  fits := by rwa [toBytes_length]

/-- The position of a message makes no difference to the scan. -/
theorem Frame.foldl_items (pos : Nat) (s : Scan) (frame : Frame) :
    (frame.items pos).foldl (process tickMode final) s = frame.apply tickMode final s := by
  cases frame with
  | multick ticks =>
      rw [Frame.apply, Frame.items, Frame.items]
      split_ifs <;> rfl
  | _ => rfl

theorem foldl_framesItems (pos : Nat) (s : Scan) (frames : List Frame) :
    (framesItems pos frames).foldl (process tickMode final) s =
      frames.foldl (Frame.apply tickMode final) s := by
  induction frames generalizing pos s with
  | nil => rfl
  | cons frame rest inductionHypothesis =>
      rw [framesItems, List.foldl_append, Frame.foldl_items, inductionHypothesis, List.foldl_cons]

theorem Holds.parsed {closing : Framing} (holds : Holds par frames closing) :
    ∃ bit, parseParagraph par = framesItems 0 frames ++ [.skip bit closing.length] := by
  have fits : 0 + (fieldsWidth (framesFields frames) +
      (fieldsWidth closing.head + closing.length)) ≤ 8 * par.length := by
    rw [Nat.zero_add]
    exact holds.fits
  have enough : 8 * par.length - 0 < 4 * (8 * par.length / 4 + 1) := by omega
  exact parseLoop_frames closing holds.valid holds.closes holds.reads fits enough

/-- The scan of a paragraph of frames. -/
theorem Holds.scan
    {settings : Settings}
    {closing : Framing}
    (holds : Holds par frames closing)
    (d : Decoder settings)
    (gap final : Bool) :
    d.scanOf par gap final =
      frames.foldl (Frame.apply settings.tickMode final)
        (.start (d.entered par gap).clock (d.entered par gap).bases) := by
  obtain ⟨bit, parsed⟩ := holds.parsed
  rw [Decoder.scanOf, parsed, List.foldl_append, foldl_framesItems]
  rfl

end Decode
end TriCoreDap
