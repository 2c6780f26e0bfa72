import Mathlib.Data.List.GetD
import TriCoreDap.Trace.Ring

/-!
# What the sender gets out of the ring

In bytes since the first trace: `stream` is what was put in, of which the sender
is past `consumed`, and `full` has the record that is being copied as well.  The
positions of the ring are these counts modulo its size, and the cells hold the
last bytes of `full` that were written.

The reset is safe where the sender moves its tail while the stream is less than
the ring ahead of the new trace's start, moves it again for the same trace only
to where it is, and does not clear the flag of a trace that it has not moved its
tail for.
-/

namespace TriCoreDap
namespace Trace
/-- The sender's copy has the next bytes of the stream so far and goes on with the
cells of those after them. -/
def Consumer.Reads (size tail consumed : Nat) (stream : List Byte) : Consumer → Prop
  | .copying start n left out =>
      start = tail ∧
        consumed + n ≤ stream.length ∧
        out.length + left.length = n ∧
        left = (List.range' (consumed + out.length) left.length).map (· % size) ∧
        out = (stream.drop consumed).take out.length
  | _ => True

/-- The drain is about to store the head for `total` bytes. -/
def Producer.Stores (size total : Nat) : Producer → Prop
  | .copying _ _ head => head = total % size
  | _ => True

/-- Bytes put in later are no part of the copy. -/
theorem Consumer.Reads.append
    {consumer : Consumer}
    (reads : consumer.Reads size tail consumed stream)
    (later : List Byte) :
    consumer.Reads size tail consumed (stream ++ later) := by
  cases consumer with
  | copying start n left out =>
      obtain ⟨start_eq, within, length_eq, left_eq, out_eq⟩ := reads
      refine ⟨start_eq, ?_, length_eq, left_eq, ?_⟩
      · rw [List.length_append]
        omega
      · rw [List.drop_append_of_le_length (by omega),
          List.take_append_of_le_length (by rw [List.length_drop]; omega)]
        exact out_eq
  | idle | moving | clearing | loading => trivial

namespace Ring

/-- The bytes of the records put into the ring. -/
def stream (ring : Ring) : List Byte := ring.put.flatMap WholeRecord.bytes

/-- The record that is being put in. -/
def pending (ring : Ring) : List Byte :=
  match ring.producer with
  | .copying record _ _ => record.bytes
  | _ => []

/-- The bytes of it that are left to copy. -/
def left (ring : Ring) : List (Nat × Byte) :=
  match ring.producer with
  | .copying _ left _ => left
  | _ => []

def full (ring : Ring) : List Byte := ring.stream ++ ring.pending

/-- How many bytes are in the cells or were. -/
def written (ring : Ring) : Nat := ring.full.length - ring.left.length

/-- The byte of the stream that the sender comes to next. -/
def consumed (ring : Ring) : Nat := ring.acted * recordBytes + ring.got.length

/-- What a read of all that is there would give. -/
def unread (ring : Ring) : List Byte :=
  (LapBuffer.wrapped ring.size ring.tail ring.ringUsed).map ring.cells

/-- What the ring promises in every state. -/
structure Safe (ring : Ring) : Prop where
  bounded : ring.ringUsed ≤ ring.size - 1
  /-- No unread byte lies where the record that is being put in goes. -/
  room : ring.full.length ≤ ring.consumed + (ring.size - 1)
  /-- The rest of the records, whole and as they were put in. -/
  unread : ring.unread = ring.stream.drop ring.consumed
  /-- With no start of a trace under way the sender has acted on the latest one. -/
  latest : ring.reset = false → ring.producer ≠ .beginning → ring.actedOn = ring.begins
  /-- What was read since is the beginning of what was put in since that start. -/
  got : ring.got <+: (ring.put.drop ring.acted).flatMap WholeRecord.bytes

/-- The sender is about to move its tail for a reset. -/
def moves (ring : Ring) : Bool :=
  match ring.consumer with
  | .moving _ => true
  | _ => false

/-- The sender is about to clear the flag. -/
def clears (ring : Ring) : Bool :=
  match ring.consumer with
  | .clearing _ => true
  | _ => false

/-- The step does not spoil the reset. -/
def Allowed (ring : Ring) : RingStep → Prop
  | .moveTail =>
      ring.moves = true →
        if ring.actedOn = ring.begins then ring.tail = ring.resetTo
        else ring.full.length < ring.begun * recordBytes + ring.size
  | .clearReset =>
      ring.clears = true → ring.actedOn = ring.begins ∨ ring.producer = .beginning
  | _ => True

instance (ring : Ring) : (step : RingStep) → Decidable (ring.Allowed step)
  | .moveTail => inferInstanceAs (Decidable (_ → _))
  | .clearReset => inferInstanceAs (Decidable (_ → _))
  | .publish _ | .copyIn _ | .storeHead | .recordReset | .setReset | .read _ | .loadHead
  | .copyOut _ | .storeTail => inferInstanceAs (Decidable True)

/-! ## The invariant -/

structure Kept (ring : Ring) : Prop where
  positive : 0 < ring.size
  head_eq : ring.head = ring.stream.length % ring.size
  tail_eq : ring.tail = ring.consumed % ring.size
  resetTo_eq : ring.resetTo = ring.begun * recordBytes % ring.size
  begun_le : ring.begun ≤ ring.put.length
  consumed_le : ring.consumed ≤ ring.stream.length
  fits : ring.full.length < ring.consumed + ring.size
  stream_le : ring.stream.length ≤ ring.written
  left_eq : ring.left = writesFrom (· % ring.size) ring.written (ring.full.drop ring.written)
  stores : ring.producer.Stores ring.size ring.full.length
  holds : LapBuffer.Holds ring.size ring.written (fun item => ring.full.getD item 0) ring.cells
  got_eq : ring.got = (ring.stream.drop (ring.acted * recordBytes)).take ring.got.length
  reads : ring.consumer.Reads ring.size ring.tail ring.consumed ring.stream
  latest : ring.reset = false → ring.producer ≠ .beginning → ring.actedOn = ring.begins
  actedOn_le : ring.actedOn ≤ ring.begins
  acted_eq : ring.actedOn = ring.begins → ring.acted = ring.begun

/-- No record is being put in. -/
structure Quiet (ring : Ring) : Prop where
  pending_eq : ring.pending = []
  left_eq : ring.left = []

namespace Quiet

variable {ring : Ring}

theorem of_idle (idle : ring.producer = .idle) : ring.Quiet := by
  constructor
  · rw [pending, idle]
  · rw [left, idle]

theorem of_beginning (beginning : ring.producer = .beginning) : ring.Quiet := by
  constructor
  · rw [pending, beginning]
  · rw [left, beginning]

theorem full_eq (quiet : ring.Quiet) : ring.full = ring.stream := by
  rw [full, quiet.pending_eq, List.append_nil]

theorem written_eq (quiet : ring.Quiet) : ring.written = ring.full.length := by
  rw [written, quiet.left_eq, List.length_nil, Nat.sub_zero]

/-- All of it is written. -/
theorem writes_eq (quiet : ring.Quiet) :
    ring.left = writesFrom (· % ring.size) ring.written (ring.full.drop ring.written) := by
  rw [quiet.left_eq, quiet.written_eq, List.drop_length]
  rfl

end Quiet

theorem length_stream (ring : Ring) : ring.stream.length = ring.put.length * recordBytes :=
  length_flatMap_of_forall WholeRecord.length_bytes ring.put

theorem length_full (ring : Ring) :
    ring.full.length = ring.stream.length + ring.pending.length :=
  List.length_append

namespace Kept

variable {ring : Ring}

/-- The used count is exact. -/
theorem ringUsed_eq (kept : ring.Kept) : ring.ringUsed = ring.stream.length - ring.consumed := by
  have fits := kept.fits
  rw [ring.length_full] at fits
  rw [ringUsed, kept.head_eq, kept.tail_eq]
  exact LapBuffer.distance_mod_if kept.consumed_le (by omega)

/-- A byte that was put in and not read is in its cell. -/
theorem cell_eq
    (kept : ring.Kept)
    {item : Nat}
    (unread : ring.consumed ≤ item)
    (inStream : item < ring.stream.length) :
    ring.cells (item % ring.size) = ring.stream.getD item 0 := by
  have fits := kept.fits
  have within := kept.stream_le
  rw [kept.holds item (by omega) (by unfold written; omega)]
  exact List.getD_append _ _ _ _ inStream

theorem unread_eq (kept : ring.Kept) : ring.unread = ring.stream.drop ring.consumed := by
  have fits := kept.fits
  rw [ring.length_full] at fits
  rw [unread, kept.ringUsed_eq, kept.tail_eq, LapBuffer.wrapped_mod kept.positive (by omega),
    List.map_map]
  apply List.ext_getElem
  · rw [List.length_map, List.length_range', List.length_drop]
  · intro index inside _
    rw [List.length_map, List.length_range'] at inside
    rw [List.getElem_map, List.getElem_range', Nat.one_mul, Function.comp,
      kept.cell_eq (by omega) (by omega), List.getElem_drop, List.getD_eq_getElem]

theorem safe (kept : ring.Kept) : ring.Safe where
  bounded := by
    have fits := kept.fits
    rw [ring.length_full] at fits
    rw [kept.ringUsed_eq]
    omega
  room := by
    have fits := kept.fits
    have positive := kept.positive
    omega
  unread := kept.unread_eq
  latest := kept.latest
  got := by
    rw [← drop_flatMap_of_forall WholeRecord.length_bytes, kept.got_eq]
    exact List.take_prefix _ _

end Kept

theorem kept_fresh {size : Nat} (positive : 0 < size) (cells : Nat → Byte) :
    (fresh size cells).Kept where
  positive := positive
  head_eq := (Nat.zero_mod size).symm
  tail_eq := by simp [fresh, consumed]
  resetTo_eq := by simp [fresh]
  begun_le := Nat.le_refl 0
  consumed_le := by simp [fresh, consumed]
  fits := by simpa [fresh, consumed, full, stream, pending] using positive
  stream_le := by simp [fresh, stream]
  left_eq := by simp [fresh, left, full, stream, pending, writesFrom]
  stores := trivial
  holds := by
    intro item before
    simp [fresh, written, full, stream, pending] at before
  got_eq := by simp [fresh]
  reads := trivial
  latest := fun _ _ => rfl
  actedOn_le := Nat.le_refl 0
  acted_eq := fun _ => rfl

/-! ## The steps of the drain -/

/-- A `ring_put` goes to the cells of the next bytes. -/
theorem ringPut_mod
    {size : Nat}
    (positive : 0 < size)
    (position : Nat)
    (src : List Byte)
    (fits : src.length ≤ size) :
    ringPut size (position % size) src =
      (writesFrom (· % size) position src, (position + src.length) % size) := by
  rw [ringPut, LapBuffer.wrapped_mod positive fits, writesFrom_eq_zip, Nat.mod_add_mod]

/-- A record that is not dropped fits before the unread bytes and goes to the cells
after the last ones. -/
theorem publish_cases {ring : Ring} (kept : ring.Kept) (record : WholeRecord) :
    ring.publish record = ring ∨
      (ring.producer = .idle ∧ ring.stream.length + recordBytes < ring.consumed + ring.size ∧
        ring.publish record =
          { ring with
            producer := .copying record
              (writesFrom (· % ring.size) ring.stream.length record.bytes)
              ((ring.stream.length + record.bytes.length) % ring.size) }) := by
  unfold publish
  split
  · next idle =>
    split
    · next free =>
      right
      have positive := kept.positive
      have consumed_le := kept.consumed_le
      have length_hdr := record.length_hdr
      have length_payload := record.length_payload
      rw [ringFree, kept.ringUsed_eq] at free
      have hdr : ringPut ring.size ring.head record.hdr =
          (writesFrom (· % ring.size) ring.stream.length record.hdr,
            (ring.stream.length + record.hdr.length) % ring.size) := by
        rw [kept.head_eq]
        exact ringPut_mod positive _ _ (by omega)
      have words : ringPut ring.size ((ring.stream.length + record.hdr.length) % ring.size)
          record.payload =
          (writesFrom (· % ring.size) (ring.stream.length + record.hdr.length) record.payload,
            (ring.stream.length + record.hdr.length + record.payload.length) % ring.size) :=
        ringPut_mod positive _ _ (by omega)
      refine ⟨idle, ?_, ?_⟩
      · have some : 0 < headerBytes := by decide
        unfold recordBytes
        omega
      · dsimp only
        rw [hdr]
        dsimp only
        rw [words, ← writesFrom_append, WholeRecord.bytes, List.length_append, Nat.add_assoc]
    · exact Or.inl rfl
  · exact Or.inl rfl

theorem kept_publish {ring : Ring} (kept : ring.Kept) (record : WholeRecord) :
    (ring.publish record).Kept := by
  obtain same | ⟨idle, fits, publish_eq⟩ := publish_cases kept record
  · rwa [same]
  · have quiet := Quiet.of_idle idle
    have length_eq := record.length_bytes
    rw [publish_eq]
    set next : Ring :=
      { ring with
        producer := .copying record
          (writesFrom (· % ring.size) ring.stream.length record.bytes)
          ((ring.stream.length + record.bytes.length) % ring.size) }
    have next_full : next.full = ring.stream ++ record.bytes := rfl
    have next_written : next.written = ring.stream.length := by
      rw [written, next_full, List.length_append]
      change _ - (writesFrom _ _ _).length = _
      rw [length_writesFrom, Nat.add_sub_cancel]
    exact
      { kept with
        fits := by
          rw [next_full, List.length_append, length_eq]
          exact fits
        stream_le := next_written.ge
        left_eq := by
          rw [next_written, next_full, List.drop_left]
          rfl
        stores := by
          rw [next_full, List.length_append]
          rfl
        holds := by
          rw [next_written]
          have holds := kept.holds
          rw [quiet.written_eq, quiet.full_eq] at holds
          refine holds.congr fun item before => ?_
          rw [next_full, List.getD_append _ _ _ _ before]
        latest := fun cleared _ => kept.latest cleared (by simp [idle]) }

theorem kept_copyByteIn {ring : Ring} (kept : ring.Kept) : ring.copyByteIn.Kept := by
  unfold copyByteIn
  split
  · next record cell byte rest head copying =>
    have left_eq : ring.left = (cell, byte) :: rest := by rw [left, copying]
    have full_eq : ring.full = ring.stream ++ record.bytes := by rw [full, pending, copying]
    have writes := kept.left_eq
    have written_eq : ring.written = ring.full.length - (rest.length + 1) := by
      rw [written, left_eq, List.length_cons]
    have length_eq := congrArg List.length writes
    rw [left_eq, length_writesFrom, List.length_drop, List.length_cons] at length_eq
    have inFull : ring.written < ring.full.length := by omega
    rw [left_eq, List.drop_eq_getElem_cons inFull, writesFrom] at writes
    obtain ⟨first, later⟩ := List.cons_eq_cons.mp writes
    obtain ⟨rfl, rfl⟩ := Prod.mk.inj first
    set next : Ring :=
      { ring with
        cells := Function.update ring.cells (ring.written % ring.size) ring.full[ring.written]
        producer := .copying record rest head }
    have next_full : next.full = ring.full := full_eq.symm
    have next_written : next.written = ring.written + 1 := by
      rw [written, next_full]
      change ring.full.length - rest.length = _
      omega
    have source : ring.full.getD ring.written 0 = ring.full[ring.written] :=
      List.getD_eq_getElem _ _ inFull
    exact
      { kept with
        fits := by
          rw [next_full]
          exact kept.fits
        stream_le := by
          rw [next_written]
          exact Nat.le_succ_of_le kept.stream_le
        left_eq := by
          rw [next_written, next_full]
          exact later
        stores := by
          have stores := kept.stores
          rw [copying] at stores
          rw [next_full]
          exact stores
        holds := by
          rw [next_written, next_full]
          have holds := kept.holds.write
          rw [source] at holds
          exact holds
        latest := fun cleared _ => kept.latest cleared (by simp [copying]) }
  · exact kept

/-- The record that was put in follows the others. -/
theorem kept_storeHead {ring : Ring} (kept : ring.Kept) : ring.storeHead.Kept := by
  unfold storeHead
  split
  · next record head copying =>
    have full_eq : ring.full = ring.stream ++ record.bytes := by rw [full, pending, copying]
    have written_eq : ring.written = ring.full.length := by
      rw [written, left, copying, List.length_nil, Nat.sub_zero]
    have longer : ring.stream.length ≤ ring.full.length := by
      rw [ring.length_full]
      exact Nat.le_add_right _ _
    have consumed_le := kept.consumed_le
    set next : Ring :=
      { ring with head := head, producer := .idle, put := ring.put ++ [record] }
    have quiet : next.Quiet := Quiet.of_idle rfl
    have next_stream : next.stream = ring.full := by
      rw [full_eq]
      simp [next, stream]
    have next_full : next.full = ring.full := quiet.full_eq.trans next_stream
    have next_written : next.written = ring.written := by
      rw [quiet.written_eq, next_full, written_eq]
    exact
      { kept with
        head_eq := by
          have stores := kept.stores
          rw [copying] at stores
          rw [next_stream]
          exact stores
        begun_le := by
          have begun_le := kept.begun_le
          change ring.begun ≤ (ring.put ++ [record]).length
          rw [List.length_append]
          omega
        consumed_le := by
          rw [next_stream]
          exact Nat.le_trans consumed_le longer
        fits := by
          rw [next_full]
          exact kept.fits
        stream_le := by
          rw [next_stream, next_written, written_eq]
        left_eq := quiet.writes_eq
        stores := trivial
        holds := by
          rw [next_written, next_full]
          exact kept.holds
        got_eq := by
          unfold consumed at consumed_le
          have next_got : next.got = ring.got := rfl
          have next_acted : next.acted = ring.acted := rfl
          rw [next_stream, next_got, next_acted, full_eq,
            List.drop_append_of_le_length (by omega),
            List.take_append_of_le_length (by rw [List.length_drop]; omega)]
          exact kept.got_eq
        reads := by
          rw [next_stream, full_eq]
          exact kept.reads.append record.bytes
        latest := fun cleared _ => kept.latest cleared (by simp [copying]) }
  · exact kept

/-! ## The steps of `trace_begin` -/

/-- The new trace starts after the last record. -/
theorem kept_recordReset {ring : Ring} (kept : ring.Kept) : ring.recordReset.Kept := by
  unfold recordReset
  split
  · next idle =>
    have quiet := Quiet.of_idle idle
    set next : Ring :=
      { ring with
        resetTo := ring.head
        producer := .beginning
        begun := ring.put.length
        begins := ring.begins + 1 }
    have next_quiet : next.Quiet := Quiet.of_beginning rfl
    have next_full : next.full = ring.full := next_quiet.full_eq.trans quiet.full_eq.symm
    have next_written : next.written = ring.written := by
      rw [next_quiet.written_eq, next_full, quiet.written_eq]
    have actedOn_le := kept.actedOn_le
    exact
      { kept with
        resetTo_eq := by
          have head_eq := kept.head_eq
          rw [ring.length_stream] at head_eq
          exact head_eq
        begun_le := Nat.le_refl _
        fits := by
          rw [next_full]
          exact kept.fits
        stream_le := by
          rw [next_written]
          exact kept.stream_le
        left_eq := next_quiet.writes_eq
        stores := trivial
        holds := by
          rw [next_written, next_full]
          exact kept.holds
        latest := fun _ under => absurd rfl under
        actedOn_le := Nat.le_succ_of_le actedOn_le
        acted_eq := by
          intro same
          have next_begins : next.begins = ring.begins + 1 := rfl
          have next_actedOn : next.actedOn = ring.actedOn := rfl
          omega }
  · exact kept

theorem kept_setReset {ring : Ring} (kept : ring.Kept) : ring.setReset.Kept := by
  unfold setReset
  split
  · next beginning =>
    have quiet := Quiet.of_beginning beginning
    set next : Ring := { ring with reset := true, producer := .idle }
    have next_quiet : next.Quiet := Quiet.of_idle rfl
    have next_full : next.full = ring.full := next_quiet.full_eq.trans quiet.full_eq.symm
    have next_written : next.written = ring.written := by
      rw [next_quiet.written_eq, next_full, quiet.written_eq]
    exact
      { kept with
        fits := by
          rw [next_full]
          exact kept.fits
        stream_le := by
          rw [next_written]
          exact kept.stream_le
        left_eq := next_quiet.writes_eq
        stores := trivial
        holds := by
          rw [next_written, next_full]
          exact kept.holds
        latest := nofun }
  · exact kept

/-! ## The steps of the sender -/

theorem kept_read {ring : Ring} (kept : ring.Kept) (max : Nat) : (ring.read max).Kept := by
  unfold read
  split
  · exact
      { kept with
        reads := by
          dsimp only
          split <;> trivial }
  · exact kept

/-- Before a new start nothing after it was read; the tail goes back to no byte. -/
theorem kept_moveTail {ring : Ring} (kept : ring.Kept) (allowed : ring.Allowed .moveTail) :
    ring.moveTail.Kept := by
  unfold moveTail
  split
  · next max moving =>
    have condition := allowed (by rw [moves, moving])
    by_cases again : ring.actedOn = ring.begins
    · rw [if_pos again] at condition ⊢
      have same :
          ({ ring with
              tail := ring.resetTo
              consumer := .clearing max
              acted := ring.begun
              actedOn := ring.begins } : Ring) = { ring with consumer := .clearing max } := by
        simp [condition, kept.acted_eq again, again]
      rw [same]
      exact { kept with reads := trivial }
    · rw [if_neg again] at condition ⊢
      set next : Ring :=
        { ring with
          tail := ring.resetTo
          consumer := .clearing max
          acted := ring.begun
          actedOn := ring.begins
          got := [] }
      have next_tail : next.tail = ring.resetTo := rfl
      have next_size : next.size = ring.size := rfl
      have next_got : next.got = [] := rfl
      have next_consumed : next.consumed = ring.begun * recordBytes := by
        rw [consumed, next_got, List.length_nil, Nat.add_zero]
      exact
        { kept with
          tail_eq := by
            rw [next_tail, next_consumed, next_size, kept.resetTo_eq]
          consumed_le := by
            rw [next_consumed, length_stream]
            exact Nat.mul_le_mul_right _ kept.begun_le
          fits := by
            rw [next_consumed]
            exact condition
          got_eq := by rw [next_got, List.length_nil, List.take_zero]
          reads := trivial
          latest := fun _ _ => rfl
          actedOn_le := Nat.le_refl _
          acted_eq := fun _ => rfl }
  · exact kept

theorem kept_clearReset {ring : Ring} (kept : ring.Kept) (allowed : ring.Allowed .clearReset) :
    ring.clearReset.Kept := by
  unfold clearReset
  split
  · next max clearing =>
    have condition := allowed (by rw [clears, clearing])
    exact
      { kept with
        reads := trivial
        latest := fun _ under => condition.resolve_right under }
  · exact kept

theorem kept_loadHead {ring : Ring} (kept : ring.Kept) : ring.loadHead.Kept := by
  unfold loadHead
  split
  · next max loading =>
    have used := kept.ringUsed_eq
    have consumed_le := kept.consumed_le
    have fits := kept.fits
    rw [ring.length_full] at fits
    have atMost : (if ring.ringUsed < max then ring.ringUsed else max) ≤ ring.ringUsed := by
      split <;> omega
    have cells_eq :
        LapBuffer.wrapped ring.size ring.tail (if ring.ringUsed < max then ring.ringUsed else max) =
          (List.range' ring.consumed (if ring.ringUsed < max then ring.ringUsed else max)).map
            (· % ring.size) := by
      rw [kept.tail_eq]
      exact LapBuffer.wrapped_mod kept.positive (by omega)
    exact
      { kept with
        reads := by
          refine ⟨rfl, ?_, ?_, ?_, rfl⟩
          · change ring.consumed + _ ≤ ring.stream.length
            omega
          · rw [cells_eq]
            simp
          · rw [cells_eq]
            simp
            rfl }
  · exact kept

/-- The byte that is copied next is the next one of the stream. -/
theorem kept_copyByteOut {ring : Ring} (kept : ring.Kept) : ring.copyByteOut.Kept := by
  unfold copyByteOut
  split
  · next start n cell rest out copying =>
    have reads := kept.reads
    rw [copying] at reads
    obtain ⟨start_eq, within, length_eq, left_eq, out_eq⟩ := reads
    rw [List.length_cons, List.range'_succ, List.map_cons] at left_eq
    obtain ⟨rfl, rest_eq⟩ := List.cons_eq_cons.mp left_eq
    rw [List.length_cons] at length_eq
    have inStream : ring.consumed + out.length < ring.stream.length := by omega
    have byte := kept.cell_eq (Nat.le_add_right _ _) inStream
    rw [List.getD_eq_getElem _ _ inStream] at byte
    exact
      { kept with
        reads := by
          refine ⟨start_eq, within, ?_, ?_, ?_⟩
          · rw [List.length_append, List.length_singleton]
            omega
          · rw [List.length_append, List.length_singleton, ← Nat.add_assoc]
            exact rest_eq
          · rw [List.length_append, List.length_singleton, byte]
            change _ = (ring.stream.drop ring.consumed).take _
            rw [List.take_add_one, ← out_eq, List.getElem?_drop, List.getElem?_eq_getElem inStream]
            rfl }
  · exact kept

theorem kept_storeTail {ring : Ring} (kept : ring.Kept) : ring.storeTail.Kept := by
  unfold storeTail
  split
  · next start n out copying =>
    have reads := kept.reads
    rw [copying] at reads
    obtain ⟨start_eq, within, length_eq, -, out_eq⟩ := reads
    have length_out : out.length = n := length_eq
    set next : Ring :=
      { ring with
        tail := (start + n) % ring.size
        consumer := .idle
        got := ring.got ++ out }
    have next_consumed : next.consumed = ring.consumed + n := by
      rw [consumed, show next.got = ring.got ++ out from rfl, List.length_append, length_out,
        consumed, Nat.add_assoc]
    have fits := kept.fits
    exact
      { kept with
        tail_eq := by
          rw [next_consumed, ← Nat.mod_add_mod, ← kept.tail_eq, ← start_eq]
        consumed_le := by
          rw [next_consumed]
          exact within
        fits := by
          rw [next_consumed]
          change ring.full.length < _ + ring.size
          omega
        got_eq := by
          have next_got : next.got = ring.got ++ out := rfl
          have next_acted : next.acted = ring.acted := rfl
          have next_stream : next.stream = ring.stream := rfl
          unfold consumed at out_eq
          rw [next_got, next_acted, next_stream, List.length_append, List.take_add,
            ← kept.got_eq, List.drop_drop, ← out_eq]
        reads := trivial }
  · exact kept

/-! ## Runs -/

theorem kept_step
    (ring : Ring)
    (step : RingStep)
    (kept : ring.Kept)
    (allowed : ring.Allowed step) : (ring.step step).Kept := by
  cases step with
  | publish record => exact kept_publish kept record
  | copyIn bytes =>
      exact Function.Iterate.rec Kept kept (fun _ => kept_copyByteIn) bytes
  | storeHead => exact kept_storeHead kept
  | recordReset => exact kept_recordReset kept
  | setReset => exact kept_setReset kept
  | read max => exact kept_read kept max
  | moveTail => exact kept_moveTail kept allowed
  | clearReset => exact kept_clearReset kept allowed
  | loadHead => exact kept_loadHead kept
  | copyOut bytes =>
      exact Function.Iterate.rec Kept kept (fun _ => kept_copyByteOut) bytes
  | storeTail => exact kept_storeTail kept

theorem Safe.ringUsed_eq {ring : Ring} (safe : ring.Safe) :
    ring.ringUsed = ring.stream.length - ring.consumed := by
  have length_eq := congrArg List.length safe.unread
  rwa [Ring.unread, List.length_map, LapBuffer.length_wrapped, List.length_drop] at length_eq

/-- The used count tells the tails apart. -/
theorem eq_of_ringUsed_eq
    {ring next : Ring}
    (same : next.ringUsed = ring.ringUsed)
    (size_eq : next.size = ring.size)
    (head_eq : next.head = ring.head)
    (tail_lt : ring.tail < ring.size)
    (next_tail_lt : next.tail < ring.size) : ring.tail = next.tail := by
  unfold ringUsed at same
  rw [size_eq, head_eq] at same
  split_ifs at same <;> omega

/-- A step that is not allowed moves the tail back into what was read, so far back that
unread bytes are in reach, or loses the start of a trace. -/
theorem not_safe_step
    (ring : Ring)
    (step : RingStep)
    (kept : ring.Kept)
    (forbidden : ¬ring.Allowed step) : ¬(ring.step step).Safe := by
  intro safe
  cases step with
  | moveTail =>
      rw [Allowed, Classical.not_imp] at forbidden
      obtain ⟨moves, forbidden⟩ := forbidden
      cases consumer : ring.consumer with
      | moving max =>
          by_cases again : ring.actedOn = ring.begins
          · rw [if_pos again] at forbidden
            rw [Ring.step, moveTail, consumer] at safe
            dsimp only at safe
            rw [if_pos again, ← kept.acted_eq again] at safe
            have used := safe.ringUsed_eq.trans kept.ringUsed_eq.symm
            have tail_lt : ring.tail < ring.size := by
              rw [kept.tail_eq]
              exact Nat.mod_lt _ kept.positive
            have resetTo_lt : ring.resetTo < ring.size := by
              rw [kept.resetTo_eq]
              exact Nat.mod_lt _ kept.positive
            exact forbidden (eq_of_ringUsed_eq used rfl rfl tail_lt resetTo_lt)
          · rw [if_neg again] at forbidden
            rw [Ring.step, moveTail, consumer] at safe
            dsimp only at safe
            rw [if_neg again] at safe
            have room := safe.room
            have positive := kept.positive
            change ring.full.length ≤ ring.begun * recordBytes + 0 + (ring.size - 1) at room
            omega
      | idle | clearing | loading | copying => simp [Ring.moves, consumer] at moves
  | clearReset =>
      rw [Allowed, Classical.not_imp, not_or] at forbidden
      obtain ⟨clears, stale, notUnder⟩ := forbidden
      cases consumer : ring.consumer with
      | clearing max =>
          rw [Ring.step, clearReset, consumer] at safe
          exact stale (safe.latest rfl notUnder)
      | idle | moving | loading | copying => simp [Ring.clears, consumer] at clears
  | publish | copyIn | storeHead | recordReset | setReset | read | loadHead | copyOut
  | storeTail => exact forbidden trivial

/-- All along a run the reset is safe exactly where no step spoils it. -/
theorem ring_safe_iff
    {size : Nat}
    (positive : 0 < size)
    (cells : Nat → Byte)
    (steps : List RingStep) :
    (∀ visited ∈ visits Ring.step (fresh size cells) steps, visited.Safe) ↔
      Along Ring.step Allowed (fresh size cells) steps :=
  visits_good_iff kept_step (fun _ => Kept.safe) not_safe_step (kept_fresh positive cells) steps

/-- The smallest of the ring's sizes. -/
def smallRing : Ring := fresh (64 * 1024) fun _ => 0

/-- The first paragraph of a trace, all zeros. -/
def zeroRecord : WholeRecord where
  magic := Trace.magic
  seq := 0
  tramOffset := 0
  length := paragraph
  flags := 0
  lost := 0
  words := List.replicate wordsPerPar 0
  whole := List.length_replicate

/-- Two traces with a record each.  The first one's is read in part, and the sender is
within the second one's. -/
def restarted : List RingStep :=
  [.recordReset, .setReset, .publish zeroRecord, .copyIn recordBytes, .storeHead, .read 24,
    .moveTail, .clearReset, .loadHead, .copyOut 24, .storeTail, .recordReset, .setReset,
    .publish zeroRecord, .copyIn recordBytes, .storeHead, .read 4096, .moveTail, .clearReset,
    .loadHead, .copyOut 500]

def afterRestarted : Ring := restarted.foldl Ring.step smallRing

set_option maxRecDepth 20000 in
theorem ring_safe_iff_restarted :
    (afterRestarted.put.length = 2 ∧ afterRestarted.acted = 1 ∧
      afterRestarted.ringUsed = recordBytes) ∧ afterRestarted.Safe :=
  ⟨by decide +kernel, (ring_safe_iff (by decide) (fun _ => 0) restarted).mpr (by decide +kernel) _
    (foldl_mem_visits _ _ _)⟩

/-! A trace that starts between the two stores of the sender's reset: -/

/-- A trace puts a record in and the sender moves its tail; a second trace starts
before the sender clears the flag. -/
def lostReset : List RingStep :=
  [.recordReset, .setReset, .publish zeroRecord, .copyIn recordBytes, .storeHead, .read 4096,
    .moveTail, .recordReset, .setReset, .clearReset, .loadHead, .copyOut 1044, .storeTail]

def afterLostReset : Ring := lostReset.foldl Ring.step smallRing

set_option maxRecDepth 20000 in
theorem lostReset_stale :
    (afterLostReset.reset = false ∧ afterLostReset.producer = .idle ∧
      afterLostReset.got.take 4 = wordBytes magic ∧
      afterLostReset.put.drop afterLostReset.begun = []) ∧
    ¬∀ visited ∈ visits Ring.step smallRing lostReset, visited.Safe := by
  have stale :
      (afterLostReset.reset = false ∧ afterLostReset.producer = .idle ∧
        afterLostReset.got.take 4 = wordBytes magic ∧
        afterLostReset.put.drop afterLostReset.begun = []) ∧
      afterLostReset.actedOn ≠ afterLostReset.begins := by
    decide +kernel
  refine ⟨stale.1, fun safe => stale.2 ?_⟩
  obtain ⟨⟨cleared, idle, -⟩, -⟩ := stale
  exact (safe _ (foldl_mem_visits _ _ _)).latest cleared (idle ▸ nofun)

end Ring
end Trace
end TriCoreDap
