import TriCoreDap.Library.LapBuffer
import TriCoreDap.Library.Lists
import TriCoreDap.Library.Memory
import TriCoreDap.Library.Sender
import TriCoreDap.Trace.Drain

/-!
# The ring between the drain and the sender

`publish_flags` puts records into a ring of bytes and `dap_trace_read` takes
bytes out, on two cores and without a lock: the head is the drain's, the tail
the sender's.  `trace_begin` wants the bytes of the trace before skipped, but
the tail is not its own: it leaves the place where the new trace starts and a
flag, which the sender clears once it has moved its tail.

Loads and stores of these variables are steps of their own, and the copies go in
pieces of any length.  One step has both: the sender's move of its tail loads where
the new trace starts and stores it in the tail, which only the sender does.
-/

namespace TriCoreDap
namespace Trace

/-- `dap_trace_record_t` as it lies in memory. -/
def Record.hdr (record : Record) : List Byte :=
  wordBytes record.magic ++ wordBytes record.seq ++ wordBytes record.tramOffset ++
    [byteOf record.length 0, byteOf record.length 1, byteOf record.flags 0,
      byteOf record.flags 1] ++ wordBytes record.lost

/-- A record with a whole paragraph, the only kind that `publish_flags` frames. -/
structure WholeRecord extends Record where
  whole : words.length = wordsPerPar
  deriving DecidableEq

namespace WholeRecord

def payload (record : WholeRecord) : List Byte := record.words.flatMap wordBytes

def bytes (record : WholeRecord) : List Byte := record.hdr ++ record.payload

end WholeRecord

/-- What a record takes of the ring. -/
def recordBytes : Nat := headerBytes + paragraph

theorem Record.length_hdr (record : Record) : record.hdr.length = headerBytes := by
  simp [Record.hdr, headerBytes]

theorem WholeRecord.length_payload (record : WholeRecord) : record.payload.length = paragraph := by
  rw [payload, length_flatMap_of_forall length_wordBytes, record.whole]
  rfl

theorem WholeRecord.length_bytes (record : WholeRecord) : record.bytes.length = recordBytes := by
  rw [bytes, List.length_append, record.length_hdr, record.length_payload, recordBytes]

/-- Where the drain or a `trace_begin` stands; the two never run at once. -/
inductive Producer
  | idle
  /-- In `publish_flags`, with the bytes left to copy and the head to store. -/
  | copying (record : WholeRecord) (left : List (Nat × Byte)) (head : Nat)
  /-- In `trace_begin`, between its two stores. -/
  | beginning
  deriving DecidableEq

/-- Where the sender stands in `dap_trace_read`. -/
inductive Consumer
  | idle
  /-- The flag was set. -/
  | moving (max : Nat)
  | clearing (max : Nat)
  | loading (max : Nat)
  /-- With the cells left to copy and the bytes that are out. -/
  | copying (tail n : Nat) (left : List Nat) (out : List Byte)
  deriving DecidableEq

/-- The ring's variables and what has happened to it: the records put in, the
records put in before the latest `trace_begin` and how many of these there were,
the same for the one the sender last moved its tail for, and the bytes read since. -/
structure Ring where
  size : Nat
  cells : Nat → Byte
  head : Nat
  tail : Nat
  resetTo : Nat
  reset : Bool
  producer : Producer
  consumer : Consumer
  put : List WholeRecord
  begun : Nat
  begins : Nat
  acted : Nat
  actedOn : Nat
  got : List Byte

inductive RingStep
  | publish (record : WholeRecord)
  | copyIn (bytes : Nat)
  | storeHead
  | recordReset
  | setReset
  | read (max : Nat)
  | moveTail
  | clearReset
  | loadHead
  | copyOut (bytes : Nat)
  | storeTail

/-- `ring_put`: what is written where, and the head after it. -/
def ringPut (size head : Nat) (src : List Byte) : List (Nat × Byte) × Nat :=
  ((LapBuffer.wrapped size head src.length).zip src, (head + src.length) % size)

namespace Ring

/-- Before the first trace. -/
def fresh (size : Nat) (cells : Nat → Byte) : Ring :=
  ⟨size, cells, 0, 0, 0, false, .idle, .idle, [], 0, 0, 0, 0, []⟩

def ringUsed (ring : Ring) : Nat :=
  if ring.head ≥ ring.tail then ring.head - ring.tail
  else ring.size - ring.tail + ring.head

/-- One byte is held back so that full and empty stay distinguishable. -/
def ringFree (ring : Ring) : Nat := ring.size - 1 - ring.ringUsed

/-! ## The drain -/

/-- The space test of `publish_flags`; a record that does not fit is dropped. -/
def publish (ring : Ring) (record : WholeRecord) : Ring :=
  match ring.producer with
  | .idle =>
      if ring.ringFree ≥ headerBytes + paragraph then
        let hdr := ringPut ring.size ring.head record.hdr
        let words := ringPut ring.size hdr.2 record.payload
        { ring with producer := .copying record (hdr.1 ++ words.1) words.2 }
      else ring
  | _ => ring

def copyByteIn (ring : Ring) : Ring :=
  match ring.producer with
  | .copying record ((cell, byte) :: left) head =>
      { ring with
        cells := Function.update ring.cells cell byte
        producer := .copying record left head }
  | _ => ring

/-- The record becomes visible to the sender whole, after its bytes. -/
def storeHead (ring : Ring) : Ring :=
  match ring.producer with
  | .copying record [] head =>
      { ring with head := head, producer := .idle, put := ring.put ++ [record] }
  | _ => ring

/-! ## The start of a trace -/

def recordReset (ring : Ring) : Ring :=
  match ring.producer with
  | .idle =>
      { ring with
        resetTo := ring.head
        producer := .beginning
        begun := ring.put.length
        begins := ring.begins + 1 }
  | _ => ring

def setReset (ring : Ring) : Ring :=
  match ring.producer with
  | .beginning => { ring with reset := true, producer := .idle }
  | _ => ring

/-! ## The sender -/

def read (ring : Ring) (max : Nat) : Ring :=
  match ring.consumer with
  | .idle => { ring with consumer := if ring.reset then .moving max else .loading max }
  | _ => ring

/-- The sender acts on the latest `trace_begin`; what it has read counts from the
first time on that it does. -/
def moveTail (ring : Ring) : Ring :=
  match ring.consumer with
  | .moving max =>
      { ring with
        tail := ring.resetTo
        consumer := .clearing max
        acted := ring.begun
        actedOn := ring.begins
        got := if ring.actedOn = ring.begins then ring.got else [] }
  | _ => ring

def clearReset (ring : Ring) : Ring :=
  match ring.consumer with
  | .clearing max => { ring with reset := false, consumer := .loading max }
  | _ => ring

def loadHead (ring : Ring) : Ring :=
  match ring.consumer with
  | .loading max =>
      let used := ring.ringUsed
      let n := if used < max then used else max
      { ring with
        consumer := .copying ring.tail n (LapBuffer.wrapped ring.size ring.tail n) [] }
  | _ => ring

def copyByteOut (ring : Ring) : Ring :=
  match ring.consumer with
  | .copying tail n (cell :: left) out =>
      { ring with consumer := .copying tail n left (out ++ [ring.cells cell]) }
  | _ => ring

/-- The space is handed back only after the bytes are out. -/
def storeTail (ring : Ring) : Ring :=
  match ring.consumer with
  | .copying tail n [] out =>
      { ring with
        tail := (tail + n) % ring.size
        consumer := .idle
        got := ring.got ++ out }
  | _ => ring

/-- A step that is not the next one of its side does nothing. -/
def step (ring : Ring) : RingStep → Ring
  | .publish record => ring.publish record
  | .copyIn bytes => copyByteIn^[bytes] ring
  | .storeHead => ring.storeHead
  | .recordReset => ring.recordReset
  | .setReset => ring.setReset
  | .read max => ring.read max
  | .moveTail => ring.moveTail
  | .clearReset => ring.clearReset
  | .loadHead => ring.loadHead
  | .copyOut bytes => copyByteOut^[bytes] ring
  | .storeTail => ring.storeTail

end Ring

end Trace
end TriCoreDap
