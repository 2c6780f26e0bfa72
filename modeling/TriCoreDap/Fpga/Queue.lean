import TriCoreDap.Fpga.Crossing

/-!
# A queue with a registered head

What the reply FIFO is to the SPI slave: bytes in order, a view of how many there are
that may be behind, and the head and the level as of the edge before.
-/

namespace TriCoreDap
namespace Fpga

/-- All bytes ever pushed, how many of them the reader sees, and how many it popped. -/
structure Queue where
  stored : List (BitVec 8)
  seen : Nat
  popped : Nat
  level : Nat
  head : BitVec 8
  deriving DecidableEq

namespace Queue

def push (q : Queue) (byte : BitVec 8) : Queue := { q with stored := q.stored ++ [byte] }

/-- The byte at a position that the reader sees; `junk` elsewhere. -/
def byteAt (q : Queue) (junk : BitVec 8) (index : Nat) : BitVec 8 :=
  if index < q.seen then q.stored.getD index junk else junk

/-- An edge of the reader's clock, after which it sees `seen` bytes. -/
def edge (q : Queue) (pop ahead : Bool) (seen : Nat) (junk : BitVec 8) : Queue where
  stored := q.stored
  seen := seen
  popped := if pop = true ∧ q.popped < q.seen then q.popped + 1 else q.popped
  level := q.seen - q.popped
  head := q.byteAt junk (if ahead then q.popped + 1 else q.popped)

/-- The bytes not yet popped fit into the memory, and no more are seen than there are. -/
structure Fits (AW : Nat) (q : Queue) : Prop where
  popped_le : q.popped ≤ q.seen
  seen_le : q.seen ≤ q.stored.length
  stored_le : q.stored.length ≤ q.popped + 2 ^ AW

end Queue

variable {AW : Nat}

namespace Passage

variable {p : Passage AW} {v : Views} {m : Moment AW} {q : Queue}

/-- The reply FIFO as its reader has it. -/
structure Serves (p : Passage AW) (v : Views) (q : Queue) : Prop where
  follows : p.Follows v
  stored : q.stored = p.offered
  seen : q.seen = v.wrBinR
  popped : q.popped = p.taken.length
  level : q.level = p.fifo.rdLevel.toNat
  head : q.head = p.fifo.head

theorem Serves.fits (serves : p.Serves v q) : q.Fits AW := by
  obtain ⟨rd_le, le_seen, seen_le, near⟩ := serves.follows.bounds
  constructor
  · rwa [serves.popped, serves.seen]
  · rwa [serves.seen, serves.stored]
  · rw [serves.popped, serves.stored]
    omega

theorem rdLevel_moment :
    (p.fifo.moment m).rdLevel = if m.sck.isSome then p.fifo.level else p.fifo.rdLevel := by
  have apart (fifo : ReplyFifo AW) (clear : Bool) (e : FabricEdge AW) :
      (fifo.writeEdge clear e).rdLevel = fifo.rdLevel := by
    unfold ReplyFifo.writeEdge
    split_ifs <;> rfl
  have read : (p.fifo.readEdge m.clear m.sck).rdLevel =
      if m.sck.isSome then p.fifo.level else p.fifo.rdLevel := by
    unfold ReplyFifo.readEdge
    cases m.sck with
    | none =>
        rw [Option.isSome_none, if_neg Bool.false_ne_true]
        split_ifs <;> rfl
    | some e => rfl
  rw [ReplyFifo.moment]
  cases m.fabric with
  | none => exact read
  | some e => exact (apart _ _ _).trans read

theorem head_kept (idle : m.sck = none) : (p.fifo.moment m).head = p.fifo.head := by
  have read : (p.fifo.readEdge m.clear none).head = p.fifo.head := by
    unfold ReplyFifo.readEdge
    dsimp only
    split_ifs <;> rfl
  rw [ReplyFifo.moment, idle]
  cases m.fabric with
  | none => exact read
  | some e => exact (ReplyFifo.writeEdge_head _ _ _).trans read

/-- The queue over a moment: an edge of SCK, then what the fabric pushes. -/
def queueAfter (m : Moment AW) (seen : Nat) (junk : BitVec 8) (q : Queue) : Queue :=
  (offers m).foldl Queue.push <|
    match m.sck with
    | none => q
    | some e => q.edge e.pop e.ahead seen junk

theorem foldl_push (bytes : List (BitVec 8)) (q : Queue) :
    bytes.foldl Queue.push q = { q with stored := q.stored ++ bytes } := by
  induction bytes generalizing q with
  | nil => rw [List.foldl_nil, List.append_nil]
  | cons byte rest inductionHypothesis =>
      rw [List.foldl_cons, inductionHypothesis, Queue.push, List.append_assoc]
      rfl

/-- A byte that the reader sees is in the memory. -/
theorem Serves.byteAt
    (serves : p.Serves v q)
    {index : Nat}
    (unread : p.taken.length ≤ index) :
    q.byteAt (p.fifo.mem (BitVec.ofNat AW index)) index = p.fifo.mem (BitVec.ofNat AW index) := by
  obtain ⟨rd_le, le_seen, seen_le, near⟩ := serves.follows.bounds
  rw [Queue.byteAt]
  split_ifs with sees
  · rw [serves.seen] at sees
    have inside : index < p.offered.length := by omega
    rw [serves.stored, List.getD_eq_getElem _ _ inside, serves.follows.stored index unread inside]
  · rfl

/-- The reply FIFO is a queue with a registered head. -/
theorem Serves.step (serves : p.Serves v q) (allowed : p.Allowed m) :
    ∃ v' seen junk, q.seen ≤ seen ∧ seen ≤ q.stored.length ∧
      (p.step m).Serves v' (queueAfter m seen junk q) := by
  obtain ⟨rd_le, le_seen, seen_le, near⟩ := serves.follows.bounds
  have reads := serves.follows.reads
  have room : v.wrBinR < p.taken.length + 2 ^ AW := by omega
  obtain ⟨v', follows', seen'⟩ := serves.follows.step allowed
  rw [Views.nextSeen] at seen'
  cases sck : m.sck with
  | none =>
      rw [sck] at seen'
      have stays : queueAfter m q.seen 0 q = { q with stored := q.stored ++ offers m } := by
        rw [queueAfter, sck, foldl_push]
      refine ⟨v', q.seen, 0, le_refl _, ?_, ?_⟩
      · rwa [serves.seen, serves.stored]
      rw [stays]
      refine ⟨follows', ?_, serves.seen.trans seen'.symm, ?_, ?_, ?_⟩
      · rw [serves.stored]
        rfl
      · change q.popped = (p.taken ++ p.takes m).length
        rw [takes_of_idle sck, List.append_nil, serves.popped]
      · change q.level = (p.fifo.moment m).rdLevel.toNat
        rw [rdLevel_moment, sck]
        exact serves.level
      · exact serves.head.trans (head_kept sck).symm
  | some e =>
      rw [sck] at seen'
      set index : Nat := if e.ahead then p.taken.length + 1 else p.taken.length with index_def
      set junk := p.fifo.mem (BitVec.ofNat AW index) with junk_def
      have moved : queueAfter m v.wgS2 junk q = { q.edge e.pop e.ahead v.wgS2 junk with
          stored := q.stored ++ offers m } := by
        rw [queueAfter, sck, foldl_push]
        rfl
      refine ⟨v', v.wgS2, junk, ?_, ?_, ?_⟩
      · rw [serves.seen]
        exact reads.seen_le
      · have := reads.s2_le
        have := serves.follows.wgS1_le
        have := serves.follows.wrWas_le
        rw [serves.stored]
        omega
      rw [moved]
      refine ⟨follows', ?_, seen'.symm, ?_, ?_, ?_⟩
      · rw [serves.stored]
        rfl
      · change (if e.pop = true ∧ q.popped < q.seen then q.popped + 1 else q.popped) =
          (p.taken ++ p.takes m).length
        have pops : (e.pop && !p.fifo.rdEmpty) = true ↔ e.pop = true ∧ p.taken.length < v.wrBinR := by
          rw [Bool.and_eq_true, Bool.not_eq_true', ← Bool.not_eq_true, reads.rdEmpty_iff room,
            lt_iff_le_and_ne, and_iff_right le_seen]
        rw [length_takes, sck, Option.any_some, serves.popped, serves.seen]
        simp only [pops]
      · change q.seen - q.popped = (p.fifo.moment m).rdLevel.toNat
        rw [rdLevel_moment, sck, serves.seen, serves.popped]
        exact (reads.level room).symm
      · change q.byteAt junk (if e.ahead then q.popped + 1 else q.popped) = (p.fifo.moment m).head
        have pointer : (if e.ahead then p.fifo.rdP1 else p.fifo.rdBin) = ptr AW index := by
          rw [index_def, reads.rdP1, reads.rdBin]
          split_ifs <;> rfl
        rw [head_moment sck, pointer, slot_ptr, serves.popped, ← index_def, junk_def, serves.byteAt]
        split_ifs at index_def <;> omega

end Passage
end Fpga
end TriCoreDap
