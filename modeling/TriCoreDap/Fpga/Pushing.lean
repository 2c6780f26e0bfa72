import TriCoreDap.Fpga.DapTop
import TriCoreDap.Fpga.Crossing

/-!
# The pusher and the sequencer at a clock

What a clock does with the bytes that are on their way into the reply FIFO, when the
sequencer waits for the receiver and when it puts in a word, and how much the FIFO holds
behind the counts that the writer has of it.
-/

namespace TriCoreDap
namespace Fpga

variable {AW : Nat}

/-! ## Bytes on their way -/

/-- The lowest bytes of a word, the least significant first. -/
def lowBytes : Nat → BitVec 32 → List (BitVec 8)
  | 0, _ => []
  | n + 1, word => word.setWidth 8 :: lowBytes n (word >>> 8)

/-- The bytes of a word. -/
def wordBytes (word : BitVec 32) : List (BitVec 8) := lowBytes 4 word

@[simp] theorem length_lowBytes (n : Nat) (word : BitVec 32) : (lowBytes n word).length = n := by
  induction n generalizing word with
  | zero => rfl
  | succ n inductionHypothesis => rw [lowBytes, List.length_cons, inductionHypothesis]

@[simp] theorem length_wordBytes (word : BitVec 32) : (wordBytes word).length = 4 :=
  length_lowBytes 4 word

/-- The states that wait for the receiver. -/
def SeqState.awaits : SeqState → Bool
  | .rx | .parcel | .wack => true
  | .idle | .tx | .store | .done | .wfetch | .wparcel => false

namespace Pusher

/-- What the reply FIFO is offered at a clock. -/
def out (p : Pusher) : List (BitVec 8) := if p.fifoPush then [p.fifoDin] else []

/-- The bytes of its word that the pusher has yet to offer. -/
def rest (p : Pusher) : List (BitVec 8) :=
  if p.pushing then lowBytes (p.pushLeft.toNat + 1) p.pushWord else []

/-- The clocks until the pusher is at rest. -/
def clocks (p : Pusher) : Nat :=
  if p.pushing then p.pushLeft.toNat + 2 else if p.fifoPush then 1 else 0

end Pusher

namespace DapTop

variable {t : DapTop} {i : TopInput AW}

/-- The bytes of a word that the pusher is about to take. -/
def fresh (t : DapTop) : List (BitVec 8) := if t.seq.storeGo then wordBytes t.seq.storeWord else []

/-- The bytes of the words put in that the reply FIFO does not have. -/
def inPusher (t : DapTop) : List (BitVec 8) := t.pusher.out ++ (t.pusher.rest ++ t.fresh)

/-- A word is put in at this clock. -/
def puts (t : DapTop) : Bool :=
  t.seq.q == .parcel && t.rx.frame.pdone || t.seq.q == .store && t.fifoRoom

/-- The clocks until every word that was put in is in the reply FIFO. -/
def toQuiet (t : DapTop) : Nat := if t.seq.storeGo then 6 else t.pusher.clocks

/-- A word comes to a pusher at rest. -/
def Ordered (t : DapTop) : Prop := t.seq.storeGo = true → t.pusher.clocks = 0

theorem clocks_le (p : Pusher) : p.clocks ≤ 5 := by
  unfold Pusher.clocks
  split_ifs <;> omega

theorem rests_of_clocks {p : Pusher} (quiet : p.clocks = 0) :
    p.pushing = false ∧ p.fifoPush = false := by
  unfold Pusher.clocks at quiet
  split_ifs at quiet with pushing out
  exact ⟨by simpa using pushing, by simpa using out⟩

theorem toQuiet_le : t.toQuiet ≤ 6 := by
  unfold toQuiet
  have := clocks_le t.pusher
  split_ifs <;> omega

theorem inPusher_of_quiet (quiet : t.toQuiet = 0) : t.inPusher = [] := by
  unfold toQuiet at quiet
  split_ifs at quiet with go
  obtain ⟨pushing, out⟩ := rests_of_clocks quiet
  simp [inPusher, Pusher.out, Pusher.rest, fresh, go, pushing, out]

/-- What a clock does to the sequencer, state by state. -/
structure SeqMoves (t : DapTop) (i : TopInput AW) (s : Sequencer) : Prop where
  storeGo : s.storeGo = t.puts
  awaits : s.q.awaits = if t.seq.q.awaits then !t.rx.frame.done else s.rxStart
  starts : s.rxStart = true → t.seq.q.awaits = false
  parcel : s.q = .parcel →
    t.seq.q = .parcel ∧ t.rx.frame.done = false ∧ s.rxStart = false ∧ s.rxBits = t.seq.rxBits ∨
      t.seq.q ≠ .parcel ∧ s.rxStart = true ∧
        (s.rxBits = 32 ∨ t.seq.q = .store ∧ s.rxBits = t.seq.rxBits)
  store : s.q = .store →
    t.seq.q = .store ∧ t.fifoRoom = false ∧ t.requests.abort = false ∧
        s.storeWord = t.seq.storeWord ∧ s.rxBits = t.seq.rxBits ∨
      t.seq.q = .parcel ∧ t.rx.frame.done = true ∧ t.rx.frame.timedOut = false ∧
        s.storeWord = t.rxWord ∧ s.rxBits = t.seq.rxBits
  ended : t.seq.q = .parcel → t.rx.frame.done = true → t.rx.frame.timedOut = false → s.q = .store
  waits : t.seq.q = .store → t.fifoRoom = false → t.requests.abort = false → s.q = .store
  puts : t.puts = true → s.storeWord = if t.seq.q = .store then t.seq.storeWord else t.rxWord

theorem seqMoves (runs : i.rst = false) : SeqMoves t i (t.seqNext i) := by
  unfold seqNext
  rw [if_neg (by simp [runs])]
  cases state : t.seq.q with
  | idle =>
      dsimp only
      split <;> constructor <;> simp [state, SeqState.awaits, puts]
  | tx =>
      dsimp only
      cases i.txDone <;> cases t.seq.isBwrite <;> cases t.seq.isBlock <;> constructor <;>
        simp [state, SeqState.awaits, puts]
  | wack =>
      dsimp only
      cases done : t.rx.frame.done <;> cases (t.rx.frame.timedOut || t.seq.wlast) <;>
        constructor <;> simp [state, SeqState.awaits, puts, done]
  | wfetch =>
      dsimp only
      split
      · constructor <;> simp [state, SeqState.awaits, puts]
      split
      · split <;> constructor <;> simp [state, SeqState.awaits, puts]
      · constructor <;> simp [state, SeqState.awaits, puts]
  | wparcel =>
      dsimp only
      cases i.txDone <;> constructor <;> simp [state, SeqState.awaits, puts, Sequencer.counted]
  | rx =>
      dsimp only
      cases done : t.rx.frame.done <;> constructor <;> simp [state, SeqState.awaits, puts, done]
  | parcel =>
      dsimp only
      cases out : t.rx.frame.pdone <;> cases done : t.rx.frame.done <;>
        cases late : t.rx.frame.timedOut <;> constructor <;>
        simp [state, SeqState.awaits, puts, done, out, late, Sequencer.counted]
  | store =>
      dsimp only
      cases room : t.fifoRoom <;> cases abort : t.requests.abort <;> cases t.seq.pl1 <;>
        constructor <;> simp [state, SeqState.awaits, puts, room, abort, Sequencer.counted]
  | done =>
      dsimp only
      constructor <;> simp [state, SeqState.awaits, puts]

/-- The pusher at a clock that brings no test byte. -/
theorem pusherNext_eq
    (runs : i.rst = false)
    (noTest : t.seq.q = .idle → i.writes 0x51 = none) :
    t.pusherNext i =
      if t.seq.storeGo then
        { t.pusher with
          fifoPush := false
          pushWord := t.seq.storeWord
          pushLeft := 3
          pushing := true }
      else if t.pusher.pushing then
        { fifoPush := true
          fifoDin := t.pusher.pushWord.setWidth 8
          pushWord := t.pusher.pushWord >>> 8
          pushLeft := t.pusher.pushLeft - 1
          pushing := t.pusher.pushLeft != 0 }
      else { t.pusher with fifoPush := false } := by
  unfold pusherNext
  rw [if_neg (by simp [runs])]
  cases write : i.writes 0x51 with
  | none => rfl
  | some byte =>
      have notIdle : t.seq.q ≠ .idle := by
        intro idle
        rw [noTest idle] at write
        cases write
      simp only [notIdle, if_false]

theorem toNat_pred (left : BitVec 2) (some : left ≠ 0) : (left - 1).toNat + 1 = left.toNat := by
  revert left
  decide

/-- The pusher takes a word, or moves on by a byte. -/
theorem pusher_next
    (runs : i.rst = false)
    (noTest : t.seq.q = .idle → i.writes 0x51 = none)
    (ordered : t.Ordered) :
    (t.clock i).pusher.out ++ (t.clock i).pusher.rest = t.pusher.rest ++ t.fresh ∧
      (t.clock i).pusher.clocks = t.toQuiet - 1 := by
  change (t.pusherNext i).out ++ (t.pusherNext i).rest = _ ∧ (t.pusherNext i).clocks = _
  rw [pusherNext_eq runs noTest]
  cases go : t.seq.storeGo with
  | true =>
      obtain ⟨rests, -⟩ := rests_of_clocks (ordered go)
      simp [Pusher.out, Pusher.rest, Pusher.clocks, fresh, toQuiet, go, rests, wordBytes]
  | false =>
      cases pushing : t.pusher.pushing with
      | false =>
          cases out : t.pusher.fifoPush <;>
            simp [Pusher.out, Pusher.rest, Pusher.clocks, fresh, toQuiet, go, pushing, out]
      | true =>
          by_cases last : t.pusher.pushLeft = 0
          · simp [Pusher.out, Pusher.rest, Pusher.clocks, fresh, toQuiet, go, pushing, last,
              lowBytes]
          · have fewer := toNat_pred t.pusher.pushLeft last
            have more : (t.pusher.pushLeft != 0) = true := bne_iff_ne.mpr last
            simp only [Pusher.out, Pusher.rest, Pusher.clocks, fresh, toQuiet, go, pushing, more,
              if_true, Bool.false_eq_true, if_false, fewer]
            exact ⟨by simp [lowBytes], by omega⟩

/-- A clock passes one byte on, and the word that is put in comes behind the others. -/
theorem inPusher_next
    (runs : i.rst = false)
    (noTest : t.seq.q = .idle → i.writes 0x51 = none)
    (ordered : t.Ordered) :
    t.pusher.out ++ (t.clock i).inPusher =
      t.inPusher ++ if t.puts then wordBytes (t.clock i).seq.storeWord else [] := by
  have fresh : (t.clock i).fresh = if t.puts then wordBytes (t.clock i).seq.storeWord else [] := by
    rw [DapTop.fresh, show (t.clock i).seq.storeGo = t.puts from (seqMoves runs).storeGo]
  rw [← fresh, inPusher, ← List.append_assoc (t.clock i).pusher.out,
    (pusher_next runs noTest ordered).1, inPusher, List.append_assoc, List.append_assoc,
    List.append_assoc]

theorem ordered_next
    (runs : i.rst = false)
    (noTest : t.seq.q = .idle → i.writes 0x51 = none)
    (ordered : t.Ordered)
    (quiet : t.puts = true → t.toQuiet = 0) : (t.clock i).Ordered := by
  intro go
  rw [show (t.clock i).seq.storeGo = t.puts from (seqMoves runs).storeGo] at go
  rw [(pusher_next runs noTest ordered).2, quiet go]

theorem toQuiet_next
    (runs : i.rst = false)
    (noTest : t.seq.q = .idle → i.writes 0x51 = none)
    (ordered : t.Ordered) :
    (t.clock i).toQuiet = if t.puts then 6 else t.toQuiet - 1 := by
  rw [toQuiet, show (t.clock i).seq.storeGo = t.puts from (seqMoves runs).storeGo,
    (pusher_next runs noTest ordered).2]

end DapTop

/-! ## The room as the writer has it -/

namespace ReplyFifo

/-- The writer's counts are left alone by the read side. -/
theorem readEdge_counts (fifo : ReplyFifo AW) (clear : Bool) (sck : Option (SckEdge AW)) :
    (fifo.readEdge clear sck).wrBin = fifo.wrBin ∧
      (fifo.readEdge clear sck).rdBinW = fifo.rdBinW ∧
      (fifo.readEdge clear sck).rgS2 = fifo.rgS2 ∧
      (fifo.readEdge clear sck).count = fifo.count := by
  unfold readEdge
  cases sck <;> dsimp only <;> split_ifs <;> exact ⟨rfl, rfl, rfl, rfl⟩

end ReplyFifo

namespace Passage

variable {p : Passage AW} {v : Views} {m : Moment AW}

theorem Follows.held (follows : p.Follows v) :
    p.fifo.held.toNat = p.offered.length - v.rdBinW := by
  have := follows.rgS1_le
  have := follows.rdWas_le
  have := follows.bounds.2.1
  have := follows.bounds.2.2.1
  exact follows.writes.held (by omega)

/-- The push of the last clock is not yet in the count. -/
theorem Follows.held_le (follows : p.Follows v) :
    p.fifo.held.toNat ≤ p.fifo.count.toNat + 1 := by
  have depth : 2 ^ AW ≤ 2 ^ (AW + 1) := Nat.pow_le_pow_right (by decide) (Nat.le_succ AW)
  have ge := follows.writes.room_ge
  have below := follows.writes.room_lt
  rw [follows.held, follows.writes.count, BitVec.toNat_ofNat, Nat.mod_eq_of_lt (by omega)]
  omega

/-- The writer's counts at a moment: what is held grows by a push at most, and the count is a
clock behind. -/
theorem Follows.room_step (follows : p.Follows v) (allowed : p.Allowed m) :
    (p.step m).fifo.held.toNat ≤ p.fifo.held.toNat + (offers m).length ∧
      (p.step m).fifo.count = if m.fabric.isSome then p.fifo.held else p.fifo.count := by
  obtain ⟨wrBin, rdBinW, rgS2, count⟩ := p.fifo.readEdge_counts m.clear m.sck
  change (p.fifo.moment m).held.toNat ≤ _ ∧ (p.fifo.moment m).count = _
  cases fabric : m.fabric with
  | none =>
      rw [ReplyFifo.moment, fabric]
      refine ⟨?_, count⟩
      rw [ReplyFifo.held, wrBin, rdBinW]
      exact Nat.le_add_right _ _
  | some e =>
      obtain ⟨running, -, -⟩ := allowed.2.1 e fabric
      have side := follows.writes.apart m.clear m.sck
      have near := follows.bounds.2.2.2
      have taken_le := follows.bounds.2.1
      have seen_le := follows.bounds.2.2.1
      have rd_le := side.seen_le
      have s2_le := side.s2_le
      have s1_le := follows.rgS1_le
      have was_le := follows.rdWas_le
      have depth : 2 ^ AW < 2 ^ (AW + 1) := Nat.pow_lt_pow_right (by decide) (Nat.lt_succ_self AW)
      have held := follows.held
      rw [allowed.1] at side wrBin rdBinW
      rw [ReplyFifo.moment, fabric, offers, fabric, allowed.1]
      dsimp only [Option.isSome_some]
      rw [side.writeEdge_eq running, if_pos rfl]
      refine ⟨?_, congrArg₂ (· - ·) wrBin rdBinW⟩
      dsimp only [ReplyFifo.held] at held ⊢
      rw [side.wrBin, side.rgS2, Gray.decode_encode]
      cases e.push
      · rw [if_neg Bool.false_ne_true, ofNat_sub_ofNat_near (AW + 1) (by omega) (by omega), held]
        simp only [Bool.false_eq_true, if_false, List.length_nil]
        omega
      · rw [if_pos rfl, ofNat_sub_ofNat_near (AW + 1) (by omega) (by omega), held]
        simp only [if_true, List.length_singleton]
        omega

end Passage

end Fpga
end TriCoreDap
