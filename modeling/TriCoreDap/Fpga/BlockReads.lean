import TriCoreDap.Fpga.ParcelSteps
import TriCoreDap.Fpga.Pushing

/-!
# Block reads into the reply FIFO

`dap_top` with its reply FIFO: the host writes registers, the target answers, and SCK pops
bytes, each at any pace.  The parcels that are received go into the FIFO whole and in order,
and never where an unread byte is, although the writer's count is clocks old and a parcel
that streams on cannot be stopped.
-/

namespace TriCoreDap
namespace Fpga

variable {AW : Nat}

/-- A rising edge of the fabric clock: what it brings, and the read pointer as sampled. -/
structure TopEdge (AW : Nat) where
  wr : Option RegWrite
  txDone : Bool
  dap1In : Bool
  dap2In : Bool
  rdGray : BitVec (AW + 1)

/-- A rising edge of either clock or of both. -/
structure TopMoment (AW : Nat) where
  fabric : Option (TopEdge AW)
  sck : Option (SckEdge AW)

/-- `dap_top` with its reply FIFO.  With them the samples of the parcel that is received, and
the words of the parcels received, but for one that an abort has given up. -/
structure BlockReads (AW : Nat) where
  top : DapTop
  passage : Passage AW
  samples : List (Bool × Bool)
  words : List (BitVec 32)

namespace BlockReads

/-- What `dap_top` meets at an edge. -/
def input (s : BlockReads AW) (e : TopEdge AW) : TopInput AW where
  rst := false
  wr := e.wr
  txDone := e.txDone
  dap1In := e.dap1In
  dap2In := e.dap2In
  fifoCnt := s.passage.fifo.count

/-- What the reply FIFO meets at a moment. -/
def moment (s : BlockReads AW) (m : TopMoment AW) : Moment AW where
  clear := s.top.requests.fifoClear
  fabric := m.fabric.map fun e => ⟨false, s.top.pusher.fifoPush, s.top.pusher.fifoDin, e.rdGray⟩
  sck := m.sck

/-- A parcel is received at this clock: it streams on, or it ends the reply in time. -/
def receives (s : BlockReads AW) : Bool :=
  s.top.seq.q == .parcel &&
    (s.top.rx.frame.pdone || s.top.rx.frame.done && !s.top.rx.frame.timedOut)

/-- A word that waits for room is given up. -/
def givesUp (s : BlockReads AW) : Bool :=
  s.top.seq.q == .store && !s.top.fifoRoom && s.top.requests.abort

/-- The words at the next clock. -/
def nextWords (s : BlockReads AW) : List (BitVec 32) :=
  if s.receives then s.words ++ [FrameRx.sampledWord s.top.rx.frame.wideR s.samples]
  else if s.givesUp then s.words.dropLast
  else s.words

def step (s : BlockReads AW) (m : TopMoment AW) : BlockReads AW where
  top := m.fabric.elim s.top fun e => s.top.clock (s.input e)
  passage := s.passage.step (s.moment m)
  samples := m.fabric.elim s.samples fun e =>
    s.top.rx.nextSamples (s.top.rxInput (s.input e)) s.samples
  words := m.fabric.elim s.words fun _ => s.nextWords

/-- No clear of the reply FIFO and no test byte; samples of the pointers. -/
def Allowed (s : BlockReads AW) (m : TopMoment AW) : Prop :=
  (∀ e ∈ m.fabric, (s.input e).ctrlBit 3 = false ∧
      (s.top.seq.q = .idle → (s.input e).writes 0x51 = none) ∧
      Gray.Settles (s.passage.rdBefore (s.moment m)) (s.passage.fifo.moment (s.moment m)).rdGray
        e.rdGray) ∧
    ∀ e ∈ m.sck,
      Gray.Settles (s.passage.wrBefore (s.moment m)) (s.passage.fifo.moment (s.moment m)).wrGray
        e.wrGray

instance decidableAllowed (s : BlockReads AW) (m : TopMoment AW) : Decidable (s.Allowed m) :=
  inferInstanceAs (Decidable (_ ∧ _))

/-- After a reset, of registers that hold anything. -/
def start (t : DapTop) (i : TopInput AW) (fifo : ReplyFifo AW) : BlockReads AW where
  top := t.clock { i with rst := true }
  passage := Passage.start fifo
  samples := []
  words := []

/-- The bytes of a word that waits for room. -/
def waiting (s : BlockReads AW) : List (BitVec 8) :=
  if s.top.seq.q = .store then wordBytes s.top.seq.storeWord else []

/-- The FIFO is sound and no push meets it full; what it was offered and what is on its way
are the words received, each four bytes long, the least significant first. -/
structure Delivers (s : BlockReads AW) : Prop where
  sound : s.passage.Sound
  not_full : s.passage.fifo.full = false
  whole : s.receives = true →
    s.samples.length = if s.top.rx.frame.wideR then 16 else 32
  words : s.passage.offered ++ (s.top.inPusher ++ s.waiting) = s.words.flatMap wordBytes
  in_order : s.passage.taken <+: s.words.flatMap wordBytes

/-! ## The receiver and the sequencer -/

/-- The sequencer waits for the receiver from the start of a reply to its end. -/
structure Engaged (t : DapTop) : Prop where
  awaits : t.seq.q.awaits = (t.seq.rxStart || t.rx.frame.state != .idle || t.rx.frame.done)
  start : t.seq.rxStart = true → t.rx.frame.state = .idle ∧ t.rx.frame.done = false
  done : t.rx.frame.done = true → t.rx.frame.state = .idle
  pdone : t.rx.frame.pdone = true → t.rx.frame.state = .hunt
  ssCont : t.rx.streaming.ssCont = true → t.rx.frame.state ≠ .hunt

variable {t : DapTop} {i : TopInput AW}

theorem Engaged.next (engaged : Engaged t) (runs : i.rst = false) : Engaged (t.clock i) := by
  have runsRx : (t.rxInput i).rst = false := runs
  obtain ⟨idle, done⟩ := FrameRx.frame_moves (m := t.rx) runsRx
  have awaits := (DapTop.seqMoves (t := t) runs).awaits
  have started := (DapTop.seqMoves (t := t) runs).starts
  have now := engaged.awaits
  have start := engaged.start
  have ends := engaged.done
  change (t.rx.clock (t.rxInput i)).frame.state = .idle ↔
    t.rx.frame.state = .idle ∧ t.seq.rxStart = false ∨ t.rx.frame.state = .ending at idle
  constructor
  case pdone => exact FrameRx.hunt_of_pdone runsRx
  case ssCont => exact FrameRx.not_hunt_of_ssCont runsRx
  case awaits =>
    change (t.seqNext i).q.awaits = ((t.seqNext i).rxStart ||
      (t.rx.clock (t.rxInput i)).frame.state != .idle || (t.rx.clock (t.rxInput i)).frame.done)
    grind
  case start =>
    change (t.seqNext i).rxStart = true →
      (t.rx.clock (t.rxInput i)).frame.state = .idle ∧
        (t.rx.clock (t.rxInput i)).frame.done = false
    grind
  case done =>
    change (t.rx.clock (t.rxInput i)).frame.done = true →
      (t.rx.clock (t.rxInput i)).frame.state = .idle
    grind

/-- The parcel that is received, and the word that waits, with the pusher at rest as each is
put in. -/
structure Parcels (t : DapTop) (samples : List (Bool × Bool)) : Prop where
  bits : t.seq.q = .parcel ∨ t.seq.q = .store → t.seq.rxBits = 32
  receives : t.seq.q = .parcel → t.seq.rxStart = false → t.rx.Receives samples
  /-- A byte a clock goes, and a sample a clock comes at most. -/
  paced : t.seq.q = .parcel → t.rx.frame.state = .data →
    t.toQuiet + samples.length ≤ 6 ∨ t.toQuiet = 0
  quiet : t.seq.q = .parcel → FrameRx.Complete t.rx.frame → t.toQuiet = 0
  stored : t.seq.q = .store → t.toQuiet = 0
  ordered : t.Ordered

variable {samples : List (Bool × Bool)}

/-- A word is put in with the pusher at rest. -/
theorem Parcels.puts_quiet (parcels : Parcels t samples) (puts : t.puts = true) :
    t.toQuiet = 0 := by
  simp only [DapTop.puts, Bool.or_eq_true, Bool.and_eq_true, beq_iff_eq] at puts
  rcases puts with ⟨parcel, out⟩ | ⟨store, -⟩
  · exact parcels.quiet parcel (.inl out)
  · exact parcels.stored store

/-- Nothing is put in within a payload, nor at the end of a reply. -/
theorem Engaged.not_puts
    (engaged : Engaged t)
    (parcel : t.seq.q = .parcel)
    (notHunt : t.rx.frame.state ≠ .hunt) : t.puts = false := by
  have pdone : t.rx.frame.pdone = false := by
    cases out : t.rx.frame.pdone with
    | false => rfl
    | true => exact absurd (engaged.pdone out) notHunt
  simp [DapTop.puts, parcel, pdone]

/-- The receiver starts a parcel that the sequencer waits for, or is within it. -/
theorem Parcels.receives_next
    (parcels : Parcels t samples)
    (engaged : Engaged t)
    (runs : i.rst = false)
    (parcel : t.seq.q = .parcel)
    (notDone : t.rx.frame.done = false) :
    (t.clock i).rx.Receives (t.rx.nextSamples (t.rxInput i) samples) := by
  have runsRx : (t.rxInput i).rst = false := runs
  cases start : t.seq.rxStart with
  | true =>
      exact FrameRx.receives_begin runsRx (engaged.start start).1 start (parcels.bits (.inl parcel))
        samples
  | false =>
      have awaits := engaged.awaits
      rw [parcel, start, notDone, Bool.false_or, Bool.or_false] at awaits
      exact (parcels.receives parcel start).step runsRx (bne_iff_ne.mp awaits.symm)

/-- The pace of the samples within a payload. -/
theorem Parcels.paced_next
    (parcels : Parcels t samples)
    (engaged : Engaged t)
    (runs : i.rst = false)
    (noTest : t.seq.q = .idle → i.writes 0x51 = none)
    (parcel : t.seq.q = .parcel)
    (data : t.rx.frame.state = .data) :
    (t.clock i).toQuiet + (t.rx.nextSamples (t.rxInput i) samples).length ≤ 6 ∨
      (t.clock i).toQuiet = 0 := by
  rw [DapTop.toQuiet_next runs noTest parcels.ordered,
    engaged.not_puts parcel (by simp [data]), if_neg Bool.false_ne_true]
  have length : (t.rx.nextSamples (t.rxInput i) samples).length ≤ samples.length + 1 := by
    rw [FrameRx.nextSamples, if_pos data]
    split <;> simp
  rcases parcels.paced parcel data with paced | quiet
  · omega
  · omega

theorem Parcels.next
    (parcels : Parcels t samples)
    (engaged : Engaged t)
    (runs : i.rst = false)
    (noTest : t.seq.q = .idle → i.writes 0x51 = none) :
    Parcels (t.clock i) (t.rx.nextSamples (t.rxInput i) samples) := by
  have runsRx : (t.rxInput i).rst = false := runs
  have engaged' := engaged.next runs
  have toQuiet := DapTop.toQuiet_next runs noTest parcels.ordered
  constructor
  case bits =>
    rintro (parcel | store)
    · rcases (DapTop.seqMoves runs).parcel parcel with
        ⟨was, -, -, same⟩ | ⟨-, -, bits | ⟨was, same⟩⟩
      · exact same.trans (parcels.bits (.inl was))
      · exact bits
      · exact same.trans (parcels.bits (.inr was))
    · rcases (DapTop.seqMoves runs).store store with ⟨was, -, -, -, same⟩ | ⟨was, -, -, -, same⟩
      · exact same.trans (parcels.bits (.inr was))
      · exact same.trans (parcels.bits (.inl was))
  case receives =>
    intro parcel notStarted
    rcases (DapTop.seqMoves runs).parcel parcel with ⟨was, notDone, -, -⟩ | ⟨-, started, -⟩
    · exact parcels.receives_next engaged runs was notDone
    · exact absurd (started.symm.trans notStarted) (by decide)
  case paced =>
    intro parcel data
    rcases (DapTop.seqMoves runs).parcel parcel with ⟨was, notDone, -, -⟩ | ⟨-, started, -⟩
    · by_cases wasData : t.rx.frame.state = .data
      · exact parcels.paced_next engaged runs noTest was wasData
      · have data : (t.rx.clock (t.rxInput i)).frame.state = .data := data
        rw [FrameRx.nextSamples, if_neg wasData, if_pos data]
        exact .inl DapTop.toQuiet_le
    · rw [(engaged'.start started).1] at data
      cases data
  case quiet =>
    intro parcel complete
    rcases (DapTop.seqMoves runs).parcel parcel with ⟨was, notDone, started, -⟩ | ⟨-, started, -⟩
    · have receives' := parcels.receives_next (i := i) engaged runs was notDone
      by_cases data : t.rx.frame.state = .data
      · have full := receives'.full complete
        have last := receives'.parcel.nbitsLast
        have many : 15 ≤ (t.clock i).rx.frame.nbitsLast.toNat := by
          rw [last]
          split <;> decide
        rcases parcels.paced_next engaged runs noTest was data with paced | quiet
        · omega
        · exact quiet
      · cases start : t.seq.rxStart with
        | true =>
            exact absurd complete (FrameRx.incomplete_of_idle runsRx (engaged.start start).1)
        | false =>
            obtain ⟨notHunt, already⟩ :=
              (parcels.receives was start).complete_back runsRx complete data
            rw [toQuiet, engaged.not_puts was notHunt, if_neg Bool.false_ne_true,
              parcels.quiet was already]
    · obtain ⟨idle, done⟩ := engaged'.start started
      have pdone : (t.clock i).rx.frame.pdone ≠ true := by
        intro out
        rw [engaged'.pdone out] at idle
        cases idle
      simp [FrameRx.Complete, idle, done, pdone] at complete
  case stored =>
    intro store
    rcases (DapTop.seqMoves runs).store store with ⟨was, full, -⟩ | ⟨was, done, inTime, -⟩
    · have none : t.puts = false := by simp [DapTop.puts, was, full]
      rw [toQuiet, none, if_neg Bool.false_ne_true, parcels.stored was]
    · have idle := engaged.done done
      have quiet := parcels.quiet was (.inr (.inr (.inr ⟨inTime, .inr ⟨idle, done⟩⟩)))
      rw [toQuiet, engaged.not_puts was (by simp [idle]), if_neg Bool.false_ne_true, quiet]
  case ordered => exact DapTop.ordered_next runs noTest parcels.ordered parcels.puts_quiet

/-! ## Words -/

variable {s : BlockReads AW} {e : TopEdge AW}

/-- The word of a parcel that is received. -/
theorem rxWord_eq
    (parcels : Parcels s.top s.samples)
    (engaged : Engaged s.top)
    (receives : s.receives = true) :
    s.top.rxWord = FrameRx.sampledWord s.top.rx.frame.wideR s.samples ∧
      s.samples.length = s.top.rx.frame.nbitsLast.toNat + 1 ∧
      FrameRx.IsParcel s.top.rx.frame := by
  simp only [BlockReads.receives, Bool.and_eq_true, Bool.or_eq_true, Bool.not_eq_true',
    beq_iff_eq] at receives
  obtain ⟨parcel, out⟩ := receives
  have complete : FrameRx.Complete s.top.rx.frame := by
    rcases out with out | ⟨done, inTime⟩
    · exact .inl out
    · exact .inr (.inr (.inr ⟨inTime, .inr ⟨engaged.done done, done⟩⟩))
  have notStarted : s.top.seq.rxStart = false := by
    cases start : s.top.seq.rxStart with
    | false => rfl
    | true =>
        obtain ⟨idle, notDone⟩ := engaged.start start
        rcases out with out | ⟨done, -⟩
        · rw [engaged.pdone out] at idle
          cases idle
        · rw [done] at notDone
          cases notDone
  have received := parcels.receives parcel notStarted
  exact ⟨received.word complete, received.full complete, received.parcel⟩

/-- What a clock puts in, and what waits then, are the words but for one that is given up. -/
theorem words_next
    (parcels : Parcels s.top s.samples)
    (engaged : Engaged s.top)
    (last : s.top.seq.q = .store → s.words.getLast? = some s.top.seq.storeWord)
    {front : List (BitVec 8)}
    (words : s.words.flatMap wordBytes = front ++ s.waiting)
    (runs : i.rst = false) :
    s.nextWords.flatMap wordBytes =
      front ++ ((if s.top.puts then wordBytes (s.top.seqNext i).storeWord else []) ++
        if (s.top.seqNext i).q = .store then wordBytes (s.top.seqNext i).storeWord else []) := by
  have moves := DapTop.seqMoves (t := s.top) runs
  have stores := moves.store
  have put := moves.puts
  by_cases parcel : s.top.seq.q = .parcel
  · have notStore : s.top.seq.q ≠ .store := by simp [parcel]
    rw [waiting, if_neg notStore, List.append_nil] at words
    have puts : s.top.puts = s.top.rx.frame.pdone := by simp [DapTop.puts, parcel]
    cases received : s.receives with
    | true =>
        have word := (rxWord_eq parcels engaged received).1
        rw [nextWords, if_pos received, List.flatMap_append, words, List.flatMap_singleton, ← word]
        congr 1
        cases out : s.top.rx.frame.pdone with
        | true =>
            rw [out] at puts
            have goesOn : (s.top.seqNext i).q ≠ .store := by
              intro store
              rcases stores store with ⟨was, -⟩ | ⟨-, done, -⟩
              · exact notStore was
              · have idle := engaged.done done
                rw [engaged.pdone out] at idle
                cases idle
            rw [if_pos puts, put puts, if_neg notStore, if_neg goesOn, List.append_nil]
        | false =>
            simp only [BlockReads.receives, parcel, out, beq_self_eq_true, Bool.true_and,
              Bool.false_or, Bool.and_eq_true, Bool.not_eq_true'] at received
            have waits := moves.ended parcel received.1 received.2
            rcases stores waits with ⟨was, -⟩ | ⟨-, -, -, same, -⟩
            · exact absurd was notStore
            · rw [puts, out, if_neg Bool.false_ne_true, if_pos waits, same, List.nil_append]
    | false =>
        have none : s.givesUp = false := by simp [givesUp, parcel]
        simp only [BlockReads.receives, parcel, beq_self_eq_true, Bool.true_and,
          Bool.or_eq_false_iff] at received
        have goesOn : (s.top.seqNext i).q ≠ .store := by
          intro store
          rcases stores store with ⟨was, -⟩ | ⟨-, done, inTime, -⟩
          · exact notStore was
          · simp [done, inTime] at received
        simp [nextWords, BlockReads.receives, received, none, words, puts, goesOn]
  have notReceived : s.receives = false := by simp [BlockReads.receives, parcel]
  by_cases store : s.top.seq.q = .store
  · rw [waiting, if_pos store] at words
    cases room : s.top.fifoRoom with
    | true =>
        have puts : s.top.puts = true := by simp [DapTop.puts, store, room]
        have goesOn : (s.top.seqNext i).q ≠ .store := by
          intro next
          rcases stores next with ⟨-, full, -⟩ | ⟨was, -⟩
          · rw [room] at full
            cases full
          · exact parcel was
        have none : s.givesUp = false := by simp [givesUp, room]
        simp [nextWords, notReceived, none, words, puts, put puts, store, goesOn]
    | false =>
        have puts : s.top.puts = false := by simp [DapTop.puts, store, room]
        cases abort : s.top.requests.abort with
        | true =>
            have gives : s.givesUp = true := by simp [givesUp, store, room, abort]
            have goesOn : (s.top.seqNext i).q ≠ .store := by
              intro next
              rcases stores next with ⟨-, -, noAbort, -⟩ | ⟨was, -⟩
              · rw [abort] at noAbort
                cases noAbort
              · exact parcel was
            have split := List.dropLast_append_getLast? _ (Option.mem_def.mpr (last store))
            rw [← split, List.flatMap_append, List.flatMap_singleton] at words
            rw [nextWords, notReceived, if_neg Bool.false_ne_true, if_pos gives, puts,
              if_neg Bool.false_ne_true, if_neg goesOn, List.append_nil, List.append_nil]
            exact List.append_cancel_right words
        | false =>
            have none : s.givesUp = false := by simp [givesUp, abort]
            have stays := moves.waits store room abort
            rcases stores stays with ⟨-, -, -, same, -⟩ | ⟨was, -⟩
            · simp [nextWords, notReceived, none, words, puts, stays, same]
            · exact absurd was parcel
  · have goesOn : (s.top.seqNext i).q ≠ .store := by
      intro next
      rcases stores next with ⟨was, -⟩ | ⟨was, -⟩
      · exact store was
      · exact parcel was
    have none : s.givesUp = false := by simp [givesUp, store]
    have puts : s.top.puts = false := by simp [DapTop.puts, parcel, store]
    rw [waiting, if_neg store, List.append_nil] at words
    simp [nextWords, notReceived, none, words, puts, goesOn]

/-- A word that waits is the last one that was received. -/
theorem last_next
    (parcels : Parcels s.top s.samples)
    (engaged : Engaged s.top)
    (last : s.top.seq.q = .store → s.words.getLast? = some s.top.seq.storeWord)
    (runs : i.rst = false)
    (store : (s.top.seqNext i).q = .store) :
    s.nextWords.getLast? = some (s.top.seqNext i).storeWord := by
  rcases (DapTop.seqMoves runs).store store with
    ⟨was, full, noAbort, same, -⟩ | ⟨was, done, inTime, same, -⟩
  · have notReceived : s.receives = false := by simp [BlockReads.receives, was]
    have none : s.givesUp = false := by simp [givesUp, noAbort]
    rw [nextWords, notReceived, none, if_neg Bool.false_ne_true, if_neg Bool.false_ne_true, same]
    exact last was
  · have received : s.receives = true := by simp [BlockReads.receives, was, done, inTime]
    rw [nextWords, if_pos received, same, (rxWord_eq parcels engaged received).1,
      List.getLast?_concat]

/-! ## Room -/

/-- What the writer knows is stale, and what it has decided on it holds all the same: with
the bytes on their way every byte has its place. -/
structure Roomy (s : BlockReads AW) : Prop where
  total : s.passage.fifo.held.toNat + s.top.inPusher.length + 3 ≤ 2 ^ AW
  count : s.passage.fifo.count.toNat + s.top.inPusher.length + 3 ≤ 2 ^ AW
  fifoRoom : s.top.fifoRoom = true → s.passage.fifo.held.toNat + 7 ≤ 2 ^ AW
  rxRoom : s.top.rxRoom = true → s.passage.fifo.held.toNat + 19 ≤ 2 ^ AW
  contOk : s.top.rx.streaming.contOk = true → s.passage.fifo.held.toNat + 18 ≤ 2 ^ AW
  streams : s.top.rx.frame.state ≠ .idle →
    s.top.rx.streaming.ssCont = true ∨ s.top.rx.frame.contR = true →
    s.passage.fifo.held.toNat + s.top.inPusher.length + 13 ≤ 2 ^ AW
  pending : s.top.inPusher.length ≤ 4

/-- Nothing is received while a word waits for room. -/
theorem Engaged.idle_of_store (engaged : Engaged t) (store : t.seq.q = .store) :
    t.rx.frame.state = .idle := by
  have awaits := engaged.awaits
  rw [store] at awaits
  simp only [SeqState.awaits, Bool.false_eq, Bool.or_eq_false_iff, bne_eq_false_iff_eq] at awaits
  exact awaits.1.2

/-- The room that a word is put in with: more for a parcel that has streamed on. -/
theorem Roomy.puts
    (roomy : Roomy s)
    (parcels : Parcels s.top s.samples)
    (engaged : Engaged s.top)
    (puts : s.top.puts = true) :
    s.top.inPusher.length = 0 ∧ s.passage.fifo.held.toNat + 7 ≤ 2 ^ AW ∧
      (s.top.rx.frame.state ≠ .idle →
        s.top.rx.frame.pdone = true ∧ s.passage.fifo.held.toNat + 13 ≤ 2 ^ AW) := by
  have none : s.top.inPusher.length = 0 := by
    rw [DapTop.inPusher_of_quiet (parcels.puts_quiet puts), List.length_nil]
  refine ⟨none, ?_⟩
  simp only [DapTop.puts, Bool.or_eq_true, Bool.and_eq_true, beq_iff_eq] at puts
  rcases puts with ⟨parcel, out⟩ | ⟨store, room⟩
  · have hunts := engaged.pdone out
    have notStarted : s.top.seq.rxStart = false := by
      cases start : s.top.seq.rxStart with
      | false => rfl
      | true => simp [(engaged.start start).1] at hunts
    have onward := ((parcels.receives parcel notStarted).streamed out).2
    have streams := roomy.streams (by simp [hunts]) (.inr onward)
    exact ⟨by omega, fun _ => ⟨out, by omega⟩⟩
  · exact ⟨roomy.fifoRoom room, fun running => absurd (engaged.idle_of_store store) running⟩

/-- The bytes on their way at the next clock. -/
theorem length_inPusher_next
    (parcels : Parcels t samples)
    (runs : i.rst = false)
    (noTest : t.seq.q = .idle → i.writes 0x51 = none) :
    t.pusher.out.length + (t.clock i).inPusher.length =
      t.inPusher.length + if t.puts then 4 else 0 := by
  have lengths := congrArg List.length (DapTop.inPusher_next runs noTest parcels.ordered)
  rw [List.length_append, List.length_append] at lengths
  rw [lengths]
  split <;> simp

/-- A clock keeps the room. -/
theorem Roomy.next
    (roomy : Roomy s)
    (parcels : Parcels s.top s.samples)
    (engaged : Engaged s.top)
    (held_le : s.passage.fifo.held.toNat ≤ s.passage.fifo.count.toNat + 1)
    (noTest : s.top.seq.q = .idle → (s.input e).writes 0x51 = none)
    {s' : BlockReads AW}
    (top : s'.top = s.top.clock (s.input e))
    (held : s'.passage.fifo.held.toNat ≤
      s.passage.fifo.held.toNat + s.top.pusher.out.length)
    (count : s'.passage.fifo.count = s.passage.fifo.held) : Roomy s' := by
  have runs : (s.input e).rst = false := rfl
  have runsRx : (s.top.rxInput (s.input e)).rst = false := rfl
  have lengths := length_inPusher_next parcels runs noTest
  have put := roomy.puts parcels engaged
  have total := roomy.total
  have pending := roomy.pending
  have one : s.top.pusher.out.length ≤ 1 := by
    unfold Pusher.out
    split <;> simp
  have moves : s'.passage.fifo.held.toNat + s'.top.inPusher.length ≤
      s.passage.fifo.held.toNat + s.top.inPusher.length + if s.top.puts then 4 else 0 := by
    rw [top]
    omega
  rw [← top] at lengths
  constructor
  case total =>
    cases puts : s.top.puts with
    | false => simp only [puts, Bool.false_eq_true, if_false] at moves; omega
    | true =>
        obtain ⟨none, room, -⟩ := put puts
        simp only [puts, if_true] at moves
        omega
  case count =>
    rw [count]
    cases puts : s.top.puts with
    | false => simp only [puts, Bool.false_eq_true, if_false] at lengths; omega
    | true =>
        obtain ⟨none, room, -⟩ := put puts
        simp only [puts, if_true] at lengths
        omega
  case fifoRoom =>
    intro room
    rw [top] at room
    have room : s.passage.fifo.count.toNat < 2 ^ AW - 8 := of_decide_eq_true room
    omega
  case rxRoom =>
    intro room
    rw [top] at room
    have room : s.passage.fifo.count.toNat < 2 ^ AW - 20 := of_decide_eq_true room
    omega
  case contOk =>
    intro ok
    rw [top] at ok
    have ok : (s.top.rx.streaming.moreR && s.top.rxRoom) = true := ok
    have room := roomy.rxRoom (Bool.and_eq_true_iff.mp ok).2
    omega
  case pending =>
    cases puts : s.top.puts with
    | false => simp only [puts, Bool.false_eq_true, if_false] at lengths; omega
    | true =>
        obtain ⟨none, -, -⟩ := put puts
        simp only [puts, if_true] at lengths
        omega
  case streams =>
    intro running onward
    rw [top] at running onward
    rcases onward with on | contR
    · have on : (s.top.rx.startSeen (s.top.rxInput (s.input e)) && s.top.rx.streaming.contOk) =
          true := on
      have room := roomy.contOk (Bool.and_eq_true_iff.mp on).2
      cases puts : s.top.puts with
      | false => simp only [puts, Bool.false_eq_true, if_false] at moves; omega
      | true =>
          obtain ⟨none, -, -⟩ := put puts
          simp only [puts, if_true] at moves
          omega
    · obtain ⟨wasRunning, onward⟩ := FrameRx.contR_next runsRx running contR
      have streams := roomy.streams wasRunning (onward.imp id And.right)
      have noPut : s.top.puts = false := by
        cases puts : s.top.puts with
        | false => rfl
        | true =>
            have out := ((put puts).2.2 wasRunning).1
            rcases onward with on | ⟨notOut, -⟩
            · exact absurd (engaged.pdone out) (engaged.ssCont on)
            · rw [out] at notOut
              cases notOut
      simp only [noPut, Bool.false_eq_true, if_false] at moves
      omega

/-! ## Runs -/

/-- What holds at every moment. -/
structure Flows (s : BlockReads AW) : Prop where
  engaged : Engaged s.top
  parcels : Parcels s.top s.samples
  roomy : Roomy s
  notClear : s.top.requests.fifoClear = false
  follows : ∃ v, s.passage.Follows v
  last : s.top.seq.q = .store → s.words.getLast? = some s.top.seq.storeWord
  words : s.passage.offered ++ (s.top.inPusher ++ s.waiting) = s.words.flatMap wordBytes

variable {m : TopMoment AW}

/-- The pusher never pushes without room. -/
theorem Flows.allowed (flows : Flows s) (allowed : s.Allowed m) :
    s.passage.Allowed (s.moment m) := by
  refine ⟨flows.notClear, ?_, allowed.2⟩
  intro f isFabric
  rw [moment, Option.mem_def, Option.map_eq_some_iff] at isFabric
  obtain ⟨e, fabric, rfl⟩ := isFabric
  refine ⟨rfl, ?_, (allowed.1 e fabric).2.2⟩
  intro push
  have some : 1 ≤ s.top.inPusher.length := by
    have push : s.top.pusher.fifoPush = true := push
    simp [DapTop.inPusher, Pusher.out, push]
  have count := flows.roomy.count
  omega

theorem Flows.step (flows : Flows s) (allowed : s.Allowed m) : Flows (s.step m) := by
  have passes := flows.allowed allowed
  obtain ⟨v, follows⟩ := flows.follows
  obtain ⟨v', follows', -⟩ := follows.step passes
  obtain ⟨held, count⟩ := follows.room_step passes
  cases fabric : m.fabric with
  | none =>
      have same : s.step m = { s with passage := s.passage.step (s.moment m) } := by
        rw [BlockReads.step, fabric]
        rfl
      have noFabric : (s.moment m).fabric = none := by rw [moment, fabric]; rfl
      have offers : Passage.offers (s.moment m) = [] := by rw [Passage.offers, noFabric]
      rw [offers, List.length_nil] at held
      rw [noFabric, Option.isSome_none, if_neg Bool.false_ne_true] at count
      have roomy := flows.roomy
      rw [same]
      exact {
        engaged := flows.engaged
        parcels := flows.parcels
        roomy := {
          total := by have := roomy.total; dsimp only; omega
          count := by have := roomy.count; dsimp only; rw [count]; omega
          fifoRoom := fun room => by have := roomy.fifoRoom room; dsimp only; omega
          rxRoom := fun room => by have := roomy.rxRoom room; dsimp only; omega
          contOk := fun room => by have := roomy.contOk room; dsimp only; omega
          streams := fun running onward => by
            have := roomy.streams running onward
            dsimp only
            omega
          pending := roomy.pending }
        notClear := flows.notClear
        follows := ⟨v', follows'⟩
        last := flows.last
        words := by
          change s.passage.offered ++ Passage.offers (s.moment m) ++ _ = _
          rw [offers, List.append_nil]
          exact flows.words }
  | some e =>
      obtain ⟨noClear, noTest, -⟩ := allowed.1 e fabric
      have runs : (s.input e).rst = false := rfl
      have same : s.step m = ⟨s.top.clock (s.input e), s.passage.step (s.moment m),
          s.top.rx.nextSamples (s.top.rxInput (s.input e)) s.samples, s.nextWords⟩ := by
        rw [BlockReads.step, fabric]
        rfl
      have isFabric : (s.moment m).fabric =
          some ⟨false, s.top.pusher.fifoPush, s.top.pusher.fifoDin, e.rdGray⟩ := by
        rw [moment, fabric]
        rfl
      have offers : Passage.offers (s.moment m) = s.top.pusher.out := by
        rw [Passage.offers, isFabric]
        rfl
      rw [offers] at held
      rw [isFabric, Option.isSome_some, if_pos rfl] at count
      have front : s.words.flatMap wordBytes =
          s.passage.offered ++ s.top.inPusher ++ s.waiting := by
        rw [← flows.words, List.append_assoc]
      rw [same]
      exact {
        engaged := flows.engaged.next runs
        parcels := flows.parcels.next flows.engaged runs noTest
        roomy := flows.roomy.next flows.parcels flows.engaged follows.held_le noTest rfl held count
        notClear := by
          change (!(s.input e).rst && (s.input e).ctrlBit 3) = false
          rw [noClear, Bool.and_false]
        follows := ⟨v', follows'⟩
        last := last_next flows.parcels flows.engaged flows.last runs
        words := by
          have moved := DapTop.inPusher_next runs noTest flows.parcels.ordered
          change s.passage.offered ++ Passage.offers (s.moment m) ++
            ((s.top.clock (s.input e)).inPusher ++ _) = s.nextWords.flatMap wordBytes
          rw [words_next flows.parcels flows.engaged flows.last front runs, offers,
            List.append_assoc, ← List.append_assoc s.top.pusher.out, moved, List.append_assoc,
            List.append_assoc]
          rfl }

theorem flows_start
    (five : 5 ≤ AW)
    (t : DapTop)
    (i : TopInput AW)
    {fifo : ReplyFifo AW}
    (reset : fifo.IsReset) : Flows (start t i fifo) := by
  have depth : 2 ^ 5 ≤ 2 ^ AW := Nat.pow_le_pow_right (by decide) five
  have follows := Passage.follows_start reset
  have held : fifo.held.toNat = 0 := follows.held
  have count : fifo.count.toNat = 0 := by
    rw [show fifo.count = 0#(AW + 1) from follows.writes.count]
    exact BitVec.toNat_zero
  have idle : (start t i fifo).top.seq.q = .idle := rfl
  have rests : (start t i fifo).top.rx.frame.state = .idle := rfl
  have noneOut : (start t i fifo).top.rx.frame.pdone = false := rfl
  have noPuts : (start t i fifo).top.inPusher = [] := rfl
  have noWord : (start t i fifo).waiting = [] := rfl
  constructor
  case engaged =>
    refine ⟨rfl, ?_, ?_, ?_, ?_⟩
    · intro started
      cases started
    · intro done
      cases done
    · intro out
      cases out
    · intro _
      rw [rests]
      decide
  case parcels =>
    refine ⟨?_, ?_, ?_, ?_, ?_, ?_⟩
    · rintro (parcel | store)
      · cases parcel
      · cases store
    · intro parcel
      cases parcel
    · intro parcel
      cases parcel
    · intro parcel
      cases parcel
    · intro store
      cases store
    · intro go
      cases go
  case roomy =>
    have held : (start t i fifo).passage.fifo.held.toNat = 0 := held
    have count : (start t i fifo).passage.fifo.count.toNat = 0 := count
    have length : (start t i fifo).top.inPusher.length = 0 := rfl
    constructor <;> intros <;> omega
  case notClear => rfl
  case follows => exact ⟨_, follows⟩
  case last =>
    intro store
    cases store
  case words => rfl

theorem Flows.delivers (flows : Flows s) : s.Delivers := by
  obtain ⟨v, follows⟩ := flows.follows
  have sound := follows.sound
  have words := flows.words
  constructor
  case sound => exact sound
  case not_full => exact follows.writes.full
  case whole =>
    intro received
    obtain ⟨-, full, parcel⟩ := rxWord_eq flows.parcels flows.engaged received
    rw [full, parcel.nbitsLast]
    split <;> rfl
  case words => exact words
  case in_order =>
    rw [← words]
    exact sound.in_order.trans (List.prefix_append _ _)

/-- Every byte of every parcel that is received reaches the host, in order, at any pace. -/
theorem block_reads_kept
    (five : 5 ≤ AW)
    (t : DapTop)
    (i : TopInput AW)
    {fifo : ReplyFifo AW}
    (reset : fifo.IsReset)
    (moments : List (TopMoment AW))
    (allowed : Along step Allowed (start t i fifo) moments) :
    ∀ s ∈ visits step (start t i fifo) moments, s.Delivers := by
  intro s visited
  exact (visits_invariant (fun _ _ => Flows.step) (flows_start five t i reset) allowed s
    visited).delivers

/-- `dap_top` with every register at zero. -/
def unset : DapTop where
  regs := ⟨0, 0, 0, 0, 0, 0, false, false, false, false, 0, 0⟩
  rxLag := 0
  rxWideAny := false
  requests := ⟨false, false, false, false, false, false, false⟩
  seq := ⟨.store, false, false, 0, false, false, 0, true, false, false, 0, false, 0, false, false⟩
  status := ⟨0, 0, 0, false, false, false, false, false, false, false⟩
  pusher := ⟨true, 3, 0, true, 0⟩
  fifoRoom := true
  rxRoom := true
  wfifo := ⟨fun _ => 0, 0, 0, 0, true, false, 0⟩
  rx :=
    { frame := ⟨.trail, 0, false, 0, 0, false, false, 0, false, 0, false, 0, false, false, false, 0,
        true, true, false, true, 0, false, false, false, false⟩
      capture := ⟨0, 0, 0, 0, 0, 0, 0, false⟩
      beat := ⟨0, false, false, false, false, false, 0, 0, false⟩
      budget := ⟨0, 0, 0, 0, 0, 0, 0, false, false, false⟩
      streaming := ⟨false, false, true, true, false⟩
      waitLeft0 := 0
      waitNone := false
      hunting := false
      datOe := false }

/-- An edge of the fabric clock alone. -/
def fabricEdge (wr : Option RegWrite) (txDone dap1In dap2In : Bool) : TopMoment 5 :=
  ⟨some ⟨wr, txDone, dap1In, dap2In, 0⟩, none⟩

/-- A block of one raw parcel is queued and received over two lines, and the host pops it. -/
def oneParcel : List (TopMoment 5) :=
  [fabricEdge (some ⟨0x0B, 0x06⟩) false false false,
    fabricEdge (some ⟨0x0A, 0⟩) false false false,
    fabricEdge (some ⟨0x01, 0x02⟩) false false false,
    fabricEdge none false false false,
    fabricEdge none false false false,
    fabricEdge none false false false,
    fabricEdge none true false false] ++
  List.replicate 50 (fabricEdge none false true false) ++
  List.replicate 8 ⟨none, some ⟨true, false, 6⟩⟩

/-- A FIFO of 32 bytes after its reset. -/
def emptyReplies : ReplyFifo 5 :=
  (ReplyFifo.configured (fun _ => 0) 5 3 false true 7).writeEdge false ⟨true, false, 0, 0⟩

/-- Both after a reset. -/
def atReset : BlockReads 5 := start unset ⟨true, none, false, false, false, 5⟩ emptyReplies

theorem block_reads_kept_parcel :
    Along step Allowed atReset oneParcel ∧
      (oneParcel.foldl step atReset).passage.taken = [0x55, 0x55, 0x55, 0x55] ∧
      ∀ s ∈ visits step atReset oneParcel, s.Delivers :=
  have allowed : Along step Allowed atReset oneParcel := by decide +kernel
  ⟨allowed, by decide +kernel,
    block_reads_kept (by decide) _ _ ⟨_, _, _, _, _, _, _, rfl, rfl⟩ _ allowed⟩

end BlockReads
end Fpga
end TriCoreDap
