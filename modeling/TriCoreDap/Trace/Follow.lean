import TriCoreDap.Trace.Drain

/-!
# Following a writer, on absolute paragraph numbers

What the drain is for, without the pointers' modulo: a reader that knows the
number of its next paragraph and of the writer's, reads the complete ones that
the writer leaves it time for, and accounts for the others as lost.  The
faithful drain computes the same from positions modulo the buffer as long as
the writer is less than a lap past the next paragraph at the poll.
-/

namespace TriCoreDap
namespace Trace
namespace Follow

/-- How the reading loop of a pass ended. -/
inductive Stop
  | complete
  | failed (i : Nat)
  | torn (i : Nat)
  deriving DecidableEq, Repr

/-- Walk over the paragraphs from the `i`-th on: a chain starts with every
eighth of them and may fail; a paragraph that is not intact ends the walk. -/
def walk (intact : Nat → Bool) (fails : Nat → Bool) : (left i : Nat) → Stop
  | 0, _ => .complete
  | left + 1, i =>
      if i % chainPars = 0 ∧ fails (i / chainPars) then .failed i
      else if intact i then walk intact fails left (i + 1)
      else .torn i

/-- Where the reader stands between two passes: the number of its next
paragraph and how many it has not yet reported as lost. -/
structure Reader where
  next : Nat
  pending : Nat
  deriving DecidableEq, Repr

/-- A pass: the paragraphs `first .. first + count - 1` are published, the
first of them with the loss `lost`; `counted` paragraphs were given up. -/
structure Outcome where
  first : Nat
  count : Nat
  lost : Nat
  counted : Nat
  reader : Reader
  stop : Stop
  deriving DecidableEq, Repr

/-- Paragraph `first + i` is intact when the writer was less than a lap past it
at the pointer read after its group. -/
def intactAt (total first : Nat) (nowPar : Nat → Nat) (i : Nat) : Bool :=
  decide (nowPar (i / nowEvery) < first + i + total)

/-- One pass of the reader, the writer being in paragraph `writer` at the poll
and in paragraph `nowPar g` at the `g`-th pointer read after it. -/
def pass
    (total : Nat)
    (reader : Reader)
    (writer : Nat)
    (nowPar : Nat → Nat)
    (fails : Nat → Bool) : Outcome :=
  let available := writer - reader.next
  if total - 1 ≤ available ∧ available ≠ 0 then
    { first := writer
      count := 0
      lost := reader.pending + available
      counted := available
      reader := { next := writer, pending := reader.pending + available }
      stop := .complete }
  else
    let drop := available + traceMargin - total
    let first := reader.next + drop
    let toRead := available - drop
    let lost := reader.pending + drop
    let stop := walk (intactAt total first nowPar) fails toRead 0
    match stop with
    | .complete =>
        { first, count := toRead, lost, counted := drop, stop
          reader :=
            { next := writer
              pending := if toRead = 0 then lost else 0 } }
    | .failed i =>
        { first, count := i, lost, counted := drop, stop
          reader :=
            { next := first + i
              pending := if i = 0 then lost else 0 } }
    | .torn i =>
        { first, count := i, lost, counted := drop + (toRead - i), stop
          reader :=
            { next := nowPar (i / nowEvery)
              pending := (if i = 0 then lost else 0) + (toRead - i) } }

variable {intact fails : Nat → Bool}

/-- A walk that has got as far as paragraph `i`. -/
structure Walked
    (intact fails : Nat → Bool)
    (i : Nat) : Prop where
  intact_lt : ∀ k, k < i → intact k = true
  chains_lt : ∀ k, k < i → k % chainPars = 0 → fails (k / chainPars) = false

/-- The ends of a walk over `toRead` paragraphs. -/
def Ends (intact fails : Nat → Bool) (toRead : Nat) : Stop → Prop
  | .complete => Walked intact fails toRead
  | .failed i => i < toRead ∧ Walked intact fails i ∧
      i % chainPars = 0 ∧ fails (i / chainPars) = true
  | .torn i => i < toRead ∧ Walked intact fails i ∧
      (i % chainPars = 0 → fails (i / chainPars) = false) ∧ intact i = false

theorem Walked.zero (intact fails : Nat → Bool) : Walked intact fails 0 :=
  ⟨by simp, by simp⟩

theorem Walked.succ
    (walked : Walked intact fails i)
    (chain : i % chainPars = 0 → fails (i / chainPars) = false)
    (isIntact : intact i = true) :
    Walked intact fails (i + 1) := by
  constructor
  · intro k bound
    rcases Nat.lt_succ_iff_lt_or_eq.mp bound with lower | equal
    · exact walked.intact_lt k lower
    · exact equal ▸ isIntact
  · intro k bound
    rcases Nat.lt_succ_iff_lt_or_eq.mp bound with lower | equal
    · exact walked.chains_lt k lower
    · exact equal ▸ chain

/-- A walk ends as it should. -/
theorem ends_walk
    (left i : Nat)
    (walked : Walked intact fails i) :
    Ends intact fails (i + left) (walk intact fails left i) := by
  induction left generalizing i with
  | zero => exact walked
  | succ left inductionHypothesis =>
      simp only [walk]
      split_ifs with chainFails isIntact
      · exact ⟨by omega, walked, chainFails⟩
      · have step := inductionHypothesis (i + 1)
          (walked.succ (fun start => by simpa [start] using chainFails) isIntact)
        rwa [show i + 1 + left = i + (left + 1) by omega] at step
      · exact ⟨by omega, walked, fun start => by simpa [start] using chainFails,
          by simpa using isIntact⟩

private theorem Walked.torn_le
    (walked : Walked intact fails i)
    (notIntact : intact k = false) : i ≤ k := by
  by_contra below
  have := walked.intact_lt k (by omega)
  simp [notIntact] at this

private theorem Walked.failed_le
    (walked : Walked intact fails i)
    (start : k % chainPars = 0)
    (fail : fails (k / chainPars) = true) : i ≤ k := by
  by_contra below
  have := walked.chains_lt k (by omega) start
  simp [fail] at this

/-- A walk ends in one way only. -/
theorem Ends.unique
    (ends : Ends intact fails toRead stop)
    (ends' : Ends intact fails toRead stop') : stop = stop' := by
  cases stop with
  | complete =>
      cases stop' with
      | complete => rfl
      | failed i =>
          have := Walked.failed_le ends ends'.2.2.1 ends'.2.2.2
          exact absurd ends'.1 (by omega)
      | torn i =>
          have := Walked.torn_le ends ends'.2.2.2
          exact absurd ends'.1 (by omega)
  | failed i =>
      cases stop' with
      | complete =>
          have := Walked.failed_le ends' ends.2.2.1 ends.2.2.2
          exact absurd ends.1 (by omega)
      | failed k =>
          have lower := Walked.failed_le ends'.2.1 ends.2.2.1 ends.2.2.2
          have upper := Walked.failed_le ends.2.1 ends'.2.2.1 ends'.2.2.2
          rw [Nat.le_antisymm upper lower]
      | torn k =>
          have lower := Walked.failed_le ends'.2.1 ends.2.2.1 ends.2.2.2
          have upper := Walked.torn_le ends.2.1 ends'.2.2.2
          obtain rfl : i = k := Nat.le_antisymm upper lower
          have := ends'.2.2.1 ends.2.2.1
          simp [ends.2.2.2] at this
  | torn i =>
      cases stop' with
      | complete =>
          have := Walked.torn_le ends' ends.2.2.2
          exact absurd ends.1 (by omega)
      | failed k =>
          have lower := Walked.torn_le ends'.2.1 ends.2.2.2
          have upper := Walked.failed_le ends.2.1 ends'.2.2.1 ends'.2.2.2
          obtain rfl : i = k := Nat.le_antisymm upper lower
          have := ends.2.2.1 ends'.2.2.1
          simp [ends'.2.2.2] at this
      | torn k =>
          have lower := Walked.torn_le ends'.2.1 ends.2.2.2
          have upper := Walked.torn_le ends.2.1 ends'.2.2.2
          rw [Nat.le_antisymm upper lower]

theorem walk_eq_of_ends
    (ends : Ends intact fails toRead stop) :
    walk intact fails toRead 0 = stop := by
  have walkEnds := ends_walk toRead 0 (Walked.zero intact fails)
  rw [Nat.zero_add] at walkEnds
  exact walkEnds.unique ends

end Follow
end Trace
end TriCoreDap
