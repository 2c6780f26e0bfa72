import TriCoreDap.Library.LapBuffer
import TriCoreDap.Trace.Drain

/-!
# The trace memory and its writer

The trace FIFO is a circular buffer of words that the target fills without
waiting.  Time is the number of words it has written; paragraph `a` consists of
the words `a * wordsPerPar` to `(a + 1) * wordsPerPar - 1`.  A `Timeline` says
when each word of a drain pass was read, and `serve` answers block reads from
it.
-/

namespace TriCoreDap
namespace Trace

/-- The trace FIFO: its bounds, the words written in order, and what it held
before. -/
structure Tram where
  bot : Nat
  span : Nat
  source : Nat → Word
  initial : Nat → Word

namespace Tram

def totalPar (tram : Tram) : Nat := tram.span / paragraph

/-- What a cell holds when `written` words have been written. -/
def word (tram : Tram) (written cell : Nat) : Word :=
  LapBuffer.read tram.source tram.initial
    (tram.totalPar * wordsPerPar) written cell

/-- The contents of the writer's paragraph `a`. -/
def paragraphWords (tram : Tram) (a : Nat) : List Word :=
  (List.range wordsPerPar).map fun j => tram.source (a * wordsPerPar + j)

/-- The cell at a bus address. -/
def cellOf (tram : Tram) (addr : Nat) : Nat :=
  sub32 addr (tramBase + tram.bot) / 4

/-- The answer to a block read whose `j`-th word was read at `time j`. -/
def blockWords (tram : Tram) (time : Nat → Nat) (req : BlockReq) : List Word :=
  (List.range req.count).map fun j =>
    tram.word (time j) (tram.cellOf req.addr + j)

/-- A `FIFONOW` value that points into the paragraph being written at time
`written`. -/
def Points (tram : Tram) (value : Word) (written : Nat) : Prop :=
  sub32 (value &&& ptrMask) tram.bot % tram.span / paragraph =
    written / wordsPerPar % tram.totalPar

/-- Whole paragraphs, enough of them for the drain's margin. -/
structure Sound (tram : Tram) : Prop where
  whole : tram.span = tram.totalPar * paragraph
  enough : traceMargin ≤ tram.totalPar
  span_le : tram.span ≤ 2 ^ 32

end Tram

/-- When a drain pass read what: word `j` of its `i`-th paragraph, and the
pointer after its `g`-th group, together with the pointer's value and with the
chains that failed. -/
structure Timeline where
  paragraphTime : Nat → Nat → Nat
  nowTime : Nat → Nat
  nowWord : Nat → Word
  fails : Nat → Bool

namespace Timeline

/-- The words that answer a chain of block reads, from the `i`-th paragraph and
the `g`-th pointer read of the pass on. -/
def serve (tram : Tram) (timeline : Timeline) :
    (i g : Nat) → List BlockReq → List Word
  | _, _, [] => []
  | i, g, req :: rest =>
      if req.count = 1 ∧ req.addr = fifonow then
        timeline.nowWord g :: serve tram timeline i (g + 1) rest
      else
        tram.blockWords (timeline.paragraphTime i) req ++
          serve tram timeline (i + 1) g rest

/-- The link of a pass with this timeline. -/
def link
    (timeline : Timeline)
    (tram : Tram)
    (tail : Nat → Nat) : Link where
  blockreadMany chain reqs :=
    if timeline.fails chain then none
    else
      some (serve tram timeline (chain * chainPars)
        (chain * (chainPars / nowEvery)) reqs)
  tail := tail

theorem blockreadMany_of_fails
    {timeline : Timeline}
    (fails : timeline.fails chain = true) :
    (timeline.link tram tail).blockreadMany chain reqs = none := by
  simp [link, fails]

theorem blockreadMany_of_reads
    {timeline : Timeline}
    (reads : timeline.fails chain = false) :
    (timeline.link tram tail).blockreadMany chain reqs =
      some (timeline.serve tram (chain * chainPars)
        (chain * (chainPars / nowEvery)) reqs) := by
  simp [link, reads]

/-- The reads happen in order from time `start` on, and between two pointer
reads the writer advances by less than the whole buffer. -/
structure Paced (timeline : Timeline) (tram : Tram) (start : Nat) : Prop where
  read_after : ∀ i j, start ≤ timeline.paragraphTime i j
  read_before : ∀ i j, timeline.paragraphTime i j ≤ timeline.nowTime (i / nowEvery)
  now_after : start ≤ timeline.nowTime 0
  now_mono : ∀ g, timeline.nowTime g ≤ timeline.nowTime (g + 1)
  points : ∀ g, tram.Points (timeline.nowWord g) (timeline.nowTime g)
  pace_first :
    timeline.nowTime 0 / wordsPerPar < start / wordsPerPar + tram.totalPar
  pace : ∀ g, timeline.nowTime (g + 1) / wordsPerPar <
    timeline.nowTime g / wordsPerPar + tram.totalPar

/-- The paragraph the writer is in at the `g`-th pointer read. -/
def nowPar (timeline : Timeline) (g : Nat) : Nat :=
  timeline.nowTime g / wordsPerPar

end Timeline

theorem wordsPerPar_eq : wordsPerPar = 256 := rfl

theorem paragraph_eq : paragraph = 1024 := rfl

namespace Tram

variable {tram : Tram}

@[simp] theorem length_paragraphWords (a : Nat) :
    (tram.paragraphWords a).length = wordsPerPar := by
  simp [paragraphWords]

theorem Sound.totalPar_pos (sound : tram.Sound) : 0 < tram.totalPar := by
  have enough := sound.enough
  simp only [traceMargin] at enough
  omega

/-- Reading a paragraph's place between its last word and the writer's return
gives the paragraph's own word. -/
theorem word_of_within_lap
    (indexLt : j < wordsPerPar)
    (started : a * wordsPerPar + j < written)
    (withinLap : written / wordsPerPar < a + tram.totalPar) :
    tram.word written (a % tram.totalPar * wordsPerPar + j) =
      tram.source (a * wordsPerPar + j) := by
  have cell : a % tram.totalPar * wordsPerPar + j =
      (a * wordsPerPar + j) % (tram.totalPar * wordsPerPar) := by
    have split : a * wordsPerPar + j =
        (a % tram.totalPar * wordsPerPar + j) +
          tram.totalPar * wordsPerPar * (a / tram.totalPar) := by
      conv_lhs => rw [← Nat.mod_add_div a tram.totalPar]
      ring
    rw [split, Nat.add_mul_mod_self_left]
    symm
    apply Nat.mod_eq_of_lt
    by_cases positive : 0 < tram.totalPar
    · have bound : a % tram.totalPar + 1 ≤ tram.totalPar := Nat.mod_lt a positive
      calc a % tram.totalPar * wordsPerPar + j
          < (a % tram.totalPar + 1) * wordsPerPar := by rw [Nat.add_mul]; omega
        _ ≤ tram.totalPar * wordsPerPar := Nat.mul_le_mul_right _ bound
    · have empty : tram.totalPar = 0 := by omega
      rw [empty] at withinLap
      have : a * wordsPerPar < a * wordsPerPar := by
        calc a * wordsPerPar < written := by omega
          _ < (written / wordsPerPar + 1) * wordsPerPar :=
            Nat.lt_mul_of_div_lt (Nat.lt_succ_self _) (by decide)
          _ ≤ a * wordsPerPar := Nat.mul_le_mul_right _ (by omega)
      omega
  rw [word, cell]
  apply LapBuffer.read_of_within_lap _ _ started
  have upper : written < (a + tram.totalPar) * wordsPerPar :=
    Nat.lt_mul_of_div_lt withinLap (by decide)
  rw [Nat.add_mul] at upper
  omega

/-- The cell at the address of the paragraph in place `par`. -/
theorem cellOf_paragraph
    (sound : tram.Sound)
    (parLt : par < tram.totalPar) :
    tram.cellOf (u32 (tramBase + tram.bot + par * paragraph)) =
      par * wordsPerPar := by
  have inSpan : par * paragraph < 2 ^ 32 := by
    calc par * paragraph < tram.totalPar * paragraph :=
          Nat.mul_lt_mul_of_pos_right parLt (by decide)
      _ = tram.span := sound.whole.symm
      _ ≤ 2 ^ 32 := sound.span_le
  simp only [cellOf, sub32, u32, paragraph_eq, wordsPerPar_eq] at *
  omega

end Tram

/-- The drain and the trace memory agree on the FIFO's bounds. -/
structure Drain.Fits (drain : Drain) (tram : Tram) : Prop where
  bot_eq : drain.bot = tram.bot
  span_eq : drain.span = tram.span

theorem Drain.Fits.totalPar_eq {drain : Drain} {tram : Tram}
    (fits : drain.Fits tram) : drain.totalPar = tram.totalPar := by
  rw [Drain.totalPar, fits.span_eq, Tram.totalPar]

theorem Drain.Fits.parOf_points {drain : Drain} {tram : Tram}
    (fits : drain.Fits tram)
    (points : tram.Points value written) :
    drain.parOf (value &&& ptrMask) =
      written / wordsPerPar % tram.totalPar := by
  rw [Drain.parOf, fits.bot_eq, fits.span_eq]
  exact points

/-! ## A trace memory that counts -/

/-- All reads of a pass happen at one time. -/
def Timeline.still (time : Nat) : Timeline where
  paragraphTime _ _ := time
  nowTime _ := time
  nowWord _ := 4 * time
  fails _ := false

theorem Timeline.still_paced
    {tram : Tram}
    (sound : tram.Sound)
    (points : tram.Points (4 * time) time) :
    (Timeline.still time).Paced tram time where
  read_after _ _ := Nat.le_refl _
  read_before _ _ := Nat.le_refl _
  now_after := Nat.le_refl _
  now_mono _ := Nat.le_refl _
  points _ := points
  pace_first := Nat.lt_add_of_pos_right sound.totalPar_pos
  pace _ := Nat.lt_add_of_pos_right sound.totalPar_pos

/-- An 8 kB trace memory whose `n`-th written word is `n`. -/
def Tram.counting : Tram where
  bot := 0
  span := 0x2000
  source := id
  initial _ := 0

theorem Tram.totalPar_counting : Tram.counting.totalPar = 8 := by decide

theorem Tram.counting_sound : Tram.counting.Sound :=
  ⟨by decide, by decide, by decide⟩

theorem and_ptrMask (value : Nat) :
    value &&& ptrMask = value % 2 ^ 13 / 2 ^ 5 * 2 ^ 5 := by
  have mask : ptrMask = (2 ^ 8 - 1) <<< 5 := rfl
  apply Nat.eq_of_testBit_eq
  intro i
  rw [mask, Nat.testBit_and, Nat.testBit_shiftLeft, Nat.testBit_two_pow_sub_one,
    Nat.testBit_mul_two_pow, Nat.testBit_div_two_pow, Nat.testBit_mod_two_pow]
  by_cases low : 5 ≤ i
  · rw [Nat.sub_add_cancel low]
    simp [low, show i - 5 < 8 ↔ i < 13 by omega, Bool.and_comm]
  · simp [low]

theorem Tram.counting_points (time : Nat) : Tram.counting.Points (4 * time) time := by
  rw [Tram.Points, Tram.totalPar_counting, and_ptrMask, paragraph_eq, wordsPerPar_eq]
  simp only [sub32, u32, Tram.counting]
  omega

end Trace
end TriCoreDap
