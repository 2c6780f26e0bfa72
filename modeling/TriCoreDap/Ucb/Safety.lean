import TriCoreDap.Flash.Log
import TriCoreDap.Library.Lists
import TriCoreDap.Ucb.Writer

/-!
# Which blocks are ever erased or programmed

Along every run, whatever the target answers, each erase or program command
goes to a boot mode header that passed all of the plan's tests.
-/

namespace TriCoreDap
namespace Ucb

open Probe Flash

/-- The two-bit state of a block in its confirmation register. -/
def stateBits (block : UcbBlock) (word : Word) : Nat :=
  word / 2 ^ stateShift block.confirmMask % 4

/-- What the log and the image say in favour of writing a block. -/
structure Cleared (image : UcbImage) (log : List Event) (block : UcbBlock) : Prop where
  catalogued : block ∈ blocks
  header : block.name ∈ imageOwned
  carried : image.carries block = true
  passes : check block (image.blobOf block) = []
  notConfirmed : ∀ offset ∈ codeOffsets block,
    le32 (image.blobOf block) offset ≠ codeConfirmed
  readState : ∃ word, (⟨.read32 (stateAddr block), some word⟩ : Event) ∈ log ∧
    (stateBits block word = 0 ∨ stateBits block word = 1)
  readContents : ∃ words : List Word, readEvents block.base words <:+: log ∧
    4 * words.length = ucbSize ∧ words.flatMap wordBytes ≠ image.blobOf block

/-- The command erases the block alone or programs a page of it. -/
def InBlock (block : UcbBlock) : Command → Prop
  | .erase addr count => addr = some block.base ∧ count = some 1
  | .program addr =>
      ∃ page, page < ucbSize / ucbPageSize ∧
        addr = some (block.base + ucbPageSize * page)
  | .load _ _ => False

/-- The command stays on a block that was cleared before. -/
def Permitted (image : UcbImage) (before : List Event) (command : Command) : Prop :=
  ∃ block, Cleared image before block ∧ InBlock block command

variable {image : UcbImage} {block : UcbBlock} {log : List Event}
  {targets : List UcbBlock}

theorem Cleared.append
    (cleared : Cleared image log block) (event : Event) :
    Cleared image (log ++ [event]) block where
  catalogued := cleared.catalogued
  header := cleared.header
  carried := cleared.carried
  passes := cleared.passes
  notConfirmed := cleared.notConfirmed
  readState := by
    obtain ⟨word, member, bits⟩ := cleared.readState
    exact ⟨word, List.mem_append_left _ member, bits⟩
  readContents := by
    obtain ⟨words, infix', size, differ⟩ := cleared.readContents
    exact ⟨words, infix'.trans (List.prefix_append _ _).isInfix, size, differ⟩

/-- All commands so far were permitted, and the targets are cleared. -/
structure Guarded
    (image : UcbImage)
    (targets : List UcbBlock)
    (log : List Event) : Prop where
  logged : Logged (Permitted image) log
  cleared : ∀ block ∈ targets, Cleared image log block

theorem Guarded.append
    (guarded : Guarded image targets log)
    (event : Event)
    (allowed : ∀ command, commandOf log event.1 = some command →
      ∃ block ∈ targets, InBlock block command) :
    Guarded image targets (log ++ [event]) where
  logged := guarded.logged.append event fun command some_eq => by
    obtain ⟨block, member, inBlock⟩ := allowed command some_eq
    exact ⟨block, guarded.cleared block member, inBlock⟩
  cleared block member := (guarded.cleared block member).append event

/-- Operations that start no command keep the guard. -/
theorem Guarded.calm
    (op : Op)
    (log : List Event)
    (reply : Reply op)
    (log' : List Event)
    (calm : Calm op)
    (guarded : Guarded image targets log)
    (step : logging op log reply log') : Guarded image targets log' := by
  obtain rfl := step
  exact guarded.append _ fun command some_eq => by
    rw [calm log] at some_eq
    exact nomatch some_eq

theorem Guarded.reading
    (op : Op)
    (log : List Event)
    (reply : Reply op)
    (log' : List Event)
    (reading : Reading op)
    (guarded : Guarded image targets log)
    (step : logging op log reply log') : Guarded image targets log' :=
  Guarded.calm op log reply log' (calm_of_reading reading) guarded step

theorem Guarded.cons
    (guarded : Guarded image targets log)
    (cleared : Cleared image log block) :
    Guarded image (block :: targets) log where
  logged := guarded.logged
  cleared target member := by
    rcases List.mem_cons.mp member with rfl | member
    · exact cleared
    · exact guarded.cleared target member

theorem Guarded.tail
    (guarded : Guarded image (block :: targets) log) :
    Guarded image targets log where
  logged := guarded.logged
  cleared target member := guarded.cleared target (List.mem_cons_of_mem _ member)

/-! ## The catalogue -/

theorem blocks_in_range :
    ∀ block ∈ blocks, block.base % 4 = 0 ∧ block.base + ucbSize ≤ 2 ^ 32 := by
  decide

/-- The headers' masks cover the two bits at the shift found for them. -/
theorem headers_masks :
    ∀ block ∈ blocks, isOwned block = true →
      block.confirmMask = 3 <<< stateShift block.confirmMask ∧
        popcount block.confirmMask = 2 := by
  decide

theorem mem_imageOwned (owned : isOwned block = true) : block.name ∈ imageOwned := by
  obtain ⟨name, member, same⟩ := List.any_eq_true.mp owned
  rwa [← eq_of_beq same]

/-- The masked and shifted register value is the block's two-bit state. -/
theorem masked_eq_stateBits
    (mask_eq : block.confirmMask = 3 <<< stateShift block.confirmMask)
    (word : Nat) :
    ((word &&& block.confirmMask) >>> stateShift block.confirmMask) &&& 3 =
      stateBits block word := by
  have masked : block.confirmMask >>> stateShift block.confirmMask = 3 :=
    (congrArg (· >>> stateShift block.confirmMask) mask_eq).trans
      (Nat.shiftLeft_shiftRight 3 _)
  rw [Nat.shiftRight_and_distrib, masked, Nat.and_assoc, Nat.and_self, stateBits,
    Nat.shiftRight_eq_div_pow]
  exact Nat.and_two_pow_sub_one_eq_mod _ 2

/-! ## The plan -/

theorem length_flatMap_wordBytes (words : List Word) :
    (words.flatMap wordBytes).length = 4 * words.length := by
  rw [length_flatMap_of_forall length_wordBytes, Nat.mul_comm]

/-- Reading a block logs its words and gives their bytes. -/
theorem holds_readBlock_of_reading
    {inv : List Event → Prop}
    (catalogued : block ∈ blocks)
    (keeps : ∀ op log reply log', Reading op → inv log →
      logging op log reply log' → inv log')
    (start : inv log) :
    (readBlock block).Holds logging inv
      (fun result log' => ∀ bytes, result = some bytes →
        ∃ words : List Word, words.length = 128 ∧ bytes = words.flatMap wordBytes ∧
          log' = log ++ readEvents block.base words) log := by
  obtain ⟨aligned, inRange⟩ := blocks_in_range block catalogued
  exact holds_readMem id (fun _ _ _ _ step => step) keeps 128 ucbSize
    block.base aligned inRange (by decide) start

/-- Reading a block, from a cleared log. -/
theorem holds_readBlock
    (catalogued : block ∈ blocks)
    (guarded : Guarded image targets log) :
    (readBlock block).Holds logging (Guarded image targets)
      (fun result log' => ∀ bytes, result = some bytes →
        ∃ words : List Word, words.length = 128 ∧ bytes = words.flatMap wordBytes ∧
          log' = log ++ readEvents block.base words) log :=
  holds_readBlock_of_reading catalogued Guarded.reading guarded

theorem differences_self (bytes : List Byte) : differences bytes bytes = [] := by
  simp [differences]

/-- What `state_on_target` reports of a header is what its register said. -/
theorem holds_stateOnTarget
    (catalogued : block ∈ blocks)
    (owned : isOwned block = true)
    (guarded : Guarded image targets log) :
    (stateOnTarget block).Holds logging (Guarded image targets)
      (fun state log' => state = .unread ∨ state = .unlocked →
        ∃ word, (⟨.read32 (stateAddr block), some word⟩ : Event) ∈ log' ∧
          (stateBits block word = 0 ∨ stateBits block word = 1)) log := by
  obtain ⟨mask_eq, twoBits⟩ := headers_masks block catalogued owned
  refine ⟨guarded, fun reply log' step => ?_⟩
  have guarded' := Guarded.reading (.read32 (stateAddr block)) _ _ _ trivial guarded step
  obtain rfl := step
  cases reply with
  | none =>
      refine ⟨guarded', fun _ log' step => ?_⟩
      refine ⟨Guarded.reading .clearErrorState _ _ _ trivial guarded' step, ?_⟩
      rintro (impossible | impossible) <;> exact nomatch impossible
  | some word =>
      show Program.Holds _ _ _ (if _ then _ else _) _
      rw [if_neg (not_not_intro twoBits), masked_eq_stateBits mask_eq]
      refine ⟨guarded', fun reported => ⟨word, by simp, ?_⟩⟩
      have bits_lt : stateBits block word < 4 := Nat.mod_lt _ (by decide)
      have cases : stateBits block word = 0 ∨ stateBits block word = 1 ∨
          stateBits block word = 2 ∨ stateBits block word = 3 := by omega
      rcases cases with bits | bits | bits | bits
      · exact Or.inl bits
      · exact Or.inr bits
      · rw [bits] at reported
        rcases reported with impossible | impossible <;> exact nomatch impossible
      · rw [bits] at reported
        rcases reported with impossible | impossible <;> exact nomatch impossible

/-- A block that is not to be written needs nothing. -/
theorem holds_decided
    {action : Action}
    (guarded : Guarded image targets log)
    (state : Option TargetState)
    (reason : Reason)
    (notWrite : action ≠ .write) :
    (Program.done ⟨block, action, state, reason⟩ : Run Decision).Holds logging
      (Guarded image targets)
      (fun decision log' => decision.block = block ∧
        (decision.action = .write → Cleared image log' block)) log :=
  ⟨guarded, rfl, fun write => absurd write notWrite⟩

/-- What the last tests of `plan_block` establish. -/
theorem holds_planContents
    (catalogued : block ∈ blocks)
    (guarded : Guarded image targets log)
    (ready : ∀ log', log <+: log' →
      (∃ words : List Word, readEvents block.base words <:+: log' ∧
        4 * words.length = ucbSize ∧ words.flatMap wordBytes ≠ image.blobOf block) →
      Cleared image log' block)
    (state : TargetState) :
    (planContents block (image.blobOf block) state).Holds logging (Guarded image targets)
      (fun decision log' => decision.block = block ∧
        (decision.action = .write → Cleared image log' block)) log := by
  refine (holds_readBlock catalogued guarded).bind fun result log' guarded' found => ?_
  cases result with
  | none => exact holds_decided guarded' _ _ (by decide)
  | some onTarget =>
      obtain ⟨words, length_eq, bytes_eq, log_eq⟩ := found onTarget rfl
      show Program.Holds _ _ _ (Program.done _) _
      rw [Program.holds_done]
      refine ⟨guarded', ?_⟩
      split
      · next differ =>
          refine ⟨rfl, fun _ => ready log' ?_ ⟨words, ?_, ?_, ?_⟩⟩
          · exact log_eq ▸ List.prefix_append _ _
          · exact log_eq ▸ (List.suffix_append _ _).isInfix
          · rw [length_eq]
            decide
          · intro same
            rw [← bytes_eq] at same
            rw [same, differences_self] at differ
            exact differ rfl
      · exact ⟨rfl, fun write => nomatch write⟩

theorem not_confirmed
    (unconfirmed : confirmedAt block blob = [])
    (offset : Nat)
    (member : offset ∈ codeOffsets block) : le32 blob offset ≠ codeConfirmed := by
  intro confirmed
  have found : offset ∈ confirmedAt block blob := by
    simp [confirmedAt, member, confirmed]
  rw [unconfirmed] at found
  exact absurd found List.not_mem_nil

theorem holds_planBlock
    (catalogued : block ∈ blocks)
    (carried : image.carries block = true)
    (guarded : Guarded image targets log) :
    (planBlock image block).Holds logging (Guarded image targets)
      (fun decision log' => decision.block = block ∧
        (decision.action = .write → Cleared image log' block)) log := by
  unfold planBlock
  cases owned : isOwned block with
  | false =>
      rw [if_pos (show (!false) = true from rfl)]
      exact holds_decided guarded _ _ (by decide)
  | true =>
      rw [if_neg (show ¬(!true) = true by decide)]
      have tested := Classical.em (check block (image.blobOf block) = [])
      cases tested with
      | inr problems =>
          rw [if_pos problems]
          exact holds_decided guarded _ _ (by decide)
      | inl passes =>
          rw [if_neg (not_not_intro passes)]
          have searched := Classical.em (confirmedAt block (image.blobOf block) = [])
          cases searched with
          | inr confirms =>
              rw [if_pos confirms]
              exact holds_decided guarded _ _ (by decide)
          | inl unconfirmed =>
              rw [if_neg (not_not_intro unconfirmed)]
              refine (holds_stateOnTarget catalogued owned guarded).bind
                fun state log' guarded' read => ?_
              split
              · exact holds_decided guarded' _ _ (by decide)
              · next writable =>
                  have reported : state = .unread ∨ state = .unlocked := by
                    simpa only [not_and_or, not_not] using writable
                  obtain ⟨word, member, bits⟩ := read reported
                  refine holds_planContents catalogued guarded' ?_ state
                  intro log'' extends' contents
                  exact ⟨catalogued, mem_imageOwned owned, carried, passes,
                    not_confirmed unconfirmed, ⟨word, extends'.subset member, bits⟩,
                    contents⟩

/-- The plan clears every block it decides to write. -/
theorem holds_planBlocks
    {blocks' : List UcbBlock}
    (catalogued : ∀ block ∈ blocks', block ∈ blocks ∧ image.carries block = true)
    (guarded : Guarded image targets log) :
    (planBlocks image blocks').Holds logging (Guarded image targets)
      (fun decisions log' => ∀ decision ∈ decisions, decision.action = .write →
        Cleared image log' decision.block) log := by
  induction blocks' generalizing targets log with
  | nil => exact ⟨guarded, fun decision member => absurd member List.not_mem_nil⟩
  | cons block rest inductionHypothesis =>
      obtain ⟨inBlocks, carried⟩ := catalogued block List.mem_cons_self
      have others := fun next member =>
        catalogued next (List.mem_cons_of_mem block member)
      refine (holds_planBlock inBlocks carried guarded).bind
        fun decision log' guarded' decided => ?_
      obtain ⟨block_eq, cleared⟩ := decided
      by_cases write : decision.action = .write
      · -- the block just cleared stays so while the others are planned
        have guarded'' := guarded'.cons (cleared write)
        refine Program.holds_seq (fun decisions log'' =>
          Cleared image log'' block ∧ ∀ decision ∈ decisions,
            decision.action = .write → Cleared image log'' decision.block)
          ((inductionHypothesis others guarded'').mono (fun _ => Guarded.tail)
            fun decisions log'' kept planned =>
              ⟨kept.cleared block List.mem_cons_self, planned⟩) ?_
        intro decisions log'' kept planned
        refine ⟨kept, fun next member isWrite => ?_⟩
        rcases List.mem_cons.mp member with rfl | member
        · rw [block_eq]
          exact planned.1
        · exact planned.2 next member isWrite
      · refine (inductionHypothesis others guarded').bind
          fun decisions log'' kept planned => ⟨kept, fun next member isWrite => ?_⟩
        rcases List.mem_cons.mp member with rfl | member
        · exact absurd isWrite write
        · exact planned next member isWrite

/-! ## The writer -/

theorem uses_readBlock (block : UcbBlock) : (readBlock block).Uses Calm :=
  (uses_readMem _ _ _).mono fun _ => calm_of_reading

theorem serving_waitFor (what : What) (timeoutMs : Nat) :
    (waitFor what timeoutMs).Uses Serving := by
  refine Program.uses_bind (serving_waitIdle timeoutMs) fun result => ?_
  cases result <;> trivial

theorem uses_waitFor (what : What) (timeoutMs : Nat) :
    (waitFor what timeoutMs).Uses Calm :=
  (serving_waitFor what timeoutMs).mono calm_of_serving

theorem serving_checkPageMode (block : UcbBlock) :
    (checkPageMode block).Uses Serving := by
  refine ⟨rfl, fun _ => ⟨rfl, fun entered => ?_⟩⟩
  cases entered with
  | false => trivial
  | true =>
      refine ⟨Or.inl rfl, fun status => ?_⟩
      cases status with
      | none => trivial
      | some status => exact ⟨Or.inr (Or.inl rfl), fun errsr => ⟨rfl, fun _ => trivial⟩⟩

theorem uses_checkPageMode (block : UcbBlock) : (checkPageMode block).Uses Calm :=
  (serving_checkPageMode block).mono calm_of_serving

theorem uses_confirmErased (block : UcbBlock) : (confirmErased block).Uses Calm := by
  refine Program.uses_bind (uses_readBlock block) fun after => ?_
  cases after <;> trivial

theorem uses_verifyBlock (block : UcbBlock) (blob : List Byte) :
    (verifyBlock block blob).Uses Calm := by
  refine Program.uses_bind (uses_readBlock block) fun after => ?_
  cases after <;> trivial

theorem Guarded.holds_of_calm
    {program : Run α}
    (guarded : Guarded image targets log)
    (uses : program.Uses Calm) :
    program.Holds logging (Guarded image targets) (fun _ _ => True) log :=
  Program.holds_of_uses Guarded.calm uses guarded

/-- The cycles before an erase command. -/
def eraseSetup (block : UcbBlock) : List (Nat × Nat) :=
  [ (csiBase + cycleAA50, block.base), (csiBase + cycleAA58, 1),
    (csiBase + cycleAAA8, cmdEraseSetup) ]

theorem cycles_eraseSequence (block : UcbBlock) :
    cycles (eraseSequence block) =
      writes (eraseSetup block ++ [(csiBase + cycleAAA8, cmdErase)]) := rfl

theorem calm_eraseSetup :
    ∀ pair ∈ eraseSetup block, Calm (.write32 pair.1 pair.2) := by
  intro pair member
  simp only [eraseSetup, List.mem_cons, List.not_mem_nil, or_false] at member
  rcases member with rfl | rfl | rfl
  · exact calm_offset _ (by decide)
  · exact calm_offset _ (by decide)
  · exact calm_cycle _ _ (Or.inr (by decide))

/-- The erase command goes to the block's base and erases one sector. -/
theorem commandOf_eraseSetup
    (acked : Acked logging (eraseSetup block) log last) :
    commandOf last (.write32 (csiBase + cycleAAA8) cmdErase) =
      some (.erase (some block.base) (some 1)) := by
  obtain ⟨_, rfl, _, rfl, _, rfl, rfl⟩ := acked
  rw [commandOf_erase, latched_append_other _ (by decide),
    latched_append_other _ (by decide), latched_append_write,
    latched_append_other _ (by decide), latched_append_write]

theorem holds_erase
    (target : block ∈ targets)
    (guarded : Guarded image targets log) :
    (erase block).Holds logging (Guarded image targets) (fun _ _ => True) log := by
  refine (guarded.holds_of_calm uses_clearStatus).bind fun _ log' guarded' _ => ?_
  rw [cycles_eraseSequence]
  refine Program.holds_seq (fun _ _ => True)
    (holds_writes (Guarded image targets) _ _ _
      (fun pair member _ _ _ kept step =>
        Guarded.calm _ _ _ _ (calm_eraseSetup pair member) kept step)
      (fun _ kept => kept) (fun _ _ => trivial) ?_ guarded') ?_
  · intro last reply log'' acked kept step
    obtain rfl := step
    refine ⟨kept.append _ fun command some_eq => ⟨block, target, ?_⟩, trivial⟩
    obtain rfl := Option.some.inj ((commandOf_eraseSetup acked).symm.trans some_eq)
    exact ⟨rfl, rfl⟩
  · intro sent log'' guarded'' _
    cases sent with
    | false => exact ⟨guarded'', trivial⟩
    | true =>
        refine guarded''.holds_of_calm
          (Program.uses_bind (uses_waitFor _ _) fun result => ?_)
        cases result with
        | error why => trivial
        | ok done =>
            exact Program.uses_bind uses_clearStatus fun _ => uses_confirmErased block

/-- The cycles before a program command. -/
def programSetup (address : Nat) (blob : List Byte) (offset : Nat) : List (Nat × Nat) :=
  [ (csiBase + cycle5554, cmdClearStatus), (csiBase + cycle5554, cmdEnterPageDflash),
    (csiBase + cycle55F0, le32 blob offset), (csiBase + cycle55F4, le32 blob (offset + 4)),
    (csiBase + cycleAA50, address), (csiBase + cycleAA58, 0),
    (csiBase + cycleAAA8, cmdWritePage) ]

theorem cycles_programSequence (address : Nat) (blob : List Byte) (offset : Nat) :
    cycles (programSequence address blob offset) =
      writes (programSetup address blob offset ++
        [(csiBase + cycleAAA8, cmdProgram)]) := rfl

theorem calm_programSetup :
    ∀ pair ∈ programSetup address blob offset, Calm (.write32 pair.1 pair.2) := by
  intro pair member
  simp only [programSetup, List.mem_cons, List.not_mem_nil, or_false] at member
  rcases member with rfl | rfl | rfl | rfl | rfl | rfl | rfl
  · exact calm_offset _ (by decide)
  · exact calm_offset _ (by decide)
  · exact calm_offset _ (by decide)
  · exact calm_offset _ (by decide)
  · exact calm_offset _ (by decide)
  · exact calm_offset _ (by decide)
  · exact calm_cycle _ _ (Or.inr (by decide))

theorem commandOf_programSetup
    (acked : Acked logging (programSetup address blob offset) log last) :
    commandOf last (.write32 (csiBase + cycleAAA8) cmdProgram) =
      some (.program (some address)) := by
  obtain ⟨_, rfl, _, rfl, _, rfl, _, rfl, _, rfl, _, rfl, _, rfl, rfl⟩ := acked
  rw [commandOf_program, latched_append_other _ (by decide),
    latched_append_other _ (by decide), latched_append_write]

/-- Every page that is programmed lies in the block. -/
theorem pageOrder_in_block :
    ∀ offset ∈ pageOrder, ∃ page, page < ucbSize / ucbPageSize ∧
      offset = ucbPageSize * page := by
  intro offset member
  have bound : ∀ offset ∈ pageOrder, offset / ucbPageSize < ucbSize / ucbPageSize ∧
      offset = ucbPageSize * (offset / ucbPageSize) := by
    decide
  exact ⟨_, bound offset member⟩

theorem holds_programPage
    (target : block ∈ targets)
    (inPages : offset ∈ pageOrder)
    (guarded : Guarded image targets log) :
    (programPage block blob offset).Holds logging (Guarded image targets)
      (fun _ _ => True) log := by
  have catalogued := (guarded.cleared block target).catalogued
  obtain ⟨page, pageLt, rfl⟩ := pageOrder_in_block offset inPages
  obtain ⟨-, inRange⟩ := blocks_in_range block catalogued
  have address_eq : u32 (block.base + ucbPageSize * page) =
      block.base + ucbPageSize * page := by
    apply u32_of_lt
    simp only [ucbSize, ucbPageSize] at *
    omega
  unfold programPage
  simp only [address_eq, cycles_programSequence]
  refine Program.holds_seq (fun _ _ => True)
    (holds_writes (Guarded image targets) _ _ _
      (fun pair member _ _ _ kept step =>
        Guarded.calm _ _ _ _ (calm_programSetup pair member) kept step)
      (fun _ kept => kept) (fun _ _ => trivial) ?_ guarded) ?_
  · intro last reply log'' acked kept step
    obtain rfl := step
    refine ⟨kept.append _ fun command some_eq => ⟨block, target, ?_⟩, trivial⟩
    obtain rfl := Option.some.inj ((commandOf_programSetup acked).symm.trans some_eq)
    exact ⟨page, pageLt, rfl⟩
  · intro sent log'' guarded'' _
    cases sent with
    | false => exact ⟨guarded'', trivial⟩
    | true =>
        refine guarded''.holds_of_calm
          (Program.uses_bind (uses_waitFor _ _) fun result => ?_)
        cases result with
        | error why => trivial
        | ok done =>
            refine Program.uses_bind uses_clearStatus fun cleared => ?_
            cases cleared <;> trivial

theorem holds_programPages
    (target : block ∈ targets)
    (inPages : ∀ offset ∈ offsets, offset ∈ pageOrder)
    (guarded : Guarded image targets log) :
    (programPages block blob offsets).Holds logging (Guarded image targets)
      (fun _ _ => True) log := by
  induction offsets generalizing log with
  | nil => exact ⟨guarded, trivial⟩
  | cons offset rest inductionHypothesis =>
      refine (holds_programPage target (inPages offset List.mem_cons_self)
        guarded).bind fun result log' guarded' _ => ?_
      cases result with
      | error why => exact ⟨guarded', trivial⟩
      | ok done =>
          exact inductionHypothesis
            (fun next member => inPages next (List.mem_cons_of_mem _ member)) guarded'

/-- Writing a cleared block keeps the guard. -/
theorem holds_writeBlock
    (present : Bool)
    (target : block ∈ targets)
    (guarded : Guarded image targets log) :
    (writeBlock present block blob).Holds logging (Guarded image targets)
      (fun _ _ => True) log := by
  refine (guarded.holds_of_calm
    ((uses_tricoreIsHalted present).mono fun _ => calm_of_reading)).bind
      fun halted log₁ guarded₁ _ => ?_
  cases halted with
  | false => exact ⟨guarded₁, trivial⟩
  | true =>
      refine (guarded₁.holds_of_calm (uses_checkPageMode block)).bind
        fun inPageMode log₂ guarded₂ _ => ?_
      cases inPageMode with
      | error why => exact ⟨guarded₂, trivial⟩
      | ok done =>
          refine (holds_erase target guarded₂).bind fun erased log₃ guarded₃ _ => ?_
          cases erased with
          | error why => exact ⟨guarded₃, trivial⟩
          | ok done =>
              refine (holds_programPages target (fun _ member => member) guarded₃).bind
                fun programmed log₄ guarded₄ _ => ?_
              cases programmed with
              | error why => exact ⟨guarded₄, trivial⟩
              | ok done => exact guarded₄.holds_of_calm (uses_verifyBlock block blob)

theorem holds_writePlanned
    (present : Bool)
    (planned : ∀ decision ∈ decisions, decision.action = .write →
      decision.block ∈ targets)
    (guarded : Guarded image targets log) :
    (writePlanned present image decisions).Holds logging (Guarded image targets)
      (fun _ _ => True) log := by
  induction decisions generalizing log with
  | nil => exact ⟨guarded, trivial⟩
  | cons decision rest inductionHypothesis =>
      have others := fun next member =>
        planned next (List.mem_cons_of_mem decision member)
      rw [writePlanned]
      split
      · exact inductionHypothesis others guarded
      · next write =>
          have target := planned decision List.mem_cons_self (not_not.mp write)
          refine (holds_writeBlock present target guarded).bind
            fun result log' guarded' _ => ?_
          refine (inductionHypothesis others guarded').bind
            fun written log'' guarded'' _ => ⟨guarded'', trivial⟩

theorem carried_catalogued :
    ∀ block ∈ carried image, block ∈ blocks ∧ image.carries block = true := by
  intro block member
  rcases List.mem_append.mp member with header | other
  · obtain ⟨named, carried⟩ := List.mem_filter.mp header
    obtain ⟨name, -, found⟩ := List.mem_filterMap.mp named
    exact ⟨List.mem_of_find?_eq_some found, carried⟩
  · obtain ⟨catalogued, both⟩ := List.mem_filter.mp other
    exact ⟨catalogued, (Bool.and_eq_true _ _ ▸ both : _ ∧ _).2⟩

theorem holds_tricoreUcbProgram (present : Bool) (image : UcbImage) :
    (tricoreUcbProgram present (some image)).Holds logging
      (Logged (Permitted image)) (fun _ _ => True) [] := by
  have start : Guarded image [] [] :=
    ⟨Logged.nil, fun block member => absurd member List.not_mem_nil⟩
  refine Program.holds_seq (fun decisions log =>
    Guarded image ((decisions.filter (·.action == .write)).map (·.block)) log) ?_ ?_
  · refine (holds_planBlocks carried_catalogued start).mono
      (fun _ guarded => guarded.logged) fun decisions log guarded cleared => ?_
    refine ⟨guarded.logged, fun block member => ?_⟩
    obtain ⟨decision, chosen, rfl⟩ := List.mem_map.mp member
    obtain ⟨inDecisions, write⟩ := List.mem_filter.mp chosen
    exact cleared decision inDecisions (eq_of_beq write)
  · intro decisions log logged guarded
    show Program.Holds _ _ _ (if _ then _ else _) _
    split
    · exact ⟨logged, trivial⟩
    · have planned : ∀ decision ∈ decisions, decision.action = .write →
          decision.block ∈ (decisions.filter (·.action == .write)).map (·.block) :=
        fun decision member write =>
          List.mem_map_of_mem (List.mem_filter.mpr ⟨member, beq_iff_eq.mpr write⟩)
      refine ((holds_writePlanned present planned guarded).mono
        (fun _ kept => kept.logged) fun _ _ kept _ => kept).bind
          fun written log' _ guarded' => ?_
      refine ((guarded'.holds_of_calm uses_clearStatus).mono
        (fun _ kept => kept.logged) fun _ _ kept _ => kept).bind
          fun _ log'' logged'' _ => ⟨logged'', trivial⟩

/-- Whatever the image, the target's answers and the point at which the run is
cut off: every erase or program command goes to a boot mode header that the
image carries, whose bytes pass the check without confirming the block, and
whose state and contents were read before and allowed the write. -/
theorem commands_only_to_cleared_headers
    (present : Bool)
    (image : UcbImage)
    (reaches : (tricoreUcbProgram present (some image)).Reaches logging []
      (before ++ event :: after))
    (isCommand : commandOf before event.1 = some command) :
    ∃ block, Cleared image before block ∧ InBlock block command :=
  (holds_tricoreUcbProgram present image).of_reaches reaches before event after rfl
    command isCommand

/-- A header in the slot of `BMHD0_ORIG` that starts at `0x80000000`. -/
def headerAt80000000 : UcbImage where
  data offset :=
    if offset < 0x200 then
      ([0x06, 0x00, 0x59, 0xB3, 0x00, 0x00, 0x00, 0x80, 0xD2, 0xE1, 0x0F, 0xE9,
        0x2D, 0x1E, 0xF0, 0x16] ++ List.replicate 0x1E0 0 ++ wordBytes codeUnlocked).getD
          offset 0
    else 0
  present := 1

/-- A halted target whose blocks are erased and whose commands succeed. -/
def erasedTarget (op : Op) (log : List Event) : Reply op × List Event :=
  let reply : Reply op :=
    match op with
    | .read32 addr =>
        some (if addr = dmuHfStatus then statusDfpage
          else if addr = coreBase + offDbgsr then 1 <<< dbgsrHaltShift else 0)
    | .write32 _ _ => true
    | .clearErrorState => ()
    | .deadline _ => 0
    | .writeBlock _ _ => true
    | .runLoader _ _ _ _ => some 0
  (reply, log ++ [⟨op, reply⟩])

/-- The slot the header is written to. -/
def bmhd0 : UcbBlock := ⟨.bmhd0Orig, 0xAF400000, true, 0, 0x00000003, true⟩

/-- What is read before the header is written. -/
def plannedLog : List Event :=
  (erasedTarget (.read32 (stateAddr bmhd0)) []).2 ++
    readEvents bmhd0.base (List.replicate 128 0)

theorem returns_readBlock_bmhd0 :
    (readBlock bmhd0).Returns logging (erasedTarget (.read32 (stateAddr bmhd0)) []).2
      (some (List.replicate 512 0)) plannedLog :=
  Program.returns_runFor erasedTarget (fun _ _ => rfl) 128 (by decide +kernel)

theorem returns_stateOnTarget_bmhd0 :
    (stateOnTarget bmhd0).Returns logging [] .unread
      (erasedTarget (.read32 (stateAddr bmhd0)) []).2 :=
  Program.returns_runFor erasedTarget (fun _ _ => rfl) 1 (by decide +kernel)

/-- The decision to write the header. -/
def headerDecision : Decision :=
  ⟨bmhd0, .write, some .unread, .differs (differences
    (headerAt80000000.blobOf bmhd0) (List.replicate 512 0)).length⟩

/-- On an erased target the header is to be written. -/
theorem returns_plan_bmhd0 :
    (plan headerAt80000000).Returns logging [] [headerDecision] plannedLog := by
  have carried_eq : carried headerAt80000000 = [bmhd0] := by decide
  have owned : ¬(!isOwned bmhd0) = true := by decide
  have passes : check bmhd0 (headerAt80000000.blobOf bmhd0) = [] := by decide +kernel
  have unconfirmed : confirmedAt bmhd0 (headerAt80000000.blobOf bmhd0) = [] := by
    decide +kernel
  have firstByte : 0 ∈ differences (headerAt80000000.blobOf bmhd0)
      (List.replicate 512 0) :=
    List.mem_filter.mpr ⟨by simp [ucbSize], by decide +kernel⟩
  have differ := (List.length_pos_of_mem firstByte).ne'
  rw [plan, carried_eq, planBlocks]
  refine Program.Returns.bind ?_ .done
  rw [planBlock, if_neg owned, if_neg (not_not_intro passes),
    if_neg (not_not_intro unconfirmed)]
  refine returns_stateOnTarget_bmhd0.bind (returns_readBlock_bmhd0.bind ?_)
  show Program.Returns _ (Program.done (if _ then _ else _)) _ _ _
  rw [if_pos differ]
  exact .done

/-- What has been done after some operations of writing the header. -/
def headerLog (operations : Nat) : List Event :=
  ((writePlanned true headerAt80000000 [headerDecision]).runFor erasedTarget operations
    plannedLog).2

theorem reaches_headerLog (operations : Nat) :
    (tricoreUcbProgram true (some headerAt80000000)).Reaches logging []
      (headerLog operations) := by
  refine returns_plan_bmhd0.reaches_bind ?_
  have write : ¬[headerDecision].all (·.action != .write) = true := by decide
  show Program.Reaches _ (if _ then _ else _) _ _
  rw [if_neg write]
  exact (Program.reaches_runFor erasedTarget (fun _ _ => rfl) operations _ _).bind

/-- The erase of the header's block. -/
theorem headerLog_erase :
    headerLog 11 = headerLog 10 ++ [⟨.write32 (csiBase + cycleAAA8) cmdErase, true⟩] ∧
      commandOf (headerLog 10) (.write32 (csiBase + cycleAAA8) cmdErase) =
        some (.erase (some 0xAF400000) (some 1)) := by
  decide +kernel

theorem commands_only_to_cleared_headers_bmhd0 :
    ∃ block, Cleared headerAt80000000 (headerLog 10) block ∧
      InBlock block (.erase (some 0xAF400000) (some 1)) :=
  commands_only_to_cleared_headers true headerAt80000000
    (headerLog_erase.1 ▸ reaches_headerLog 11) headerLog_erase.2

end Ucb
end TriCoreDap
