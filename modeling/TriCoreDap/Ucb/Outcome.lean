import Mathlib.Data.List.Induction
import Mathlib.Data.List.Nodup
import TriCoreDap.Ucb.Interruption

/-!
# What the result of a run says

What `ESP_OK` of `tricore_ucb_program` means: no header was refused and each
planned write was read back after the last of its pages, so that the target
holds every header the image carries.
-/

namespace TriCoreDap
namespace Ucb

open Probe Flash

/-- `TRICORE_UCB_SLOTS`, the room for decisions. -/
def ucbSlots : Nat := 48

/-- The whole block was read with the image's bytes. -/
def ReadAs (image : UcbImage) (log : List Event) (block : UcbBlock) : Prop :=
  ∃ words : List Word, readEvents block.base words <:+: log ∧
    words.flatMap wordBytes = image.blobOf block

/-- The command that programs the block's state page was acknowledged. -/
def StatePageProgrammed (block : UcbBlock) (log : List Event) : Prop :=
  ∃ before after,
    log = before ++ ⟨.write32 (csiBase + cycleAAA8) cmdProgram, true⟩ :: after ∧
      latched (csiBase + cycleAA50) before = some (block.base + statePage)

/-- The image's bytes pass the check, and the whole block was read with them
after its last page was programmed. -/
def Verified (image : UcbImage) (log : List Event) (block : UcbBlock) : Prop :=
  check block (image.blobOf block) = [] ∧
    ∃ (before after : List Event) (words : List Word),
      log = before ++ (readEvents block.base words ++ after) ∧
        words.flatMap wordBytes = image.blobOf block ∧
          StatePageProgrammed block before

/-- `write_block` was run for the block. -/
def Attempted
    (present : Bool)
    (image : UcbImage)
    (log : List Event)
    (block : UcbBlock) : Prop :=
  ∃ before result after,
    (writeBlock present block (image.blobOf block)).Returns logging before result after ∧
      after <+: log

variable {image : UcbImage} {block other : UcbBlock} {log log' : List Event}
  {blob : List Byte}

theorem StatePageProgrammed.grown
    (programmed : StatePageProgrammed block log)
    (extends' : log <+: log') : StatePageProgrammed block log' := by
  obtain ⟨before, after, rfl, address⟩ := programmed
  obtain ⟨more, rfl⟩ := extends'
  exact ⟨before, after ++ more, by simp, address⟩

theorem Verified.grown
    (verified : Verified image log block)
    (extends' : log <+: log') : Verified image log' block := by
  obtain ⟨passes, before, after, words, rfl, bytes, programmed⟩ := verified
  obtain ⟨more, rfl⟩ := extends'
  exact ⟨passes, before, after ++ more, words, by simp, bytes, programmed⟩

theorem ReadAs.grown
    (read : ReadAs image log block)
    (extends' : log <+: log') : ReadAs image log' block := by
  obtain ⟨words, infix', bytes⟩ := read
  exact ⟨words, infix'.trans extends'.isInfix, bytes⟩

theorem Verified.readAs (verified : Verified image log block) :
    ReadAs image log block := by
  obtain ⟨-, before, after, words, rfl, bytes, -⟩ := verified
  exact ⟨words, ⟨before, after, by simp⟩, bytes⟩

/-- A log only grows. -/
theorem prefix_of_returns
    {program : Run α}
    (returns : program.Returns logging log result log') : log <+: log' := by
  have extending : program.Holds logging (log <+: ·) (fun _ _ => True) log :=
    Program.holds_of_steps
      (fun _ _ _ _ extends' step => step ▸ extends'.trans (List.prefix_append _ _))
      program List.prefix_rfl
  exact (extending.of_returns returns).1

/-! ## Programs that leave the state page alone -/

/-- What a further event may add to the programmed state pages. -/
theorem StatePageProgrammed.of_append
    (programmed : StatePageProgrammed block (log ++ [event])) :
    StatePageProgrammed block log ∨
      event = ⟨.write32 (csiBase + cycleAAA8) cmdProgram, true⟩ ∧
        latched (csiBase + cycleAA50) log = some (block.base + statePage) := by
  obtain ⟨before, after, split, address⟩ := programmed
  rcases List.eq_nil_or_concat after with rfl | ⟨rest, last, rfl⟩
  · obtain ⟨rfl, same⟩ := List.append_inj' split rfl
    exact Or.inr ⟨List.singleton_inj.mp same, address⟩
  · rw [List.concat_eq_append, ← List.cons_append, ← List.append_assoc] at split
    exact Or.inl ⟨before, rest, (List.append_inj' split rfl).1, address⟩

/-- The state page has not been programmed. -/
def Unprogrammed (block : UcbBlock) (log : List Event) : Prop :=
  ¬StatePageProgrammed block log

theorem unprogrammed_nil : Unprogrammed block [] := by
  rintro ⟨before, after, split, -⟩
  simp at split

theorem Unprogrammed.append
    (unprogrammed : Unprogrammed block log)
    (event : Event)
    (elsewhere : ∀ address, commandOf log event.1 = some (.program (some address)) →
      address ≠ block.base + statePage) :
    Unprogrammed block (log ++ [event]) := by
  intro programmed
  rcases programmed.of_append with before | ⟨rfl, address⟩
  · exact unprogrammed before
  · refine elsewhere (block.base + statePage) ?_ rfl
    rw [commandOf_program, address]

/-- Operations that start no command program no page. -/
theorem Unprogrammed.calm
    (op : Op)
    (log : List Event)
    (reply : Reply op)
    (log' : List Event)
    (calm : Calm op)
    (unprogrammed : Unprogrammed block log)
    (step : logging op log reply log') : Unprogrammed block log' := by
  obtain rfl := step
  refine unprogrammed.append _ fun address program => ?_
  rw [calm log] at program
  exact nomatch program

theorem Unprogrammed.holds_of_calm
    {program : Run α}
    (unprogrammed : Unprogrammed block log)
    (uses : program.Uses Calm) :
    program.Holds logging (Unprogrammed block) (fun _ _ => True) log :=
  Program.holds_of_uses Unprogrammed.calm uses unprogrammed

/-- An erase programs no page. -/
theorem holds_erase_unprogrammed
    (other : UcbBlock)
    (unprogrammed : Unprogrammed block log) :
    (erase other).Holds logging (Unprogrammed block) (fun _ _ => True) log := by
  refine (unprogrammed.holds_of_calm uses_clearStatus).bind
    fun _ log₁ unprogrammed₁ _ => ?_
  rw [cycles_eraseSequence]
  refine Program.holds_seq (fun _ _ => True)
    (holds_writes (Unprogrammed block) _ _ _
      (fun pair member _ _ _ kept step =>
        Unprogrammed.calm _ _ _ _ (calm_eraseSetup pair member) kept step)
      (fun _ kept => kept) (fun _ _ => trivial) ?_ unprogrammed₁) ?_
  · intro last reply log₂ acked kept step
    obtain rfl := step
    refine ⟨kept.append _ fun address program => ?_, trivial⟩
    rw [commandOf_erase] at program
    exact nomatch program
  · intro sent log₂ unprogrammed₂ _
    cases sent with
    | false => exact ⟨unprogrammed₂, trivial⟩
    | true =>
        refine unprogrammed₂.holds_of_calm
          (Program.uses_bind (uses_waitFor _ _) fun result => ?_)
        cases result with
        | error why => trivial
        | ok done =>
            exact Program.uses_bind uses_clearStatus fun _ => uses_confirmErased other

theorem holds_programPage_unprogrammed
    (elsewhere : u32 (other.base + offset) ≠ block.base + statePage)
    (unprogrammed : Unprogrammed block log) :
    (programPage other blob offset).Holds logging (Unprogrammed block)
      (fun _ _ => True) log := by
  unfold programPage
  simp only [cycles_programSequence]
  refine Program.holds_seq (fun _ _ => True)
    (holds_writes (Unprogrammed block) _ _ _
      (fun pair member _ _ _ kept step =>
        Unprogrammed.calm _ _ _ _ (calm_programSetup pair member) kept step)
      (fun _ kept => kept) (fun _ _ => trivial) ?_ unprogrammed) ?_
  · intro last reply log₂ acked kept step
    obtain rfl := step
    refine ⟨kept.append _ fun address program => ?_, trivial⟩
    have sent := (commandOf_programSetup acked).symm.trans program
    simp only [Option.some.injEq, Command.program.injEq] at sent
    exact sent ▸ elsewhere
  · intro sent log₂ unprogrammed₂ _
    cases sent with
    | false => exact ⟨unprogrammed₂, trivial⟩
    | true =>
        refine unprogrammed₂.holds_of_calm
          (Program.uses_bind (uses_waitFor _ _) fun result => ?_)
        cases result with
        | error why => trivial
        | ok done =>
            refine Program.uses_bind uses_clearStatus fun cleared => ?_
            cases cleared <;> trivial

theorem holds_programPages_unprogrammed
    (elsewhere : ∀ offset ∈ offsets, u32 (other.base + offset) ≠ block.base + statePage)
    (unprogrammed : Unprogrammed block log) :
    (programPages other blob offsets).Holds logging (Unprogrammed block)
      (fun _ _ => True) log := by
  induction offsets generalizing log with
  | nil => exact ⟨unprogrammed, trivial⟩
  | cons offset rest inductionHypothesis =>
      refine (holds_programPage_unprogrammed (elsewhere offset List.mem_cons_self)
        unprogrammed).bind fun result log₁ unprogrammed₁ _ => ?_
      cases result with
      | error why => exact ⟨unprogrammed₁, trivial⟩
      | ok done =>
          exact inductionHypothesis
            (fun next member => elsewhere next (List.mem_cons_of_mem offset member))
            unprogrammed₁

/-- The blocks of the catalogue do not overlap. -/
theorem blocks_apart :
    ∀ block ∈ blocks, ∀ other ∈ blocks, other ≠ block →
      other.base + ucbSize ≤ block.base ∨ block.base + ucbSize ≤ other.base := by
  decide +kernel

/-- A page of another block is not this block's state page. -/
theorem page_ne_statePage
    (catalogued : block ∈ blocks)
    (catalogued' : other ∈ blocks)
    (different : other ≠ block)
    (inPages : offset ∈ pageOrder) :
    u32 (other.base + offset) ≠ block.base + statePage := by
  obtain ⟨page, pageLt, rfl⟩ := pageOrder_in_block offset inPages
  obtain ⟨-, inRange⟩ := blocks_in_range other catalogued'
  have apart := blocks_apart block catalogued other catalogued' different
  have state_eq : statePage = 0x1F0 := by decide
  simp only [ucbSize, ucbPageSize, state_eq] at *
  rw [u32_of_lt (by omega)]
  omega

/-- Writing another block leaves the state page alone. -/
theorem holds_writeBlock_unprogrammed
    (present : Bool)
    (catalogued : block ∈ blocks)
    (catalogued' : other ∈ blocks)
    (different : other ≠ block)
    (unprogrammed : Unprogrammed block log) :
    (writeBlock present other blob).Holds logging (Unprogrammed block)
      (fun _ _ => True) log := by
  refine (unprogrammed.holds_of_calm
    ((uses_tricoreIsHalted present).mono fun _ => calm_of_reading)).bind
      fun halted log₁ unprogrammed₁ _ => ?_
  cases halted with
  | false => exact ⟨unprogrammed₁, trivial⟩
  | true =>
      refine (unprogrammed₁.holds_of_calm (uses_checkPageMode other)).bind
        fun inPageMode log₂ unprogrammed₂ _ => ?_
      cases inPageMode with
      | error why => exact ⟨unprogrammed₂, trivial⟩
      | ok done =>
          refine (holds_erase_unprogrammed other unprogrammed₂).bind
            fun erased log₃ unprogrammed₃ _ => ?_
          cases erased with
          | error why => exact ⟨unprogrammed₃, trivial⟩
          | ok done =>
              refine (holds_programPages_unprogrammed
                (fun _ inPages => page_ne_statePage catalogued catalogued' different inPages)
                unprogrammed₃).bind fun programmed log₄ unprogrammed₄ _ => ?_
              cases programmed with
              | error why => exact ⟨unprogrammed₄, trivial⟩
              | ok done => exact unprogrammed₄.holds_of_calm (uses_verifyBlock other blob)

/-! ## Programs that do not read the block -/

theorem readEvents_append (addr : Nat) (words more : List Word) :
    readEvents addr (words ++ more) =
      readEvents addr words ++ readEvents (addr + 4 * words.length) more := by
  induction words generalizing addr with
  | nil => rfl
  | cons word rest inductionHypothesis =>
      simp only [List.cons_append, readEvents, inductionHypothesis, List.length_cons]
      rw [show addr + 4 + 4 * rest.length = addr + 4 * (rest.length + 1) by omega]

theorem readEvents_injective (addr : Nat) : Function.Injective (readEvents addr) := by
  intro words
  induction words generalizing addr with
  | nil =>
      intro others same
      cases others with
      | nil => rfl
      | cons _ _ => exact nomatch same
  | cons word rest inductionHypothesis =>
      intro others same
      cases others with
      | nil => exact nomatch same
      | cons other others =>
          obtain ⟨head, tail⟩ := List.cons.inj same
          have word_eq : word = other := by simpa using head
          rw [word_eq, inductionHypothesis (addr + 4) tail]

theorem length_readEvents (addr : Nat) (words : List Word) :
    (readEvents addr words).length = words.length := by
  induction words generalizing addr with
  | nil => rfl
  | cons word rest inductionHypothesis => simp [readEvents, inductionHypothesis]

/-- The words of a block's bytes. -/
theorem length_of_blobOf
    {words : List Word}
    (bytes : words.flatMap wordBytes = image.blobOf block) : words.length = 128 := by
  have lengths := congrArg List.length bytes
  simp only [length_flatMap_wordBytes, UcbImage.blobOf, ucbSize, List.length_map,
    List.length_range] at lengths
  omega

/-- The event is an answered read of the block's last word. -/
def EndsRead (block : UcbBlock) (event : Event) : Prop :=
  ∃ word, event = ⟨.read32 (block.base + 508), some word⟩

/-- What a further event may add to the verified blocks. -/
theorem Verified.of_append
    (verified : Verified image (log ++ [event]) block)
    (notLast : ¬EndsRead block event) : Verified image log block := by
  obtain ⟨passes, before, after, words, split, bytes, programmed⟩ := verified
  rcases List.eq_nil_or_concat after with rfl | ⟨rest, last, rfl⟩
  · have length_eq := length_of_blobOf bytes
    rcases List.eq_nil_or_concat words with rfl | ⟨words, word, rfl⟩
    · exact absurd length_eq (by simp)
    · rw [List.concat_eq_append, readEvents_append, List.append_nil,
        ← List.append_assoc] at split
      refine absurd ⟨word, ?_⟩ notLast
      have short : words.length = 127 := by simpa using length_eq
      rw [List.singleton_inj.mp (List.append_inj' split rfl).2, short]
  · rw [List.concat_eq_append, ← List.append_assoc, ← List.append_assoc] at split
    refine ⟨passes, before, rest, words, ?_, bytes, programmed⟩
    rw [(List.append_inj' split rfl).1, List.append_assoc]

/-- An operation that does not read in the block. -/
def Elsewhere (block : UcbBlock) : Op → Prop
  | .read32 addr => addr < block.base ∨ block.base + ucbSize ≤ addr
  | _ => True

theorem Elsewhere.not_endsRead
    {event : Event}
    (elsewhere : Elsewhere block event.1) : ¬EndsRead block event := by
  rintro ⟨word, rfl⟩
  have outside : block.base + 508 < block.base ∨
      block.base + ucbSize ≤ block.base + 508 := elsewhere
  simp only [ucbSize] at outside
  omega

/-- What is not verified stays so while the block is not read. -/
theorem Verified.of_uses
    {program : Run α}
    (uses : program.Uses (Elsewhere block))
    (returns : program.Returns logging log result log')
    (verified : Verified image log' block) : Verified image log block := by
  have kept : program.Holds logging
      (fun log' => Verified image log' block → Verified image log block)
      (fun _ _ => True) log := by
    refine Program.holds_of_uses ?_ uses id
    intro op last reply last' elsewhere back step verified
    obtain rfl := step
    exact back (verified.of_append (Elsewhere.not_endsRead elsewhere))
  exact (kept.of_returns returns).1 verified

theorem blocks_window :
    ∀ block ∈ blocks, 0xAF400000 ≤ block.base ∧ block.base + ucbSize ≤ 0xAF406000 := by
  decide

theorem elsewhere_of_serving
    (catalogued : block ∈ blocks)
    (op : Op)
    (serving : Serving op) : Elsewhere block op := by
  obtain ⟨low, high⟩ := blocks_window block catalogued
  cases op with
  | read32 addr =>
      refine Or.inr (high.trans ?_)
      rcases serving with rfl | rfl | rfl <;> decide
  | _ => trivial

/-- Reading words outside the block. -/
theorem uses_readMem_elsewhere
    (words fuel addr : Nat)
    (aligned : addr % 4 = 0)
    (inRange : addr + 4 * words ≤ 2 ^ 32)
    (apart : addr + 4 * words ≤ block.base ∨ block.base + ucbSize ≤ addr) :
    (readMem fuel addr (4 * words)).Uses (Elsewhere block) := by
  induction words generalizing fuel addr with
  | zero => cases fuel <;> trivial
  | succ words inductionHypothesis =>
      cases fuel with
      | zero => trivial
      | succ fuel =>
          rw [readMem_word aligned (by omega),
            show 4 * (words + 1) - 4 = 4 * words by omega]
          have outside : addr < block.base ∨ block.base + ucbSize ≤ addr := by omega
          refine ⟨outside, fun reply => ?_⟩
          cases reply with
          | none => exact ⟨trivial, fun _ => trivial⟩
          | some word =>
              refine Program.uses_bind ?_ fun rest => ?_
              · rcases Nat.eq_zero_or_pos words with rfl | more
                · cases fuel <;> trivial
                · rw [u32_of_lt (by omega)]
                  exact inductionHypothesis fuel (addr + 4) (by omega) (by omega) (by omega)
              · cases rest <;> trivial

theorem uses_readBlock_elsewhere
    (catalogued : block ∈ blocks)
    (catalogued' : other ∈ blocks)
    (different : other ≠ block) :
    (readBlock other).Uses (Elsewhere block) := by
  obtain ⟨aligned, inRange⟩ := blocks_in_range other catalogued'
  exact uses_readMem_elsewhere 128 ucbSize other.base aligned inRange
    (blocks_apart block catalogued other catalogued' different)

/-- The cycles of a sequence read nothing. -/
theorem uses_cycles_elsewhere (sequence : List (Nat × Nat)) :
    (cycles sequence).Uses (Elsewhere block) :=
  uses_writes fun _ _ => trivial

theorem uses_clearStatus_elsewhere : clearStatus.Uses (Elsewhere block) :=
  ⟨trivial, fun _ => trivial⟩

theorem uses_waitFor_elsewhere
    (catalogued : block ∈ blocks)
    (what : What)
    (timeoutMs : Nat) :
    (waitFor what timeoutMs).Uses (Elsewhere block) :=
  (serving_waitFor what timeoutMs).mono (elsewhere_of_serving catalogued)

theorem uses_programPage_elsewhere
    (catalogued : block ∈ blocks)
    (other : UcbBlock)
    (blob : List Byte)
    (offset : Nat) :
    (programPage other blob offset).Uses (Elsewhere block) := by
  refine Program.uses_bind (uses_cycles_elsewhere _) fun sent => ?_
  cases sent with
  | false => trivial
  | true =>
      refine Program.uses_bind (uses_waitFor_elsewhere catalogued _ _) fun result => ?_
      cases result with
      | error why => trivial
      | ok done =>
          refine Program.uses_bind uses_clearStatus_elsewhere fun cleared => ?_
          cases cleared <;> trivial

theorem uses_programPages_elsewhere
    (catalogued : block ∈ blocks)
    (other : UcbBlock)
    (blob : List Byte)
    (offsets : List Nat) :
    (programPages other blob offsets).Uses (Elsewhere block) := by
  induction offsets with
  | nil => trivial
  | cons offset rest inductionHypothesis =>
      refine Program.uses_bind (uses_programPage_elsewhere catalogued other blob offset)
        fun result => ?_
      cases result with
      | error why => trivial
      | ok done => exact inductionHypothesis

/-- An erase of another block does not read the block. -/
theorem uses_erase_elsewhere
    (catalogued : block ∈ blocks)
    (catalogued' : other ∈ blocks)
    (different : other ≠ block) :
    (erase other).Uses (Elsewhere block) := by
  refine Program.uses_bind uses_clearStatus_elsewhere fun _ =>
    Program.uses_bind (uses_cycles_elsewhere _) fun sent => ?_
  cases sent with
  | false => trivial
  | true =>
      refine Program.uses_bind (uses_waitFor_elsewhere catalogued _ _) fun result => ?_
      cases result with
      | error why => trivial
      | ok done =>
          refine Program.uses_bind uses_clearStatus_elsewhere fun _ => Program.uses_bind
            (uses_readBlock_elsewhere catalogued catalogued' different) fun after => ?_
          cases after <;> trivial

/-- Writing another block does not read the block. -/
theorem uses_writeBlock_elsewhere
    (present : Bool)
    (catalogued : block ∈ blocks)
    (catalogued' : other ∈ blocks)
    (different : other ≠ block)
    (blob : List Byte) :
    (writeBlock present other blob).Uses (Elsewhere block) := by
  have status : Elsewhere block (.read32 (coreBase + offDbgsr)) :=
    elsewhere_of_serving catalogued _ (Or.inr (Or.inr rfl))
  refine Program.uses_bind (uses_tricoreIsHalted_of status trivial present)
    fun halted => ?_
  cases halted with
  | false => trivial
  | true =>
      refine Program.uses_bind
        ((serving_checkPageMode other).mono (elsewhere_of_serving catalogued))
        fun inPageMode => ?_
      cases inPageMode with
      | error why => trivial
      | ok done =>
          refine Program.uses_bind (uses_erase_elsewhere catalogued catalogued' different)
            fun erased => ?_
          cases erased with
          | error why => trivial
          | ok done =>
              refine Program.uses_bind
                (uses_programPages_elsewhere catalogued other blob pageOrder)
                fun programmed => ?_
              cases programmed with
              | error why => trivial
              | ok done =>
                  refine Program.uses_bind
                    (uses_readBlock_elsewhere catalogued catalogued' different)
                    fun after => ?_
                  cases after <;> trivial

/-! ## One block -/

theorem Unprogrammed.not_verified
    (unprogrammed : Unprogrammed block log) : ¬Verified image log block := by
  rintro ⟨-, before, after, words, rfl, -, programmed⟩
  exact unprogrammed (programmed.grown (List.prefix_append _ _))

/-- A page that is programmed is left with its command acknowledged. -/
theorem holds_cycles_statePage
    (address : Nat)
    (address_eq : address = block.base + statePage) :
    (cycles (programSequence address blob statePage)).Holds logging (fun _ => True)
      (fun sent log' => sent = true → StatePageProgrammed block log') log := by
  rw [cycles_programSequence]
  refine holds_writes (fun _ => True) _ _ _ (fun _ _ _ _ _ _ _ => trivial)
    (fun _ _ => trivial) (fun _ _ impossible => nomatch impossible) ?_ trivial
  intro last reply log' acked _ step
  obtain rfl := step
  refine ⟨trivial, fun sent => ?_⟩
  subst sent
  have program := commandOf_programSetup acked
  rw [commandOf_program, address_eq] at program
  simp only [Option.some.injEq, Command.program.injEq] at program
  exact ⟨last, [], rfl, program⟩

theorem programPage_statePage
    (catalogued : block ∈ blocks)
    (returns : (programPage block blob statePage).Returns logging log result log')
    (succeeded : result = .ok ()) : StatePageProgrammed block log' := by
  obtain ⟨-, inRange⟩ := blocks_in_range block catalogued
  have address_eq : u32 (block.base + statePage) = block.base + statePage := by
    have state_eq : statePage = 0x1F0 := by decide
    simp only [ucbSize] at inRange
    rw [u32_of_lt (by omega)]
  obtain ⟨sent, mid, first, rest⟩ := Program.exists_returns_of_bind returns
  have programmed := ((holds_cycles_statePage _ address_eq).of_returns first).2
  cases sent with
  | false =>
      cases rest
      cases succeeded
  | true => exact (programmed rfl).grown (prefix_of_returns rest)

/-- The state page is programmed after all others: the block is not verified
before it is read, and success leaves the state page programmed. -/
theorem programPages_statePage
    (catalogued : block ∈ blocks)
    (others : ∀ offset ∈ offsets, u32 (block.base + offset) ≠ block.base + statePage)
    (unprogrammed : Unprogrammed block log)
    (returns : (programPages block blob (offsets ++ [statePage])).Returns logging log
      result log') :
    ¬Verified image log' block ∧ (result = .ok () → StatePageProgrammed block log') := by
  refine ⟨fun verified => unprogrammed.not_verified
    (verified.of_uses (uses_programPages_elsewhere catalogued block blob _) returns), ?_⟩
  intro succeeded
  induction offsets generalizing log with
  | nil =>
      obtain ⟨page, mid, first, rest⟩ := Program.exists_returns_of_bind returns
      cases page with
      | error why =>
          cases rest
          exact nomatch succeeded
      | ok done =>
          exact (programPage_statePage catalogued first rfl).grown
            (prefix_of_returns rest)
  | cons offset offsets inductionHypothesis =>
      obtain ⟨page, mid, first, rest⟩ := Program.exists_returns_of_bind returns
      have kept := (holds_programPage_unprogrammed (others offset List.mem_cons_self)
        unprogrammed).of_returns first
      cases page with
      | error why =>
          cases rest
          exact nomatch succeeded
      | ok done =>
          exact inductionHypothesis
            (fun next member => others next (List.mem_cons_of_mem offset member)) kept.1 rest

/-- A read that fails does not reach the block's last word. -/
theorem holds_readMem_unverified
    (words fuel addr : Nat)
    (aligned : addr % 4 = 0)
    (inRange : addr + 4 * words ≤ 2 ^ 32)
    (toEnd : addr + 4 * words = block.base + ucbSize)
    (unverified : ¬Verified image log block) :
    (readMem fuel addr (4 * words)).Holds logging (fun _ => True)
      (fun result log' => result = none → ¬Verified image log' block) log := by
  induction words generalizing fuel addr log with
  | zero => cases fuel <;> exact ⟨trivial, fun impossible => by cases impossible⟩
  | succ words inductionHypothesis =>
      cases fuel with
      | zero => exact ⟨trivial, fun impossible => by cases impossible⟩
      | succ fuel =>
          rw [readMem_word aligned (by omega),
            show 4 * (words + 1) - 4 = 4 * words by omega]
          refine ⟨trivial, fun reply log₁ step => ?_⟩
          obtain rfl := step
          cases reply with
          | none =>
              refine ⟨trivial, fun _ log₂ step => ⟨trivial, fun _ verified => ?_⟩⟩
              obtain rfl := step
              refine unverified ((verified.of_append ?_).of_append ?_)
              · rintro ⟨word, same⟩
                cases same
              · rintro ⟨word, same⟩
                cases same
          | some word =>
              refine Program.holds_seq
                (fun result log' => result = none → ¬Verified image log' block) ?_ ?_
              · rcases Nat.eq_zero_or_pos words with rfl | more
                · cases fuel <;> exact ⟨trivial, fun impossible => by cases impossible⟩
                · rw [u32_of_lt (by omega)]
                  refine inductionHypothesis fuel (addr + 4) (by omega) (by omega)
                    (by omega) fun verified => ?_
                  refine unverified (verified.of_append ?_)
                  rintro ⟨last, same⟩
                  have addr_eq : addr = block.base + 508 := by simpa using congrArg (·.1) same
                  simp only [ucbSize] at toEnd
                  omega
              · intro result log' _ failed
                cases result with
                | none => exact ⟨trivial, failed⟩
                | some rest => exact ⟨trivial, fun impossible => by cases impossible⟩

theorem not_verified_readEvents
    (words : List Word)
    (short : words.length < 128)
    (unverified : ¬Verified image log block) :
    ¬Verified image (log ++ readEvents block.base words) block := by
  induction words using List.reverseRecOn with
  | nil => rwa [readEvents, List.append_nil]
  | append_singleton words word inductionHypothesis =>
      rw [List.length_append, List.length_singleton] at short
      intro verified
      rw [readEvents_append, ← List.append_assoc] at verified
      refine inductionHypothesis (by omega) (verified.of_append ?_)
      rintro ⟨last, same⟩
      have addr_eq : block.base + 4 * words.length = block.base + 508 := by
        simpa using congrArg (·.1) same
      omega

/-- A read of the whole block verifies it with the image's bytes only. -/
theorem bytes_of_verified
    {words : List Word}
    (whole : words.length = 128)
    (unverified : ¬Verified image log block)
    (verified : Verified image (log ++ readEvents block.base words) block) :
    words.flatMap wordBytes = image.blobOf block := by
  obtain ⟨passes, before, after, found, split, bytes, programmed⟩ := verified
  rcases List.eq_nil_or_concat after with rfl | ⟨rest, last, rfl⟩
  · rw [List.append_nil] at split
    have same := (List.append_inj' split (by
      rw [length_readEvents, length_readEvents, whole, length_of_blobOf bytes])).2
    rw [readEvents_injective _ same, bytes]
  · obtain ⟨words, word, rfl⟩ : ∃ init last, words = init ++ [last] := by
      rcases List.eq_nil_or_concat words with rfl | ⟨init, last, rfl⟩
      · exact absurd whole (by simp)
      · exact ⟨init, last, List.concat_eq_append⟩
    rw [readEvents_append, ← List.append_assoc, List.concat_eq_append, ← List.append_assoc,
      ← List.append_assoc] at split
    rw [List.length_append, List.length_singleton] at whole
    refine absurd ⟨passes, before, rest, found, ?_, bytes, programmed⟩
      (not_verified_readEvents words (by omega) unverified)
    rw [(List.append_inj' split rfl).1, List.append_assoc]

/-- A block that was read, with the words that were answered. -/
theorem readBlock_some
    (catalogued : block ∈ blocks)
    (returns : (readBlock block).Returns logging log (some bytes) log') :
    ∃ words : List Word, words.length = 128 ∧ bytes = words.flatMap wordBytes ∧
      log' = log ++ readEvents block.base words := by
  have reads := @holds_readBlock_of_reading block log (fun _ => True) catalogued
    (fun _ _ _ _ _ _ _ => trivial) trivial
  exact (reads.of_returns returns).2 bytes rfl

theorem eq_of_differences_nil
    (size : first.length = ucbSize)
    (size' : second.length = ucbSize)
    (same : differences first second = []) : first = second := by
  refine List.ext_getElem (size.trans size'.symm) fun i inFirst inSecond => ?_
  have kept := List.filter_eq_nil_iff.mp same i (List.mem_range.mpr (size ▸ inFirst))
  simpa [inFirst, inSecond] using kept

theorem length_blobOf (image : UcbImage) (block : UcbBlock) :
    (image.blobOf block).length = ucbSize := by
  simp [UcbImage.blobOf]

/-- The read-back succeeds exactly when it verifies the block. -/
theorem verifyBlock_ok_iff
    (catalogued : block ∈ blocks)
    (passes : check block (image.blobOf block) = [])
    (programmed : StatePageProgrammed block log)
    (unverified : ¬Verified image log block)
    (returns : (verifyBlock block (image.blobOf block)).Returns logging log result log') :
    result.1 = .ok () ↔ Verified image log' block := by
  obtain ⟨aligned, inRange⟩ := blocks_in_range block catalogued
  obtain ⟨read, mid, first, rest⟩ := Program.exists_returns_of_bind returns
  cases read with
  | none =>
      have failed := ((holds_readMem_unverified 128 ucbSize block.base aligned inRange rfl
        unverified).of_returns first).2 rfl
      cases rest
      exact iff_of_false (fun impossible => nomatch impossible) failed
  | some bytes =>
      obtain ⟨words, whole, rfl, rfl⟩ := readBlock_some catalogued first
      have size : (words.flatMap wordBytes).length = ucbSize := by
        rw [length_flatMap_wordBytes, whole]
        rfl
      have ended := Program.eq_of_returns_done rest
      rw [ended.1, ended.2]
      by_cases same : words.flatMap wordBytes = image.blobOf block
      · rw [same, differences_self, if_neg (not_not_intro rfl), passes,
          if_neg (not_not_intro rfl)]
        exact iff_of_true rfl
          ⟨passes, log, [], words, by rw [List.append_nil], same, programmed⟩
      · have differ : differences (image.blobOf block) (words.flatMap wordBytes) ≠ [] :=
          fun none => same (eq_of_differences_nil (length_blobOf image block) size none).symm
        rw [if_pos differ]
        exact iff_of_false (fun impossible => nomatch impossible)
          fun verified => same (bytes_of_verified whole unverified verified)

/-- The state page is none of the pages before it. -/
theorem otherPages_ne_statePage
    (catalogued : block ∈ blocks) :
    ∀ offset ∈ otherPages, u32 (block.base + offset) ≠ block.base + statePage := by
  intro offset member
  obtain ⟨-, inBlock, different⟩ := otherPages_in_block offset member
  obtain ⟨-, inRange⟩ := blocks_in_range block catalogued
  simp only [ucbPageSize] at inBlock
  rw [u32_of_lt (by omega)]
  omega

/-- `write_block` succeeds exactly when it verifies the block. -/
theorem writeBlock_ok_iff
    (present : Bool)
    (catalogued : block ∈ blocks)
    (passes : check block (image.blobOf block) = [])
    (unprogrammed : Unprogrammed block log)
    (returns : (writeBlock present block (image.blobOf block)).Returns logging log
      result log') :
    result.1 = .ok () ↔ Verified image log' block := by
  have failed {why : Why} {log₁ : List Event}
      (kept : ¬Verified image log₁ block)
      (rest : (Program.done (.error why, []) : Run (Result × List Problem)).Returns logging
        log₁ result log') : result.1 = .ok () ↔ Verified image log' block := by
    cases rest
    exact iff_of_false (fun impossible => nomatch impossible) kept
  obtain ⟨halted, log₁, first, rest⟩ := Program.exists_returns_of_bind returns
  have unprogrammed₁ := ((unprogrammed.holds_of_calm
    ((uses_tricoreIsHalted present).mono fun _ => calm_of_reading)).of_returns first).1
  cases halted with
  | false => exact failed unprogrammed₁.not_verified rest
  | true =>
      obtain ⟨inPageMode, log₂, second, rest⟩ := Program.exists_returns_of_bind rest
      have unprogrammed₂ := ((unprogrammed₁.holds_of_calm
        (uses_checkPageMode block)).of_returns second).1
      cases inPageMode with
      | error why => exact failed unprogrammed₂.not_verified rest
      | ok done =>
          obtain ⟨erased, log₃, third, rest⟩ := Program.exists_returns_of_bind rest
          have unprogrammed₃ :=
            ((holds_erase_unprogrammed block unprogrammed₂).of_returns third).1
          cases erased with
          | error why => exact failed unprogrammed₃.not_verified rest
          | ok done =>
              obtain ⟨pages, log₄, fourth, rest⟩ := Program.exists_returns_of_bind rest
              obtain ⟨unverified, programmed⟩ :=
                @programPages_statePage image block log₃ log₄ _ _ _ catalogued
                  (otherPages_ne_statePage catalogued) unprogrammed₃ fourth
              cases pages with
              | error why => exact failed unverified rest
              | ok done =>
                  exact verifyBlock_ok_iff catalogued passes (programmed rfl) unverified rest

/-! ## The plan -/

/-- What a decision says about its block. -/
structure Decided
    (image : UcbImage)
    (log : List Event)
    (decision : Decision) : Prop where
  header : decision.action ≠ .skip → isOwned decision.block = true
  passes : isOwned decision.block = true → decision.action ≠ .refuse →
    check decision.block (image.blobOf decision.block) = []
  holds : isOwned decision.block = true → decision.action = .skip →
    ReadAs image log decision.block

theorem Decided.grown
    (decided : Decided image log decision)
    (extends' : log <+: log') : Decided image log' decision where
  header := decided.header
  passes := decided.passes
  holds owned skip := (decided.holds owned skip).grown extends'

/-- A refused header. -/
theorem decided_refuse
    (owned : isOwned block = true)
    (state : Option TargetState)
    (reason : Reason) :
    Decided image log ⟨block, .refuse, state, reason⟩ where
  header _ := owned
  passes _ notRefused := absurd rfl notRefused
  holds _ skip := nomatch skip

theorem planContents_decided
    (catalogued : block ∈ blocks)
    (owned : isOwned block = true)
    (passes : check block (image.blobOf block) = [])
    (returns : (planContents block (image.blobOf block) state).Returns logging log
      decision log') : decision.block = block ∧ Decided image log' decision := by
  obtain ⟨read, mid, first, rest⟩ := Program.exists_returns_of_bind returns
  cases read with
  | none =>
      obtain ⟨rfl, rfl⟩ := Program.eq_of_returns_done rest
      exact ⟨rfl, decided_refuse owned _ _⟩
  | some bytes =>
      obtain ⟨words, whole, rfl, rfl⟩ := readBlock_some catalogued first
      have size : (words.flatMap wordBytes).length = ucbSize := by
        rw [length_flatMap_wordBytes, whole]
        rfl
      have ended := Program.eq_of_returns_done rest
      rw [ended.1, ended.2]
      split
      · exact ⟨rfl, fun _ => owned, fun _ _ => passes, fun _ skip => nomatch skip⟩
      · next same =>
          have none := List.length_eq_zero_iff.mp (not_not.mp same)
          refine ⟨rfl, fun notSkip => absurd rfl notSkip, fun _ _ => passes, fun _ _ => ?_⟩
          exact ⟨words, (List.suffix_append _ _).isInfix,
            (eq_of_differences_nil (length_blobOf image block) size none).symm⟩

theorem planBlock_decided
    (catalogued : block ∈ blocks)
    (returns : (planBlock image block).Returns logging log decision log') :
    decision.block = block ∧ Decided image log' decision := by
  unfold planBlock at returns
  cases owned : isOwned block with
  | false =>
      rw [if_pos (by rw [owned]; rfl)] at returns
      obtain ⟨rfl, rfl⟩ := Program.eq_of_returns_done returns
      refine ⟨rfl, fun notSkip => absurd rfl notSkip, ?_, ?_⟩
      · rw [owned]
        exact fun impossible => nomatch impossible
      · rw [owned]
        exact fun impossible => nomatch impossible
  | true =>
      rw [if_neg (by rw [owned]; decide)] at returns
      split at returns
      · obtain ⟨rfl, rfl⟩ := Program.eq_of_returns_done returns
        exact ⟨rfl, decided_refuse owned _ _⟩
      · next passes =>
          split at returns
          · obtain ⟨rfl, rfl⟩ := Program.eq_of_returns_done returns
            exact ⟨rfl, decided_refuse owned _ _⟩
          · obtain ⟨state, mid, first, rest⟩ := Program.exists_returns_of_bind returns
            split at rest
            · obtain ⟨rfl, rfl⟩ := Program.eq_of_returns_done rest
              exact ⟨rfl, decided_refuse owned _ _⟩
            · exact planContents_decided catalogued owned (not_not.mp passes) rest

/-- Every block is decided about, in order. -/
theorem planBlocks_decided
    (catalogued : ∀ block ∈ targets, block ∈ blocks)
    (returns : (planBlocks image targets).Returns logging log decisions log') :
    decisions.map (·.block) = targets ∧
      ∀ decision ∈ decisions, Decided image log' decision := by
  induction targets generalizing log decisions with
  | nil =>
      obtain ⟨rfl, rfl⟩ := Program.eq_of_returns_done returns
      exact ⟨rfl, fun decision member => absurd member List.not_mem_nil⟩
  | cons block rest inductionHypothesis =>
      obtain ⟨decision, mid, first, returns⟩ := Program.exists_returns_of_bind returns
      obtain ⟨others, last, second, returns⟩ := Program.exists_returns_of_bind returns
      obtain ⟨rfl, rfl⟩ := Program.eq_of_returns_done returns
      obtain ⟨rfl, decided⟩ := planBlock_decided (catalogued block List.mem_cons_self) first
      obtain ⟨rfl, others_decided⟩ := inductionHypothesis
        (fun next member => catalogued next (List.mem_cons_of_mem _ member)) second
      refine ⟨rfl, fun next member => ?_⟩
      rcases List.mem_cons.mp member with rfl | member
      · exact decided.grown (prefix_of_returns second)
      · exact others_decided next member

theorem uses_stateOnTarget (block : UcbBlock) : (stateOnTarget block).Uses Reading := by
  refine ⟨trivial, fun reply => ?_⟩
  cases reply with
  | none => exact ⟨trivial, fun _ => trivial⟩
  | some word =>
      show Program.Uses _ (if _ then _ else _)
      split <;> trivial

/-- The plan only reads. -/
theorem uses_planBlock (image : UcbImage) (block : UcbBlock) :
    (planBlock image block).Uses Reading := by
  unfold planBlock
  cases owned : isOwned block with
  | false =>
      rw [if_pos (show (!false) = true from rfl)]
      trivial
  | true =>
      rw [if_neg (show ¬(!true) = true by decide)]
      have tested := Classical.em (check block (image.blobOf block) = [])
      cases tested with
      | inr problems =>
          rw [if_pos problems]
          trivial
      | inl passes =>
          rw [if_neg (not_not_intro passes)]
          have searched := Classical.em (confirmedAt block (image.blobOf block) = [])
          cases searched with
          | inr confirms =>
              rw [if_pos confirms]
              trivial
          | inl unconfirmed =>
              rw [if_neg (not_not_intro unconfirmed)]
              refine Program.uses_bind (uses_stateOnTarget block) fun state => ?_
              split
              · trivial
              · refine Program.uses_bind (uses_readMem _ _ _) fun read => ?_
                cases read <;> trivial

theorem uses_planBlocks (image : UcbImage) (targets : List UcbBlock) :
    (planBlocks image targets).Uses Reading := by
  induction targets with
  | nil => trivial
  | cons block rest inductionHypothesis =>
      exact Program.uses_bind (uses_planBlock image block) fun _ =>
        Program.uses_bind inductionHypothesis fun _ => trivial

/-! ## The whole run -/

/-- The blocks that are decided to be written. -/
def planned (decisions : List Decision) : List UcbBlock :=
  (decisions.filter (·.action == .write)).map (·.block)

theorem planned_cons_write
    (write : decision.action = .write) :
    planned (decision :: decisions) = decision.block :: planned decisions := by
  simp [planned, write]

theorem planned_cons_other
    (other : decision.action ≠ .write) :
    planned (decision :: decisions) = planned decisions := by
  simp [planned, other]

theorem mem_planned : block ∈ planned decisions ↔
    ∃ decision ∈ decisions, decision.action = .write ∧ decision.block = block := by
  simp [planned, and_assoc]

theorem uses_writePlanned_elsewhere
    (present : Bool)
    (catalogued : block ∈ blocks)
    (catalogued' : ∀ other ∈ planned decisions, other ∈ blocks)
    (notPlanned : block ∉ planned decisions) :
    (writePlanned present image decisions).Uses (Elsewhere block) := by
  induction decisions with
  | nil => trivial
  | cons decision rest inductionHypothesis =>
      rw [writePlanned]
      split
      · next other =>
          rw [planned_cons_other other] at catalogued' notPlanned
          exact inductionHypothesis catalogued' notPlanned
      · next write =>
          rw [planned_cons_write (not_not.mp write)] at catalogued' notPlanned
          obtain ⟨different, notLater⟩ := not_or.mp (mt List.mem_cons.mpr notPlanned)
          refine Program.uses_bind (uses_writeBlock_elsewhere present catalogued
            (catalogued' _ List.mem_cons_self) (Ne.symm different) _) fun result => ?_
          exact Program.uses_bind (inductionHypothesis
            (fun other member => catalogued' other (List.mem_cons_of_mem _ member))
            notLater) fun _ => trivial

/-- Every planned block is written, whatever becomes of the others, and the
results say which of them are verified. -/
theorem writePlanned_results
    (present : Bool)
    (catalogued : ∀ block ∈ planned decisions, block ∈ blocks)
    (distinct : (planned decisions).Nodup)
    (passes : ∀ block ∈ planned decisions, check block (image.blobOf block) = [])
    (unprogrammed : ∀ block ∈ planned decisions, Unprogrammed block log)
    (returns : (writePlanned present image decisions).Returns logging log results log') :
    results.map (·.block) = planned decisions ∧
      (∀ block ∈ planned decisions, Attempted present image log' block) ∧
      ∀ result ∈ results, result.failed = false ↔ Verified image log' result.block := by
  induction decisions generalizing log results with
  | nil =>
      obtain ⟨rfl, rfl⟩ := Program.eq_of_returns_done returns
      exact ⟨rfl, fun block member => absurd member List.not_mem_nil,
        fun result member => absurd member List.not_mem_nil⟩
  | cons decision rest inductionHypothesis =>
      rw [writePlanned] at returns
      split at returns
      · next other =>
          rw [planned_cons_other other] at *
          exact inductionHypothesis catalogued distinct passes unprogrammed returns
      · next write =>
          rw [planned_cons_write (not_not.mp write)] at *
          obtain ⟨notLater, distinct⟩ := List.nodup_cons.mp distinct
          have inBlocks := catalogued decision.block List.mem_cons_self
          have catalogued' := fun block member =>
            catalogued block (List.mem_cons_of_mem decision.block member)
          obtain ⟨result, mid, first, returns⟩ := Program.exists_returns_of_bind returns
          obtain ⟨others, last, second, returns⟩ := Program.exists_returns_of_bind returns
          obtain ⟨rfl, rfl⟩ := Program.eq_of_returns_done returns
          obtain ⟨blocks_eq, attempted, verified⟩ := inductionHypothesis catalogued' distinct
            (fun block member => passes block (List.mem_cons_of_mem _ member))
            (fun block member => ((holds_writeBlock_unprogrammed present
              (catalogued' block member) inBlocks
              (fun same => notLater (same ▸ member))
              (unprogrammed block (List.mem_cons_of_mem _ member))).of_returns first).1)
            second
          refine ⟨congrArg (decision.block :: ·) blocks_eq, fun block member => ?_,
            fun result' member => ?_⟩
          · rcases List.mem_cons.mp member with rfl | member
            · exact ⟨log, result, mid, first, prefix_of_returns second⟩
            · exact attempted block member
          · rcases List.mem_cons.mp member with rfl | member
            · have ok_iff := writeBlock_ok_iff present inBlocks
                (passes _ List.mem_cons_self) (unprogrammed _ List.mem_cons_self) first
              have failed_iff : Written.failed ⟨decision.block, result.1, result.2⟩ = false ↔
                  result.1 = .ok () := by
                rcases result with ⟨_ | _, _⟩ <;> simp [Written.failed]
              rw [failed_iff, ok_iff]
              -- what follows does not read the block
              exact ⟨fun here => here.grown (prefix_of_returns second),
                fun later => later.of_uses
                  (uses_writePlanned_elsewhere present inBlocks catalogued' notLater) second⟩
            · exact verified result' member

/-- The headers are the blocks an image owns. -/
theorem isBmhd_eq_isOwned : ∀ block ∈ blocks, block.isBmhd = isOwned block := by
  decide

/-- The decisions go over the carried blocks of the catalogue. -/
theorem carried_perm (image : UcbImage) :
    (carried image).Perm (blocks.filter image.carries) := by
  have owned : imageOwned.filterMap byName = blocks.filter isOwned := by decide
  have others : (blocks.filter fun block => !isOwned block && image.carries block) =
      (blocks.filter fun block => !isOwned block).filter image.carries := by
    rw [List.filter_filter]
    simp only [Bool.and_comm]
  rw [carried, owned, others, ← List.filter_append]
  exact (List.filter_append_perm isOwned blocks).filter _

theorem carried_nodup (image : UcbImage) : (carried image).Nodup := by
  have bases : (blocks.map (·.base)).Nodup := by decide
  exact (carried_perm image).nodup_iff.mpr ((List.Nodup.of_map _ bases).filter _)

/-- What a run's result and its decisions say about the target and the image. -/
structure Accounts
    (present : Bool)
    (image : UcbImage)
    (outcome : Outcome)
    (log : List Event) : Prop where
  /-- `ESP_OK` means that nothing was refused and all that was planned is verified. -/
  ok_iff : outcome.err = .ok ↔
    (∀ decision ∈ outcome.decisions, decision.block.isBmhd = true →
      decision.action ≠ .refuse) ∧
    ∀ decision ∈ outcome.decisions, decision.action = .write →
      Verified image log decision.block
  /-- Then the target holds every header the image carries. -/
  headers : outcome.err = .ok →
    ∀ block ∈ blocks, block.isBmhd = true → image.carries block = true →
      ReadAs image log block ∧ check block (image.blobOf block) = []
  /-- No other block's outcome keeps a planned block from being written. -/
  attempted : ∀ decision ∈ outcome.decisions, decision.action = .write →
    Attempted present image log decision.block
  written : outcome.written.map (·.block) = planned outcome.decisions
  /-- Each carried block is decided about once. -/
  decided : (outcome.decisions.map (·.block)).Perm (blocks.filter image.carries)
  once : (outcome.decisions.map (·.block)).Nodup
  room : outcome.decisions.length ≤ ucbSlots

/-- What the phases of a run leave behind. -/
theorem tricoreUcbProgram_phases
    (present : Bool)
    (image : UcbImage)
    (returns : (tricoreUcbProgram present (some image)).Returns logging [] outcome log) :
    outcome.decisions.map (·.block) = carried image ∧
      (∀ decision ∈ outcome.decisions, Decided image log decision) ∧
      outcome.written.map (·.block) = planned outcome.decisions ∧
      (∀ block ∈ planned outcome.decisions, Attempted present image log block) ∧
      (∀ result ∈ outcome.written,
        result.failed = false ↔ Verified image log result.block) ∧
      (outcome.err = .ok ↔ (∀ decision ∈ outcome.decisions, decision.action ≠ .refuse) ∧
        ∀ result ∈ outcome.written, result.failed = false) := by
  obtain ⟨decisions, mid, planning, rest⟩ := Program.exists_returns_of_bind returns
  have catalogued : ∀ block ∈ carried image, block ∈ blocks := fun block member =>
    (carried_catalogued block member).1
  obtain ⟨blocks_eq, decidedThen⟩ := planBlocks_decided catalogued planning
  have decided : ∀ decision ∈ decisions, Decided image log decision :=
    fun decision member => (decidedThen decision member).grown (prefix_of_returns rest)
  have unprogrammed : ∀ block, Unprogrammed block mid := fun block =>
    ((Unprogrammed.holds_of_calm unprogrammed_nil
      ((uses_planBlocks image _).mono fun _ => calm_of_reading)).of_returns planning).1
  have refused : decisions.any (·.action == .refuse) = false ↔
      ∀ decision ∈ decisions, decision.action ≠ .refuse := by
    simp [List.any_eq_false]
  split at rest
  · next idle =>
      obtain ⟨rfl, rfl⟩ := Program.eq_of_returns_done rest
      have none : planned decisions = [] := by
        have skipped : ∀ decision ∈ decisions, decision.action ≠ .write := by
          simpa using idle
        simp [planned, List.filter_eq_nil_iff.mpr fun decision member =>
          mt eq_of_beq (skipped decision member)]
      refine ⟨blocks_eq, decided, none.symm, ?_, ?_, ?_⟩
      · exact fun block member => absurd (none ▸ member) List.not_mem_nil
      · exact fun result member => absurd member List.not_mem_nil
      · rw [← refused]
        cases decisions.any (·.action == .refuse) <;> simp
  · obtain ⟨written, late, writing, rest⟩ := Program.exists_returns_of_bind rest
    obtain ⟨cleared, last, clearing, rest⟩ := Program.exists_returns_of_bind rest
    obtain ⟨rfl, rfl⟩ := Program.eq_of_returns_done rest
    have inCarried : ∀ block ∈ planned decisions, block ∈ blocks := by
      intro block member
      obtain ⟨decision, chosen, -, rfl⟩ := mem_planned.mp member
      exact catalogued _ (blocks_eq ▸ List.mem_map_of_mem chosen)
    have distinct : (planned decisions).Nodup :=
      (blocks_eq ▸ carried_nodup image : (decisions.map (·.block)).Nodup).sublist
        (List.filter_sublist.map _)
    have passes : ∀ block ∈ planned decisions, check block (image.blobOf block) = [] := by
      intro block member
      obtain ⟨decision, chosen, write, rfl⟩ := mem_planned.mp member
      have outcome := decided decision chosen
      exact outcome.passes (outcome.header (by simp [write])) (by simp [write])
    obtain ⟨written_eq, attempted, verified⟩ := writePlanned_results present inCarried
      distinct passes (fun block _ => unprogrammed block) writing
    have grown := prefix_of_returns clearing
    refine ⟨blocks_eq, decided, written_eq, ?_, ?_, ?_⟩
    · intro block member
      obtain ⟨before, result, after, ran, inLog⟩ := attempted block member
      exact ⟨before, result, after, ran, inLog.trans grown⟩
    · intro result member
      rw [verified result member]
      exact ⟨fun here => here.grown grown,
        fun later => later.of_uses uses_clearStatus_elsewhere clearing⟩
    · rw [← refused]
      have failed : written.any Written.failed = false ↔
          ∀ result ∈ written, result.failed = false := by
        simp [List.any_eq_false]
      rw [← failed]
      cases decisions.any (·.action == .refuse) <;>
        cases written.any Written.failed <;> simp

/-- The result of `tricore_ucb_program`, whatever the image and the target. -/
theorem tricoreUcbProgram_accounts
    (present : Bool)
    (image : UcbImage)
    (returns : (tricoreUcbProgram present (some image)).Returns logging [] outcome log) :
    Accounts present image outcome log := by
  obtain ⟨blocks_eq, decided, written_eq, attempted, verified, ok_iff⟩ :=
    tricoreUcbProgram_phases present image returns
  have perm : (outcome.decisions.map (·.block)).Perm (blocks.filter image.carries) :=
    blocks_eq ▸ carried_perm image
  have inBlocks : ∀ decision ∈ outcome.decisions, decision.block ∈ blocks :=
    fun decision member =>
      (carried_catalogued _ (blocks_eq ▸ List.mem_map_of_mem member)).1
  have ok_iff' : outcome.err = .ok ↔
      (∀ decision ∈ outcome.decisions, decision.block.isBmhd = true →
        decision.action ≠ .refuse) ∧
      ∀ decision ∈ outcome.decisions, decision.action = .write →
        Verified image log decision.block := by
    rw [ok_iff]
    refine and_congr ⟨fun none decision member _ => none decision member, ?_⟩ ⟨?_, ?_⟩
    · intro none decision member refuse
      have owned := (decided decision member).header (by simp [refuse])
      refine none decision member ?_ refuse
      rw [isBmhd_eq_isOwned _ (inBlocks decision member), owned]
    · intro succeeded decision member write
      have isPlanned := mem_planned.mpr ⟨decision, member, write, rfl⟩
      rw [← written_eq] at isPlanned
      obtain ⟨result, found, same⟩ := List.mem_map.mp isPlanned
      exact same ▸ (verified result found).mp (succeeded result found)
    · intro each result found
      have isPlanned : result.block ∈ planned outcome.decisions :=
        written_eq ▸ List.mem_map_of_mem found
      obtain ⟨decision, member, write, same⟩ := mem_planned.mp isPlanned
      exact (verified result found).mpr (same ▸ each decision member write)
  refine ⟨ok_iff', ?_, ?_, written_eq, perm, ?_, ?_⟩
  · intro ok block member header carries
    obtain ⟨noRefusal, allVerified⟩ := ok_iff'.mp ok
    have isDecided : block ∈ outcome.decisions.map (·.block) :=
      perm.mem_iff.mpr (List.mem_filter.mpr ⟨member, carries⟩)
    obtain ⟨decision, found, rfl⟩ := List.mem_map.mp isDecided
    have owned : isOwned decision.block = true := isBmhd_eq_isOwned _ member ▸ header
    have notRefused := noRefusal decision found header
    refine ⟨?_, (decided decision found).passes owned notRefused⟩
    cases action : decision.action with
    | write => exact (allVerified decision found action).readAs
    | skip => exact (decided decision found).holds owned action
    | refuse => exact absurd action notRefused
  · exact fun decision member write =>
      attempted _ (mem_planned.mpr ⟨decision, member, write, rfl⟩)
  · rw [blocks_eq]
    exact carried_nodup image
  · rw [← List.length_map (·.block), perm.length_eq]
    exact (List.length_filter_le _ _).trans (by decide)

/-- A run that decides to write one header. -/
theorem tricoreUcbProgram_accounts_bmhd0 :
    ∃ outcome log, outcome.decisions = [headerDecision] ∧
      Accounts true headerAt80000000 outcome log := by
  obtain ⟨fuel, written, last, ends⟩ := Program.exists_runFor erasedTarget
    (writePlanned true headerAt80000000 [headerDecision]) plannedLog
  have writing : (writePlanned true headerAt80000000 [headerDecision]).Returns logging
      plannedLog written last :=
    Program.returns_runFor erasedTarget (fun _ _ => rfl) fuel ends
  have write : ¬[headerDecision].all (·.action != .write) = true := by decide
  have returns : (tricoreUcbProgram true (some headerAt80000000)).Returns logging []
      ⟨if written.any Written.failed || [headerDecision].any (·.action == .refuse)
        then .fail else .ok, [headerDecision], written⟩
      (last ++ [⟨.write32 (csiBase + cycle5554) cmdClearStatus, true⟩]) := by
    refine returns_plan_bmhd0.bind ?_
    show Program.Returns _ (if _ then _ else _) _ _ _
    rw [if_neg write]
    exact writing.bind (.step rfl .done)
  exact ⟨_, _, rfl, tricoreUcbProgram_accounts true headerAt80000000 returns⟩

end Ucb
end TriCoreDap
