import TriCoreDap.Library.Lists
import TriCoreDap.Ucb.Safety
import TriCoreDap.Ucb.Target

/-!
# An interrupted write of a header

Wherever the write of a block is cut off, a block that was erased either holds
all of the image but the page of its confirmation word, or its confirmation word
reads as erased.  No page is programmed before the block was read back as erased.
-/

namespace TriCoreDap
namespace Ucb

open Probe Flash Target

/-- The confirmation word as it reads on the target. -/
def confirmationWord (memory : Nat → Byte) (block : UcbBlock) : Word :=
  le32 ((List.range 4).map fun i => memory (block.base + stateOffset + i)) 0

/-- All pages but the one of the confirmation word hold the image. -/
def OthersHold (block : UcbBlock) (blob : List Byte) (memory : Nat → Byte) : Prop :=
  ∀ i, i < ucbSize → i < statePage ∨ statePage + ucbPageSize ≤ i →
    memory (block.base + i) = blob.getD i 0

/-- The block was commanded to be erased, with the log of what came after. -/
def EraseCommanded (block : UcbBlock) (log after : List Event) : Prop :=
  ∃ before reply,
    log = before ++ ⟨.write32 (csiBase + cycleAAA8) cmdErase, reply⟩ :: after ∧
      commandOf before (.write32 (csiBase + cycleAAA8) cmdErase) =
        some (.erase (some block.base) (some 1))

/-- After the erase command all words of the block were read as erased. -/
def ReadBackErased (block : UcbBlock) (log : List Event) : Prop :=
  ∃ after, EraseCommanded block log after ∧
    ∃ words : List Word, readEvents block.base words <:+: after ∧
      words.flatMap wordBytes = List.replicate ucbSize erasedByte

/-- Programming comes after reading back. -/
def AfterReadBack
    (block : UcbBlock)
    (before : List Event)
    (command : Command) : Prop :=
  ∀ addr, command = .program addr → ReadBackErased block before

/-- What holds at every point of a write. -/
structure Interruptible
    (block : UcbBlock)
    (blob : List Byte)
    (target : Target) : Prop where
  unfinished : target.erased = true →
    confirmationWord target.memory block = 0 ∨ OthersHold block blob target.memory
  ordered : Logged (AfterReadBack block) target.log

/-- Before the erase. -/
structure Fresh (block : UcbBlock) (target : Target) : Prop where
  notErased : target.erased = false
  ordered : Logged (AfterReadBack block) target.log

/-- Between the erase and its read-back. -/
structure Bare (block : UcbBlock) (target : Target) : Prop where
  erased : ∀ i, i < ucbSize → target.memory (block.base + i) = erasedByte
  commanded : ∃ after, EraseCommanded block target.log after
  ordered : Logged (AfterReadBack block) target.log

/-- While pages are programmed, with what the contents keep. -/
structure Armed
    (block : UcbBlock)
    (kept : (Nat → Byte) → Prop)
    (target : Target) : Prop where
  contents : kept target.memory
  readBack : ReadBackErased block target.log
  ordered : Logged (AfterReadBack block) target.log

variable {block : UcbBlock} {blob : List Byte} {target : Target}
  {kept : (Nat → Byte) → Prop} {log after : List Event}

theorem EraseCommanded.append
    (commanded : EraseCommanded block log after) (event : Event) :
    EraseCommanded block (log ++ [event]) (after ++ [event]) := by
  obtain ⟨before, reply, rfl, command⟩ := commanded
  exact ⟨before, reply, by simp, command⟩

theorem ReadBackErased.append
    (readBack : ReadBackErased block log) (event : Event) :
    ReadBackErased block (log ++ [event]) := by
  obtain ⟨after, commanded, words, read, erased⟩ := readBack
  exact ⟨after ++ [event], commanded.append event, words,
    read.trans (List.prefix_append _ _).isInfix, erased⟩

theorem keptByCalm_interruptible : KeptByCalm (Interruptible block blob) := by
  intro op target reply target' calm interruptible step
  obtain ⟨memory, erased, log⟩ := unaffected_of_calm step calm
  constructor
  · rw [memory, erased]
    exact interruptible.unfinished
  · rw [log]
    exact interruptible.ordered.append_calm _ calm

theorem keptByCalm_fresh : KeptByCalm (Fresh block) := by
  intro op target reply target' calm fresh step
  obtain ⟨-, erased, log⟩ := unaffected_of_calm step calm
  constructor
  · rw [erased]
    exact fresh.notErased
  · rw [log]
    exact fresh.ordered.append_calm _ calm

theorem keptByCalm_bare : KeptByCalm (Bare block) := by
  intro op target reply target' calm bare step
  obtain ⟨memory, -, log⟩ := unaffected_of_calm step calm
  constructor
  · rw [memory]
    exact bare.erased
  · obtain ⟨after, commanded⟩ := bare.commanded
    rw [log]
    exact ⟨_, commanded.append _⟩
  · rw [log]
    exact bare.ordered.append_calm _ calm

theorem keptByCalm_armed : KeptByCalm (Armed block kept) := by
  intro op target reply target' calm armed step
  obtain ⟨memory, -, log⟩ := unaffected_of_calm step calm
  constructor
  · rw [memory]
    exact armed.contents
  · rw [log]
    exact armed.readBack.append _
  · rw [log]
    exact armed.ordered.append_calm _ calm

theorem confirmationWord_erased
    (memory : Nat → Byte)
    (erased : ∀ i, i < 4 → memory (block.base + stateOffset + i) = erasedByte) :
    confirmationWord memory block = 0 := by
  have bytes : (List.range 4).map (fun i => memory (block.base + stateOffset + i)) =
      List.replicate 4 erasedByte := by
    apply List.eq_replicate_iff.mpr
    refine ⟨by simp, fun byte member => ?_⟩
    obtain ⟨i, inRange, rfl⟩ := List.mem_map.mp member
    exact erased i (List.mem_range.mp inRange)
  rw [confirmationWord, bytes]
  decide

theorem Fresh.interruptible
    (blob : List Byte)
    (fresh : Fresh block target) :
    Interruptible block blob target where
  unfinished erased := by
    rw [fresh.notErased] at erased
    exact nomatch erased
  ordered := fresh.ordered

theorem Bare.interruptible
    (blob : List Byte)
    (bare : Bare block target) :
    Interruptible block blob target where
  unfinished _ := by
    refine Or.inl (confirmationWord_erased _ fun i inWord => ?_)
    rw [Nat.add_assoc]
    exact bare.erased _ (by simp only [stateOffset, ucbSize]; omega)
  ordered := bare.ordered

/-! ## The erase -/

theorem latchAll_eraseSetup (block : UcbBlock) (target : Target) :
    (target.latchAll (eraseSetup block)).address = block.base ∧
      (target.latchAll (eraseSetup block)).count = 1 := by
  simp [latchAll, eraseSetup, latch, logged, csiBase, cycleAA50, cycleAA58, cycleAAA8,
    cycle55F0, cycle55F4, cycle5554]

theorem latchAll_programSetup (address : Nat) (blob : List Byte) (offset : Nat)
    (target : Target) :
    (target.latchAll (programSetup address blob offset)).address = address ∧
      (target.latchAll (programSetup address blob offset)).load0 = le32 blob offset ∧
      (target.latchAll (programSetup address blob offset)).load1 =
        le32 blob (offset + 4) := by
  simp [latchAll, programSetup, latch, logged, csiBase, cycleAA50, cycleAA58, cycleAAA8,
    cycle55F0, cycle55F4, cycle5554]

/-- The erase command, the latches pointing at the block. -/
theorem fresh_erase
    (latched : target.address = block.base ∧ target.count = 1)
    (commanded : commandOf target.log (.write32 (csiBase + cycleAAA8) cmdErase) =
      some (.erase (some block.base) (some 1)))
    (fresh : Fresh block target)
    (step : device (.write32 (csiBase + cycleAAA8) cmdErase) target reply target') :
    Interruptible block blob target' ∧ (reply = true → Pending (Bare block) target') := by
  have logged := device_log step
  have ordered : Logged (AfterReadBack block) target'.log := by
    rw [logged]
    refine fresh.ordered.append _ fun command some_eq addr program => ?_
    rw [commanded, program] at some_eq
    exact nomatch some_eq
  have stays (same : target'.erased = target.erased) : Interruptible block blob target' :=
    Fresh.interruptible blob ⟨same.trans fresh.notErased, ordered⟩
  have filled (memory : target'.memory =
      fill target.address (ucbSize * target.count) erasedByte target.memory) :
      Bare block target' := by
    refine ⟨fun i inBlock => ?_, ⟨[], target.log, reply, logged, commanded⟩, ordered⟩
    rw [memory, latched.1, latched.2]
    exact fill_inside _ _ inBlock
  obtain ⟨seen, took | ⟨unacknowledged, rfl⟩, rfl⟩ := step
  · rcases took.erase with rfl | ⟨contents, -, rfl⟩
    · exact ⟨(filled rfl).interruptible blob, fun _ => Or.inr (filled rfl)⟩
    · exact ⟨stays rfl, fun _ => Or.inl rfl⟩
  · exact ⟨stays rfl, fun acknowledged => by
      rw [unacknowledged] at acknowledged
      exact nomatch acknowledged⟩

theorem holds_eraseCycles (fresh : Fresh block target) :
    (cycles (eraseSequence block)).Holds device (Interruptible block blob)
      (fun sent target' => sent = true → Pending (Bare block) target') target := by
  rw [cycles_eraseSequence]
  refine holds_writes (Fresh block) _ _ _ ?_ (fun _ => Fresh.interruptible blob)
    (fun _ _ impossible => nomatch impossible) ?_ fresh
  · intro pair member state reply state' fresh step
    exact keptByCalm_fresh _ _ _ _ (calm_eraseSetup pair member) fresh step
  · intro last reply target' acked fresh step
    have latched := latchAll_eraseSetup block target
    rw [← eq_latchAll_of_acked calm_eraseSetup acked] at latched
    exact fresh_erase latched (commandOf_eraseSetup (acked_logging acked)) fresh step

/-- `wait_idle` returns success only for a command that took effect. -/
theorem holds_waitFor
    {weak good : Target → Prop}
    (keptWeak : KeptByCalm weak)
    (keptGood : KeptByCalm good)
    (what : What)
    (timeoutMs : Nat)
    (start : weak target)
    (pending : Pending good target) :
    (waitFor what timeoutMs).Holds device weak
      (fun result target' => result = .ok () → good target') target := by
  refine (holds_waitIdle keptWeak keptGood timeoutMs start pending).bind
    fun waited target' start' good' => ?_
  cases waited with
  | idle => exact ⟨start', fun _ => good' rfl⟩
  | timeout => exact ⟨start', fun impossible => nomatch impossible⟩
  | failed errsr => exact ⟨start', fun impossible => nomatch impossible⟩

/-- Bytes of which none is found to be set are erased. -/
theorem erased_of_unerased
    (bytes : List Byte)
    (size : bytes.length = ucbSize)
    (none : unerased bytes = []) :
    bytes = List.replicate ucbSize erasedByte := by
  refine List.eq_replicate_iff.mpr ⟨size, fun byte member => ?_⟩
  obtain ⟨i, inRange, rfl⟩ := List.mem_iff_getElem.mp member
  have kept := List.filter_eq_nil_iff.mp none i (List.mem_range.mpr (size ▸ inRange))
  simpa [inRange] using kept

/-- The read-back of the erase. -/
theorem holds_confirmErased
    (catalogued : block ∈ blocks)
    (bare : Bare block target) :
    (confirmErased block).Holds device (Bare block)
      (fun result target' => result = .ok () → ReadBackErased block target'.log)
      target := by
  obtain ⟨aligned, inRange⟩ := blocks_in_range block catalogued
  have reads := holds_readMem Target.log (fun _ _ _ _ => device_log)
    (fun op _ _ _ reading bare step =>
      keptByCalm_bare op _ _ _ (calm_of_reading reading) bare step)
    128 ucbSize block.base aligned inRange (by decide) bare
  refine Program.Holds.bind reads fun result target' bare' found => ?_
  cases result with
  | none => exact ⟨bare', fun impossible => nomatch impossible⟩
  | some bytes =>
      obtain ⟨words, length_eq, rfl, log_eq⟩ := found bytes rfl
      refine ⟨bare', fun ok => ?_⟩
      split at ok
      · exact nomatch ok
      · next allErased =>
          obtain ⟨after, before, reply, commanded_eq, command⟩ := bare.commanded
          refine ⟨after ++ readEvents block.base words, ⟨before, reply, ?_, command⟩, words,
            (List.suffix_append _ _).isInfix, ?_⟩
          · rw [log_eq, commanded_eq]
            simp
          · refine erased_of_unerased _ ?_ (not_not.mp allErased)
            rw [length_flatMap_wordBytes, length_eq]
            decide

/-- An erase that reports success leaves the block erased and read back. -/
theorem holds_erase_interruptible
    (catalogued : block ∈ blocks)
    (fresh : Fresh block target) :
    (erase block).Holds device (Interruptible block blob)
      (fun result target' => result = .ok () →
        Bare block target' ∧ ReadBackErased block target'.log) target := by
  have cleared := (holds_of_calm keptByCalm_fresh uses_clearStatus fresh).mono
    (fun _ => Fresh.interruptible blob) fun _ _ fresh _ => fresh
  refine cleared.bind fun _ target₁ _ fresh₁ => ?_
  refine (holds_eraseCycles fresh₁).bind fun sent target₂ interruptible₂ pending₂ => ?_
  cases sent with
  | false => exact ⟨interruptible₂, fun impossible => nomatch impossible⟩
  | true =>
      refine (holds_waitFor keptByCalm_interruptible keptByCalm_bare _ _ interruptible₂
        (pending₂ rfl)).bind fun waited target₃ interruptible₃ bare₃ => ?_
      cases waited with
      | error why => exact ⟨interruptible₃, fun impossible => nomatch impossible⟩
      | ok done =>
          have bare := bare₃ rfl
          have cleared' := (holds_of_calm keptByCalm_bare uses_clearStatus bare).mono
            (fun _ => Bare.interruptible blob) fun _ _ bare _ => bare
          refine cleared'.bind fun _ target₄ _ bare₄ => ?_
          refine ((holds_confirmErased catalogued bare₄).mono
            (fun _ bare => bare.interruptible blob) fun result target' bare post ok => ?_)
          exact ⟨bare, post ok⟩

/-! ## The pages -/

/-- The page at `offset` holds the image. -/
def PageHolds
    (block : UcbBlock)
    (blob : List Byte)
    (offset : Nat)
    (memory : Nat → Byte) : Prop :=
  ∀ i, i < ucbPageSize → memory (block.base + offset + i) = blob.getD (offset + i) 0

/-- Nothing `kept` says depends on the page at `offset`. -/
def Ignores
    (block : UcbBlock)
    (offset : Nat)
    (kept : (Nat → Byte) → Prop) : Prop :=
  ∀ before after, SameOutside (block.base + offset) ucbPageSize before after →
    kept before → kept after

/-- What the contents keep is enough at a power loss. -/
def Suffices
    (block : UcbBlock)
    (blob : List Byte)
    (kept : (Nat → Byte) → Prop) : Prop :=
  ∀ memory, kept memory → confirmationWord memory block = 0 ∨ OthersHold block blob memory

theorem Armed.interruptible
    (suffices' : Suffices block blob kept)
    (armed : Armed block kept target) : Interruptible block blob target where
  unfinished _ := suffices' _ armed.contents
  ordered := armed.ordered

theorem sameOutside_fillPage (start load0 load1 : Nat) (memory : Nat → Byte) :
    SameOutside start ucbPageSize memory (fillPage start load0 load1 memory) := by
  intro addr outside
  simp only [ucbPageSize] at outside
  rw [fillPage, if_neg (by omega), if_neg (by omega)]

theorem pageHolds_fillPage (block : UcbBlock) (blob : List Byte) (offset : Nat)
    (memory : Nat → Byte) :
    PageHolds block blob offset
      (fillPage (block.base + offset) (le32 blob offset) (le32 blob (offset + 4)) memory) := by
  intro i inPage
  simp only [ucbPageSize] at inPage
  by_cases first : i < 4
  · rw [fillPage, if_pos (by omega), Nat.add_sub_cancel_left, byteOf_le32 _ _ first]
  · rw [fillPage, if_neg (by omega), if_pos (by omega),
      show block.base + offset + i - (block.base + offset + 4) = i - 4 by omega,
      byteOf_le32 _ _ (by omega), show offset + 4 + (i - 4) = offset + i by omega]

/-- The program command, the latches holding a page of the image. -/
theorem armed_program
    (ignores : Ignores block offset kept)
    (latched : target.address = block.base + offset ∧
      target.load0 = le32 blob offset ∧ target.load1 = le32 blob (offset + 4))
    (armed : Armed block kept target)
    (step : device (.write32 (csiBase + cycleAAA8) cmdProgram) target reply target') :
    Armed block kept target' ∧ (reply = true → Pending
      (Armed block fun memory => kept memory ∧ PageHolds block blob offset memory)
        target') := by
  obtain ⟨address, load0, load1⟩ := latched
  have log := device_log step
  have readBack : ReadBackErased block target'.log := by
    rw [log]
    exact armed.readBack.append _
  have ordered : Logged (AfterReadBack block) target'.log := by
    rw [log]
    exact armed.ordered.append _ fun _ _ _ _ => armed.readBack
  have elsewhere (same : SameOutside (block.base + offset) ucbPageSize target.memory
      target'.memory) : Armed block kept target' :=
    ⟨ignores _ _ same armed.contents, readBack, ordered⟩
  obtain ⟨seen, took | ⟨unacknowledged, rfl⟩, rfl⟩ := step
  · rcases took.program with rfl | ⟨contents, same, rfl⟩
    · rw [address, load0, load1] at *
      have armed' := elsewhere (sameOutside_fillPage _ _ _ _)
      exact ⟨armed', fun _ => Or.inr
        ⟨⟨armed'.contents, pageHolds_fillPage _ _ _ _⟩, readBack, ordered⟩⟩
    · rw [address] at same
      exact ⟨elsewhere same, fun _ => Or.inl rfl⟩
  · exact ⟨⟨armed.contents, readBack, ordered⟩, fun acknowledged => by
      rw [unacknowledged] at acknowledged
      exact nomatch acknowledged⟩

theorem holds_programPage_interruptible
    (catalogued : block ∈ blocks)
    (inBlock : offset + ucbPageSize ≤ ucbSize)
    (ignores : Ignores block offset kept)
    (suffices' : Suffices block blob kept)
    (armed : Armed block kept target) :
    (programPage block blob offset).Holds device (Interruptible block blob)
      (fun result target' => result = .ok () →
        Armed block (fun memory => kept memory ∧ PageHolds block blob offset memory)
          target') target := by
  obtain ⟨-, inRange⟩ := blocks_in_range block catalogued
  have address_eq : u32 (block.base + offset) = block.base + offset := by
    apply u32_of_lt
    simp only [ucbSize, ucbPageSize] at *
    omega
  have interruptible : ∀ state, Armed block kept state → Interruptible block blob state :=
    fun _ => Armed.interruptible suffices'
  unfold programPage
  simp only [address_eq, cycles_programSequence]
  refine Program.holds_seq (fun sent target' => sent = true → Pending
      (Armed block fun memory => kept memory ∧ PageHolds block blob offset memory) target')
    (holds_writes (Armed block kept) _ _ _ ?_ interruptible
      (by simp) ?_ armed) ?_
  · intro pair member state reply state' armed step
    exact keptByCalm_armed _ _ _ _ (calm_programSetup pair member) armed step
  · intro last reply target' acked armed step
    have latched := latchAll_programSetup (block.base + offset) blob offset target
    rw [← eq_latchAll_of_acked calm_programSetup acked] at latched
    obtain ⟨armed', pending⟩ := armed_program ignores latched armed step
    exact ⟨interruptible _ armed', pending⟩
  · intro sent target₁ interruptible₁ pending₁
    cases sent with
    | false => exact ⟨interruptible₁, by simp⟩
    | true =>
        refine (holds_waitFor keptByCalm_interruptible keptByCalm_armed _ _ interruptible₁
          (pending₁ rfl)).bind fun waited target₂ interruptible₂ armed₂ => ?_
        cases waited with
        | error why => exact ⟨interruptible₂, by simp⟩
        | ok done =>
            have cleared := holds_of_calm keptByCalm_armed uses_clearStatus (armed₂ rfl)
            refine (cleared.mono (fun _ armed => armed.interruptible fun memory both =>
              suffices' memory both.1) fun _ _ armed _ => armed).bind
                fun cleared target₃ interruptible₃ armed₃ => ?_
            cases cleared with
            | false => exact ⟨interruptible₃, by simp⟩
            | true => exact ⟨interruptible₃, fun _ => armed₃⟩

/-- The pages programmed before the state page. -/
def otherPages : List Nat :=
  ((List.range (ucbSize / ucbPageSize)).map (ucbPageSize * ·)).filter (· != statePage)

theorem otherPages_in_block :
    ∀ offset ∈ otherPages, offset % ucbPageSize = 0 ∧ offset + ucbPageSize ≤ ucbSize ∧
      offset ≠ statePage := by
  decide

theorem otherPages_nodup : otherPages.Nodup := by
  decide

/-- Every byte outside the state page is in one of the other pages. -/
theorem page_mem_otherPages
    (inBlock : i < ucbSize)
    (outside : i < statePage ∨ statePage + ucbPageSize ≤ i) :
    ucbPageSize * (i / ucbPageSize) ∈ otherPages := by
  have state_eq : statePage = 0x1F0 := by decide
  have pages_eq : ucbSize / ucbPageSize = 64 := by decide
  rw [otherPages, pages_eq]
  simp only [state_eq, ucbPageSize, ucbSize] at *
  refine List.mem_filter.mpr ⟨List.mem_map_of_mem (List.mem_range.mpr ?_), ?_⟩
  · omega
  · rw [bne_iff_ne]
    omega

/-- While the other pages are programmed: the confirmation word is erased and
the pages done hold the image. -/
structure Partial
    (block : UcbBlock)
    (blob : List Byte)
    (done : List Nat)
    (memory : Nat → Byte) : Prop where
  confirmation : ∀ i, i < 4 → memory (block.base + stateOffset + i) = erasedByte
  pages : ∀ offset ∈ done, PageHolds block blob offset memory

theorem Partial.suffices (block : UcbBlock) (blob : List Byte) (done : List Nat) :
    Suffices block blob (Partial block blob done) :=
  fun _ kept => Or.inl (confirmationWord_erased _ kept.confirmation)

theorem Partial.ignores
    (aligned : offset % ucbPageSize = 0)
    (other : offset ≠ statePage)
    (alignedDone : ∀ page ∈ done, page % ucbPageSize = 0)
    (fresh : offset ∉ done) :
    Ignores block offset (Partial block blob done) := by
  intro before after same kept
  have state_eq : statePage = 0x1F0 := by decide
  simp only [SameOutside, state_eq, ucbPageSize] at *
  refine ⟨fun i inWord => ?_, fun page member i inPage => ?_⟩
  · rw [same _ (by simp only [stateOffset]; omega), kept.confirmation i inWord]
  · have different : page ≠ offset := fun equal => fresh (equal ▸ member)
    have alignedPage := alignedDone page member
    simp only [ucbPageSize] at inPage
    rw [same _ (by omega), kept.pages page member i inPage]

theorem OthersHold.of_partial
    {memory : Nat → Byte}
    (kept : Partial block blob otherPages memory) :
    OthersHold block blob memory := by
  intro i inBlock outside
  have holds := kept.pages _ (page_mem_otherPages inBlock outside) (i % ucbPageSize)
    (Nat.mod_lt _ (by decide))
  rwa [Nat.add_assoc, Nat.div_add_mod] at holds

theorem OthersHold.ignores (block : UcbBlock) (blob : List Byte) :
    Ignores block statePage (OthersHold block blob) := by
  intro before after same kept i inBlock outside
  rw [same _ (by omega), kept i inBlock outside]

theorem holds_programPages_interruptible
    (catalogued : block ∈ blocks)
    (done rest : List Nat)
    (pages_eq : done ++ rest = otherPages)
    (armed : Armed block (Partial block blob done) target) :
    (programPages block blob (rest ++ [statePage])).Holds device (Interruptible block blob)
      (fun _ _ => True) target := by
  induction rest generalizing done target with
  | nil =>
      rw [List.append_nil] at pages_eq
      subst pages_eq
      have others : Armed block (OthersHold block blob) target :=
        ⟨OthersHold.of_partial armed.contents, armed.readBack, armed.ordered⟩
      refine (holds_programPage_interruptible catalogued (by decide)
        (OthersHold.ignores block blob) (fun _ => Or.inr) others).bind
          fun result target' interruptible _ => ?_
      cases result with
      | error why => exact ⟨interruptible, trivial⟩
      | ok done => exact ⟨interruptible, trivial⟩
  | cons offset rest inductionHypothesis =>
      have inPages : ∀ page ∈ done ++ offset :: rest, page % ucbPageSize = 0 ∧
          page + ucbPageSize ≤ ucbSize ∧ page ≠ statePage :=
        pages_eq ▸ otherPages_in_block
      obtain ⟨aligned, inBlock, other⟩ := inPages offset (by simp)
      have fresh : offset ∉ done := fun member =>
        (List.nodup_append.mp (pages_eq ▸ otherPages_nodup)).2.2 offset member offset
          List.mem_cons_self rfl
      have ignores : Ignores block offset (Partial block blob done) :=
        Partial.ignores aligned other
          (fun page member => (inPages page (List.mem_append_left _ member)).1) fresh
      refine (holds_programPage_interruptible catalogued inBlock ignores
        (Partial.suffices block blob done) armed).bind
          fun result target' interruptible armed' => ?_
      cases result with
      | error why => exact ⟨interruptible, trivial⟩
      | ok _ =>
          obtain ⟨⟨kept, page⟩, readBack, ordered⟩ := armed' rfl
          refine inductionHypothesis (done ++ [offset]) ?_ ⟨?_, readBack, ordered⟩
          · rw [List.append_assoc]
            exact pages_eq
          · refine ⟨kept.confirmation, fun next member => ?_⟩
            rcases List.mem_append.mp member with member | last
            · exact kept.pages next member
            · obtain rfl := List.mem_singleton.mp last
              exact page

/-! ## The write -/

theorem holds_writeBlock_interruptible
    (present : Bool)
    (catalogued : block ∈ blocks)
    (fresh : Fresh block target) :
    (writeBlock present block blob).Holds device (Interruptible block blob)
      (fun _ _ => True) target := by
  have halts := (holds_of_calm keptByCalm_fresh
    ((uses_tricoreIsHalted present).mono fun _ => calm_of_reading) fresh).mono
      (fun _ => Fresh.interruptible blob) fun _ _ fresh _ => fresh
  refine halts.bind fun halted target₁ interruptible₁ fresh₁ => ?_
  cases halted with
  | false => exact ⟨interruptible₁, trivial⟩
  | true =>
      have checks := (holds_of_calm keptByCalm_fresh (uses_checkPageMode block) fresh₁).mono
        (fun _ => Fresh.interruptible blob) fun _ _ fresh _ => fresh
      refine checks.bind fun inPageMode target₂ interruptible₂ fresh₂ => ?_
      cases inPageMode with
      | error why => exact ⟨interruptible₂, trivial⟩
      | ok done =>
          refine (holds_erase_interruptible catalogued fresh₂).bind
            fun erased target₃ interruptible₃ bare₃ => ?_
          cases erased with
          | error why => exact ⟨interruptible₃, trivial⟩
          | ok done =>
              obtain ⟨bare, readBack⟩ := bare₃ rfl
              have armed : Armed block (Partial block blob []) target₃ := by
                refine ⟨⟨fun i inWord => ?_, ?_⟩, readBack, bare.ordered⟩
                · rw [Nat.add_assoc]
                  exact bare.erased _ (by simp only [stateOffset, ucbSize]; omega)
                · exact fun offset member => absurd member List.not_mem_nil
              refine (holds_programPages_interruptible catalogued [] otherPages rfl
                armed).bind fun programmed target₄ interruptible₄ _ => ?_
              cases programmed with
              | error why => exact ⟨interruptible₄, trivial⟩
              | ok done =>
                  exact holds_of_calm keptByCalm_interruptible (uses_verifyBlock block blob)
                    interruptible₄

/-- Wherever a write is cut off: once the erase has succeeded the confirmation
word reads as erased until all other pages hold the image, and pages were
programmed only after the whole block was read back as erased. -/
theorem writeBlock_interruptible
    (present : Bool)
    (image : UcbImage)
    (catalogued : block ∈ blocks)
    (notErased : target.erased = false)
    (noLog : target.log = [])
    (reaches : (writeBlock present block (image.blobOf block)).Reaches device target last) :
    (last.erased = true → confirmationWord last.memory block = 0 ∨
      OthersHold block (image.blobOf block) last.memory) ∧
    ∀ before event after, last.log = before ++ event :: after →
      ∀ addr, commandOf before event.1 = some (.program addr) →
        ReadBackErased block before := by
  have fresh : Fresh block target := ⟨notErased, noLog ▸ Logged.nil⟩
  obtain ⟨unfinished, ordered⟩ :=
    (holds_writeBlock_interruptible present catalogued fresh).of_reaches reaches
  refine ⟨unfinished, fun before event after split addr program => ?_⟩
  exact ordered before event after split _ program addr rfl

/-- A target that acknowledges everything and whose commands succeed. -/
def obedient (op : Op) (target : Target) : Reply op × Target :=
  match op with
  | .read32 addr =>
      let reply := some (if addr = dmuHfStatus then statusDfpage
        else if addr = coreBase + offDbgsr then 1 <<< dbgsrHaltShift
        else if addr = dmuHfErrsr then (if target.failed then 1 else 0)
        else 0)
      (reply, target.logged ⟨.read32 addr, reply⟩)
  | .write32 addr value =>
      let after : Target :=
        if addr = csiBase + cycleAAA8 ∧ value = cmdErase then
          { target with
            memory := fill target.address (ucbSize * target.count) erasedByte target.memory
            erased := true }
        else if addr = csiBase + cycleAAA8 ∧ value = cmdProgram then
          { target with
            memory := fillPage target.address target.load0 target.load1 target.memory }
        else target.latch addr value
      (true, after.logged ⟨.write32 addr value, true⟩)
  | .clearErrorState => ((), target.logged ⟨.clearErrorState, ()⟩)
  | .deadline timeoutMs => (0, target.logged ⟨.deadline timeoutMs, 0⟩)
  | .writeBlock addr data => (true, target.logged ⟨.writeBlock addr data, true⟩)
  | .runLoader cmd addr count timeoutMs =>
      (some 0, target.logged ⟨.runLoader cmd addr count timeoutMs, some 0⟩)

theorem device_obedient (op : Op) (target : Target) :
    device op target (obedient op target).1 (obedient op target).2 := by
  cases op with
  | read32 addr =>
      refine ⟨target, ⟨rfl, fun errsr failed => ⟨1, ?_, by decide⟩⟩, rfl⟩
      simp [obedient, errsr, failed, dmuHfErrsr, dmuHfStatus, coreBase, offDbgsr]
  | write32 addr value =>
      refine ⟨_, Or.inl ?_, rfl⟩
      split_ifs with erases programs
      · obtain ⟨rfl, rfl⟩ := erases
        exact .eraseDone
      · obtain ⟨rfl, rfl⟩ := programs
        exact .programDone
      · refine .latch (calm_cycle _ _ ?_)
        by_cases other : addr = csiBase + cycleAAA8
        · exact Or.inr ⟨fun same => erases ⟨other, same⟩, fun same => programs ⟨other, same⟩⟩
        · exact Or.inl other
  | clearErrorState => exact ⟨target, ⟨rfl, trivial⟩, rfl⟩
  | deadline _ => exact ⟨target, ⟨rfl, trivial⟩, rfl⟩
  | writeBlock _ _ => exact ⟨target, ⟨rfl, trivial⟩, rfl⟩
  | runLoader _ _ _ _ => exact ⟨target, ⟨rfl, trivial⟩, rfl⟩

/-- The target after some operations of writing the header. -/
def writingHeader (operations : Nat) : Target :=
  ((writeBlock true bmhd0 (headerAt80000000.blobOf bmhd0)).runFor obedient operations
    ⟨fun _ => 0xFF, 0, 0, 0, 0, false, false, []⟩).2

/-- The erase command has just been acknowledged. -/
theorem writeBlock_interruptible_erased :
    (writingHeader 11).erased = true ∧
      ((writingHeader 11).erased = true →
        confirmationWord (writingHeader 11).memory bmhd0 = 0 ∨
          OthersHold bmhd0 (headerAt80000000.blobOf bmhd0) (writingHeader 11).memory) ∧
      ∀ before event after, (writingHeader 11).log = before ++ event :: after →
        ∀ addr, commandOf before event.1 = some (.program addr) →
          ReadBackErased bmhd0 before :=
  ⟨by decide +kernel, writeBlock_interruptible true headerAt80000000 (by decide) rfl rfl
    (Program.reaches_runFor obedient device_obedient 11 _ _)⟩

end Ucb
end TriCoreDap
