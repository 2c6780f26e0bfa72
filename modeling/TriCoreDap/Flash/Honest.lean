import TriCoreDap.Flash.Written

/-!
# A target that shows its errors

An erase that the target has seen either erases its range or is shown in the error register
until the status is cleared.  On such a target an erase stage that succeeds has erased its
sectors, and nothing else.
-/

namespace TriCoreDap
namespace Flash

open Probe

/-- The target and whether its error register shows a failed erase. -/
structure HonestTarget where
  flash : FlashTarget
  failed : Bool

namespace HonestTarget

/-- What the error register has to do with an operation. -/
def Shows (target : HonestTarget) : (op : Op) → Reply op → HonestTarget → Prop
  | .write32 addr value, reply, after =>
      (addr = csiBase + cycleAAA8 → value = cmdErase → reply = true → after.failed = true ∨
        after.flash.cells = fill target.flash.address (flashSector * target.flash.count)
          flashErased target.flash.cells) ∧
      (addr ≠ csiBase + cycle5554 → target.failed = true → after.failed = true)
  | .read32 addr, reply, after =>
      after.failed = target.failed ∧ (addr = dmuHfErrsr → target.failed = true →
        ∃ errsr, reply = some errsr ∧ errsr &&& errsrFailed ≠ 0)
  | _, _, after => after.failed = target.failed

/-- How the target may answer an operation. -/
def device (swapActive : Bool) : Device Op Reply HonestTarget :=
  fun op target reply after =>
    FlashTarget.device swapActive op target.flash reply after.flash ∧ target.Shows op reply after

variable {swapActive : Bool} {target after : HonestTarget}

theorem device_flash (step : device swapActive op target reply after) :
    FlashTarget.device swapActive op target.flash reply after.flash :=
  step.1

end HonestTarget

variable {session : FlashSession} {regions : List FlashRegion} {swapActive : Bool}
  {sector command count : Nat} {rest : List Word} {cells : Nat → Byte}

/-! ## Cycles -/

/-- A cycle that starts no command changes no cell. -/
theorem FlashTarget.cells_of_calm
    {target after : FlashTarget}
    (calm : Calm (.write32 addr value))
    (step : FlashTarget.device swapActive (.write32 addr value) target reply after) :
    after.cells = target.cells := by
  obtain ⟨acted, took | ⟨-, rfl⟩, rfl⟩ := step
  · cases took with
    | latch _ => exact FlashTarget.latch_cells
    | eraseDone => exact absurd (calm []) (by simp [commandOf_erase])
    | eraseFailed _ => exact absurd (calm []) (by simp [commandOf_erase])
    | programmed => exact absurd (calm []) (by simp [commandOf_program])
  · rfl

/-- A cycle that was acknowledged is latched. -/
theorem FlashTarget.latch_of_acked
    {target after : FlashTarget}
    (calm : Calm (.write32 addr value))
    (step : FlashTarget.device swapActive (.write32 addr value) target true after) :
    after.address = (target.latch addr value).address ∧
      after.count = (target.latch addr value).count := by
  obtain ⟨acted, took | ⟨impossible, -⟩, rfl⟩ := step
  · cases took with
    | latch _ => exact ⟨rfl, rfl⟩
    | eraseDone => exact absurd (calm []) (by simp [commandOf_erase])
    | eraseFailed _ => exact absurd (calm []) (by simp [commandOf_erase])
    | programmed => exact absurd (calm []) (by simp [commandOf_program])
  · cases impossible

/-- The setup of an erase latches its operands. -/
theorem latched_of_acked
    {target last : HonestTarget}
    (acked : Acked (HonestTarget.device swapActive) (eraseRangeSetup command count) target last) :
    last.flash.address = command ∧ last.flash.count = count := by
  have calm : ∀ pair ∈ eraseRangeSetup command count, Calm (.write32 pair.1 pair.2) :=
    calm_eraseRangeSetup
  simp only [eraseRangeSetup, List.forall_mem_cons] at calm
  obtain ⟨calm₁, calm₂, calm₃, calm₄, -⟩ := calm
  obtain ⟨target₁, step₁, target₂, step₂, target₃, step₃, target₄, step₄, rfl⟩ := acked
  obtain ⟨address₂, -⟩ := FlashTarget.latch_of_acked calm₂ step₂.1
  obtain ⟨address₃, count₃⟩ := FlashTarget.latch_of_acked calm₃ step₃.1
  obtain ⟨address₄, count₄⟩ := FlashTarget.latch_of_acked calm₄ step₄.1
  rw [FlashTarget.latch, if_pos rfl] at address₂
  rw [FlashTarget.latch, if_neg (by decide), if_pos rfl] at address₃ count₃
  rw [FlashTarget.latch, if_neg (by decide), if_neg (by decide)] at address₄ count₄
  exact ⟨address₄.trans (address₃.trans address₂), count₄.trans count₃⟩

/-! ## One erase command -/

/-- The command changes its range only; where it is acknowledged, the range is erased or
the error shown. -/
theorem erase_of_step
    {target after : HonestTarget}
    (step : HonestTarget.device swapActive (.write32 (csiBase + cycleAAA8) cmdErase) target reply
      after) :
    SameOutside target.flash.address (flashSector * target.flash.count) target.flash.cells
      after.flash.cells ∧
    (reply = true → after.failed = true ∨ after.flash.cells = fill target.flash.address
      (flashSector * target.flash.count) flashErased target.flash.cells) := by
  obtain ⟨⟨acted, acts, flash_eq⟩, shows, -⟩ := step
  refine ⟨?_, shows rfl rfl⟩
  rw [flash_eq]
  rcases acts with took | ⟨-, rfl⟩
  · cases took with
    | latch calm => exact absurd (calm []) (by simp [commandOf_erase])
    | eraseDone => exact sameOutside_fill _ _ _ _
    | eraseFailed same => exact same
  · exact fun _ _ => rfl

/-- Reading changes neither the cells nor what the error register shows. -/
theorem kept_of_reading
    {target after : HonestTarget}
    {op : Op}
    {reply : Reply op}
    (reading : Reading op)
    (step : HonestTarget.device swapActive op target reply after) :
    after.flash.cells = target.flash.cells ∧ after.failed = target.failed := by
  obtain ⟨⟨acted, acts, flash_eq⟩, shows⟩ := step
  rw [flash_eq]
  cases op with
  | read32 addr =>
      obtain rfl := acts
      exact ⟨rfl, shows.1⟩
  | clearErrorState =>
      obtain rfl := acts
      exact ⟨rfl, shows⟩
  | deadline timeoutMs =>
      obtain rfl := acts
      exact ⟨rfl, shows⟩
  | _ => exact absurd reading id

theorem holds_pollIdle_honest
    (failed : Bool)
    (more : Nat)
    {target : HonestTarget}
    (same : target.flash.cells = cells ∧ target.failed = failed) :
    (pollIdle more).Holds (HonestTarget.device swapActive)
      (fun target => target.flash.cells = cells ∧ target.failed = failed)
      (fun _ _ => True) target := by
  have status : Reading (.read32 dmuHfStatus) := trivial
  refine Program.holds_of_uses (fun op target reply after reading same step => ?_)
    (uses_pollIdle status more) same
  obtain ⟨cells_eq, failed_eq⟩ := kept_of_reading reading step
  exact ⟨cells_eq.trans same.1, failed_eq.trans same.2⟩

theorem holds_clearStatus_honest
    {target : HonestTarget}
    (same : target.flash.cells = cells) :
    clearStatus.Holds (HonestTarget.device swapActive) (fun target => target.flash.cells = cells)
      (fun _ _ => True) target := by
  refine ⟨same, fun reply after step => ⟨?_, trivial⟩⟩
  exact (FlashTarget.cells_of_calm calm_clearStatus step.1).trans same

/-- Waiting reports success only where no error is shown. -/
theorem holds_waitIdle_honest
    (timeoutMs : Nat)
    {target : HonestTarget}
    (same : target.flash.cells = cells) :
    (waitIdle timeoutMs).Holds (HonestTarget.device swapActive)
      (fun target => target.flash.cells = cells)
      (fun result _ => result = .idle → target.failed = false) target := by
  refine ⟨same, fun more target₁ step₁ => ?_⟩
  obtain ⟨cells₁, failed₁⟩ := kept_of_reading (reading_deadline timeoutMs) step₁
  refine ((holds_pollIdle_honest target.failed more ⟨cells₁.trans same, failed₁⟩).mono
    (fun _ both => both.1) fun _ _ both _ => both).bind fun isIdle target₂ cells₂ both₂ => ?_
  cases isIdle with
  | false => exact ⟨cells₂, fun timeout => by cases timeout⟩
  | true =>
      refine ⟨cells₂, fun errsr target₃ step₃ => ?_⟩
      obtain ⟨cells₃, -⟩ := kept_of_reading (reading_read32 dmuHfErrsr) step₃
      have shown : target.failed = true →
          ∃ word, errsr = some word ∧ word &&& errsrFailed ≠ 0 := fun failed =>
        step₃.2.2 rfl (both₂.2.trans failed)
      refine (holds_clearStatus_honest (cells₃.trans cells₂)).bind
        fun cleared target₄ cells₄ _ => ?_
      cases errsr with
      | none =>
          refine ⟨cells₄, fun _ => ?_⟩
          rw [← Bool.not_eq_true]
          intro failed
          obtain ⟨word, impossible, -⟩ := shown failed
          cases impossible
      | some errsr =>
          refine ⟨cells₄, fun reported => ?_⟩
          rw [← Bool.not_eq_true]
          intro failed
          obtain ⟨word, same, shows⟩ := shown failed
          obtain rfl := Option.some.inj same
          rw [if_neg shows] at reported
          cases reported

/-- `erase_range` on a target that shows its errors. -/
theorem holds_eraseRange_cells
    (errsr : Word)
    {target : HonestTarget}
    (same : target.flash.cells = cells) :
    (eraseRange session.swapActive sector count errsr).Holds
      (HonestTarget.device session.swapActive)
      (fun target => SameOutside (session.command sector) (flashSector * count) cells
        target.flash.cells)
      (fun result last => result.1 = true →
        last.flash.cells = fill (session.command sector) (flashSector * count) flashErased cells)
      target := by
  have sent : (cycles (eraseRangeSequence (session.command sector) count)).Holds
      (HonestTarget.device session.swapActive)
      (fun target => SameOutside (session.command sector) (flashSector * count) cells
        target.flash.cells)
      (fun result last => result = true → last.failed = true ∨
        last.flash.cells = fill (session.command sector) (flashSector * count) flashErased cells)
      target := by
    rw [cycles_eraseRangeSequence]
    refine holds_writes (fun target => target.flash.cells = cells) _ _ _ ?_
      (fun _ same _ _ => by rw [same]) (fun _ _ impossible => by cases impossible) ?_ same
    · intro pair member _ _ _ same step
      exact (FlashTarget.cells_of_calm (calm_eraseRangeSetup pair member) step.1).trans same
    · intro last reply after acked same step
      obtain ⟨address_eq, count_eq⟩ := latched_of_acked acked
      have erased := erase_of_step step
      rw [address_eq, count_eq, same] at erased
      exact erased
  refine sent.bind fun result target₁ outside₁ sent₁ => ?_
  cases result with
  | false => exact ⟨outside₁, fun impossible => by cases impossible⟩
  | true =>
      have outside : ∀ last : HonestTarget, last.flash.cells = target₁.flash.cells →
          SameOutside (session.command sector) (flashSector * count) cells last.flash.cells :=
        fun last same => by rwa [same]
      refine ((holds_waitIdle_honest 5000 rfl).mono outside
        fun _ last same idle => And.intro same idle).bind fun waited target₂ outside₂ both₂ => ?_
      obtain ⟨cells₂, idle₂⟩ := both₂
      cases waited with
      | timeout => exact ⟨outside₂, fun impossible => by cases impossible⟩
      | failed latched => exact ⟨outside₂, fun impossible => by cases impossible⟩
      | idle =>
          refine ((holds_clearStatus_honest cells₂).mono outside
            fun _ _ same _ => same).bind fun cleared target₃ outside₃ cells₃ => ?_
          refine ⟨outside₃, fun _ => ?_⟩
          rw [cells₃]
          refine (sent₁ rfl).resolve_left fun failed => ?_
          rw [idle₂ rfl] at failed
          cases failed

/-! ## The erase stage -/

/-- Sectors that can be programmed share no cell unless they are the same. -/
theorem sector_eq_of_inSector
    {left right : Nat}
    (programmableLeft : Programmable session.chipid session.swapActive left)
    (programmableRight : Programmable session.chipid session.swapActive right)
    (inLeft : InSector session left command)
    (inRight : InSector session right command) : left = right := by
  have alignedLeft : session.command left % flashSector = 0 := programmableLeft.command_aligned
  have alignedRight : session.command right % flashSector = 0 := programmableRight.command_aligned
  have same : session.command left = session.command right := by
    obtain ⟨aboveLeft, belowLeft⟩ := inLeft
    obtain ⟨aboveRight, belowRight⟩ := inRight
    simp only [flashSector] at *
    omega
  exact commandAddress_injective programmableLeft.uncached programmableRight.uncached same

/-- The range of a run is that of its sectors. -/
theorem Consecutive.inSectors_iff
    {sectors : List Word}
    {first run : Nat}
    (consecutive : Consecutive session sectors first run) :
    (first ≤ command ∧ command < first + flashSector * run) ↔
      InSectors session (sectors.take run) command := by
  constructor
  · rintro ⟨above, below⟩
    have inRun : (command - first) / flashSector < run := by
      simp only [flashSector] at *
      omega
    obtain ⟨sector, isAt, command_eq⟩ := consecutive.follows _ inRun
    refine ⟨sector, List.mem_iff_getElem?.mpr ⟨(command - first) / flashSector, ?_⟩, ?_⟩
    · rw [List.getElem?_take, if_pos inRun, isAt]
    · rw [InSector, command_eq]
      simp only [flashSector] at *
      omega
  · rintro ⟨sector, member, inSector⟩
    exact consecutive.covers member inSector

theorem inSectors_mono
    {fewer more : List Word}
    (subset : fewer ⊆ more)
    (inSectors : InSectors session fewer command) : InSectors session more command := by
  obtain ⟨sector, member, inSector⟩ := inSectors
  exact ⟨sector, subset member, inSector⟩

/-- Only cells of some sectors have changed. -/
def Spared (session : FlashSession) (sectors : List Word) (before : Nat → Byte)
    (target : HonestTarget) : Prop :=
  ∀ command, ¬InSectors session sectors command → target.flash.cells command = before command

/-- The cells of some sectors are erased. -/
def Blank (session : FlashSession) (sectors : List Word) (target : HonestTarget) : Prop :=
  ∀ command, InSectors session sectors command → target.flash.cells command = flashErased

/-- A command on a run of sectors changes their cells only, and blanks them where it
succeeds. -/
theorem holds_eraseRange_run
    {sectors : List Word}
    {run : Nat}
    {before : Nat → Byte}
    (consecutive : Consecutive session sectors (session.command sector) run)
    (errsr : Word)
    {target : HonestTarget}
    (spared : Spared session sectors before target) :
    (eraseRange session.swapActive sector run errsr).Holds
      (HonestTarget.device session.swapActive) (Spared session sectors before)
      (fun result last => result.1 = true → Blank session (sectors.take run) last) target := by
  refine (holds_eraseRange_cells errsr rfl).mono (fun last same command notIn => ?_)
    fun result last _ erased ok command inRun => ?_
  · rw [← spared command notIn]
    refine same command ?_
    by_contra inRange
    have inRun : InSectors session (sectors.take run) command :=
      consecutive.inSectors_iff.mp ⟨by omega, by omega⟩
    exact notIn (inSectors_mono (List.take_subset _ _) inRun)
  · rw [erased ok, fill, if_pos (consecutive.inSectors_iff.mpr inRun)]

/-- One round of the erase stage. -/
theorem holds_eraseNext_blank
    {before : Nat → Byte}
    (accepted : Accepted session regions (sector :: rest))
    (state : EraseState)
    {target : HonestTarget}
    (spared : Spared session (sector :: rest) before target) :
    (eraseNext session.swapActive state sector rest).Holds
      (HonestTarget.device session.swapActive) (Spared session (sector :: rest) before)
      (fun result last => ∀ run, result.1 = some run →
        1 ≤ run ∧ Blank session ((sector :: rest).take run) last) target := by
  have programmable := accepted.programmable sector List.mem_cons_self
  have one : Consecutive session (sector :: rest) (session.command sector) 1 :=
    consecutive_one sector rest
  have bounds : session.command sector < 0xA0A00000 := programmable.bounds.2
  have fits : session.command sector + eraseRunMax * flashSector ≤ 2 ^ 32 := by
    simp only [eraseRunMax, flashSector]
    omega
  unfold eraseNext
  extract_lets run
  have together : Consecutive session (sector :: rest) (session.command sector) run := by
    cases multi : state.multiErase with
    | true => simpa [run, multi, FlashSession.command] using consecutive_eraseRun fits rest
    | false => simpa [run, multi] using one
  refine (holds_eraseRange_run together state.errsr spared).bind
    fun result target₁ spared₁ erased₁ => ?_
  obtain ⟨isErased, errsr⟩ := result
  cases isErased with
  | true =>
      refine ⟨spared₁, fun run' some_eq => ?_⟩
      obtain rfl := Option.some.inj some_eq
      exact ⟨together.positive, erased₁ rfl⟩
  | false =>
      show Program.Holds _ _ _ (if 1 < run ∧ errsr &&& errsrSqer ≠ 0 then _ else _) _
      split
      · refine (holds_eraseRange_run one 0 spared₁).bind fun result target₂ spared₂ erased₂ => ?_
        obtain ⟨isErased, errsr'⟩ := result
        cases isErased with
        | true =>
            refine ⟨spared₂, fun run' some_eq => ?_⟩
            obtain rfl := Option.some.inj some_eq
            exact ⟨Nat.le_refl _, erased₂ rfl⟩
        | false => exact ⟨spared₂, fun _ impossible => by cases impossible⟩
      · exact ⟨spared₁, fun _ impossible => by cases impossible⟩

/-- `erase_sectors`: when it succeeds, the sectors are blank and all other cells as they
were. -/
theorem holds_eraseSectors_blank
    {sectors : List Word}
    {before : Nat → Byte}
    {target : HonestTarget}
    (accepted : Accepted session regions sectors)
    (state : EraseState)
    (spared : Spared session sectors before target) :
    (eraseSectors session.swapActive state sectors).Holds
      (HonestTarget.device session.swapActive) (Spared session sectors before)
      (fun result last => result.1 = .ok () → Blank session sectors last) target := by
  match sectors with
  | [] =>
      rw [eraseSectors]
      refine ⟨spared, fun _ command inNone => ?_⟩
      obtain ⟨sector, none, -⟩ := inNone
      exact absurd none List.not_mem_nil
  | sector :: rest =>
      rw [eraseSectors]
      refine (holds_eraseNext_blank accepted state spared).bind
        fun result target₁ spared₁ erased₁ => ?_
      obtain ⟨_ | run, state'⟩ := result
      · exact ⟨spared₁, fun impossible => by cases impossible⟩
      · obtain ⟨positive, blank₁⟩ := erased₁ run rfl
        have drop_eq : rest.drop (run - 1) = (sector :: rest).drop run := by
          obtain ⟨less, rfl⟩ : ∃ less, run = less + 1 := ⟨run - 1, by omega⟩
          rfl
        have others : Accepted session regions ((sector :: rest).drop run) :=
          accepted.sublist (List.drop_sublist _ _)
        show (eraseSectors session.swapActive state' (rest.drop (run - 1))).Holds _ _ _ _
        rw [drop_eq]
        -- what the later rounds change lies in the sectors that are left
        refine (holds_eraseSectors_blank others state' (fun _ _ => rfl)).mono
          (fun last kept command notIn => ?_) fun result last kept erased ok command inSectors => ?_
        · rw [kept command fun inLater => notIn (inSectors_mono (List.drop_subset _ _) inLater)]
          exact spared₁ command notIn
        · by_cases later : InSectors session ((sector :: rest).drop run) command
          · exact erased ok command later
          · rw [kept command later]
            refine blank₁ command ?_
            obtain ⟨found, member, inSector⟩ := inSectors
            rw [← List.take_append_drop run (sector :: rest)] at member
            rcases List.mem_append.mp member with first | left
            · exact ⟨found, first, inSector⟩
            · exact absurd ⟨found, left, inSector⟩ later
  termination_by sectors.length
  decreasing_by
    simp only [List.length_drop, List.length_cons]
    omega

end Flash
end TriCoreDap
