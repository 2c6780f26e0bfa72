import TriCoreDap.Flash.Log
import TriCoreDap.Library.Memory
import TriCoreDap.Ucb.Catalogue

/-!
# A target whose commands may fail

The target latches the cycles it is sent.  An erase or program command either
takes effect or fails; a failed one leaves anything in the bytes it was about
and an error that no read of `ERRSR` hides, so that a command reported as
successful took effect.  A write that is not acknowledged may have been seen or
not, and reads answer anything.
-/

namespace TriCoreDap
namespace Ucb

open Probe Flash

/-- The target, with whether an erase has succeeded and what was done to it. -/
structure Target where
  memory : Nat → Byte
  address : Word
  count : Word
  load0 : Word
  load1 : Word
  failed : Bool
  erased : Bool
  log : List Event

/-- The range of the page filled with the two words loaded. -/
def fillPage (start load0 load1 : Nat) (memory : Nat → Byte) (addr : Nat) : Byte :=
  if start ≤ addr ∧ addr < start + 4 then byteOf load0 (addr - start)
  else if start ≤ addr ∧ addr < start + 8 then byteOf load1 (addr - (start + 4))
  else memory addr

namespace Target

/-- A cycle that starts no command. -/
def latch (target : Target) (addr value : Word) : Target :=
  if addr = csiBase + cycleAA50 then { target with address := value }
  else if addr = csiBase + cycleAA58 then { target with count := value }
  else if addr = csiBase + cycle55F0 then { target with load0 := value }
  else if addr = csiBase + cycle55F4 then { target with load1 := value }
  else if addr = csiBase + cycle5554 ∧ value = cmdClearStatus then
    { target with failed := false }
  else target

/-- What a cycle that the target sees may do. -/
inductive Took (target : Target) : Word → Word → Target → Prop
  | latch (calm : Calm (.write32 addr value)) :
      Took target addr value (target.latch addr value)
  | eraseDone :
      Took target (csiBase + cycleAAA8) cmdErase
        { target with
          memory := fill target.address (ucbSize * target.count) erasedByte target.memory
          erased := true }
  | eraseFailed
      (same : SameOutside target.address (ucbSize * target.count) target.memory contents) :
      Took target (csiBase + cycleAAA8) cmdErase
        { target with memory := contents, failed := true }
  | programDone :
      Took target (csiBase + cycleAAA8) cmdProgram
        { target with
          memory := fillPage target.address target.load0 target.load1 target.memory }
  | programFailed
      (same : SameOutside target.address 8 target.memory contents) :
      Took target (csiBase + cycleAAA8) cmdProgram
        { target with memory := contents, failed := true }

/-- An operation and its answer are over. -/
def logged (target : Target) (event : Event) : Target :=
  { target with log := target.log ++ [event] }

/-- A read of `ERRSR` after a failure reports one. -/
def Reports (target : Target) : (op : Op) → Reply op → Prop
  | .read32 addr, reply =>
      addr = dmuHfErrsr → target.failed = true →
        ∃ errsr, reply = some errsr ∧ errsr &&& errsrFailed ≠ 0
  | _, _ => True

/-- What the target may do on an operation, before it is logged. -/
def Acts (target : Target) : (op : Op) → Reply op → Target → Prop
  | .write32 addr value, reply, after =>
      target.Took addr value after ∨ reply = false ∧ after = target
  | op, reply, after => after = target ∧ target.Reports op reply

/-- How the target may answer an operation. -/
def device : Device Op Reply Target :=
  fun op target reply target' =>
    ∃ after, target.Acts op reply after ∧ target' = after.logged ⟨op, reply⟩

variable {target target' after : Target}

@[simp] theorem latch_memory : (target.latch addr value).memory = target.memory := by
  simp only [latch]
  split_ifs <;> rfl

@[simp] theorem latch_erased : (target.latch addr value).erased = target.erased := by
  simp only [latch]
  split_ifs <;> rfl

@[simp] theorem latch_log : (target.latch addr value).log = target.log := by
  simp only [latch]
  split_ifs <;> rfl

@[simp] theorem logged_log (event : Event) :
    (target.logged event).log = target.log ++ [event] := rfl

theorem Took.calm
    (took : target.Took addr value after)
    (calm : Calm (.write32 addr value)) : after = target.latch addr value := by
  have noErase : commandOf [] (.write32 addr value) = none := calm []
  cases took with
  | latch _ => rfl
  | eraseDone => exact absurd noErase (by simp [commandOf_erase])
  | eraseFailed _ => exact absurd noErase (by simp [commandOf_erase])
  | programDone => exact absurd noErase (by simp [commandOf_program])
  | programFailed _ => exact absurd noErase (by simp [commandOf_program])

/-- What an erase command does. -/
theorem Took.erase (took : target.Took (csiBase + cycleAAA8) cmdErase after) :
    after = { target with
        memory := fill target.address (ucbSize * target.count) erasedByte target.memory
        erased := true } ∨
      ∃ contents,
        SameOutside target.address (ucbSize * target.count) target.memory contents ∧
          after = { target with memory := contents, failed := true } := by
  generalize value_eq : cmdErase = value at took
  cases took with
  | latch calm =>
      subst value_eq
      exact absurd (calm []) (by simp [commandOf_erase])
  | eraseDone => exact Or.inl rfl
  | eraseFailed same => exact Or.inr ⟨_, same, rfl⟩
  | programDone => exact absurd value_eq (by decide)
  | programFailed same => exact absurd value_eq (by decide)

/-- What a program command does. -/
theorem Took.program (took : target.Took (csiBase + cycleAAA8) cmdProgram after) :
    after = { target with
        memory := fillPage target.address target.load0 target.load1 target.memory } ∨
      ∃ contents, SameOutside target.address 8 target.memory contents ∧
        after = { target with memory := contents, failed := true } := by
  generalize value_eq : cmdProgram = value at took
  cases took with
  | latch calm =>
      subst value_eq
      exact absurd (calm []) (by simp [commandOf_program])
  | eraseDone => exact absurd value_eq (by decide)
  | eraseFailed same => exact absurd value_eq (by decide)
  | programDone => exact Or.inl rfl
  | programFailed same => exact Or.inr ⟨_, same, rfl⟩

/-- What calm operations leave alone: the contents and whether they were erased. -/
structure Unaffected (target target' : Target) (event : Event) : Prop where
  memory : target'.memory = target.memory
  erased : target'.erased = target.erased
  log : target'.log = target.log ++ [event]

theorem unaffected_of_calm
    (step : device op target reply target')
    (calm : Calm op) : Unaffected target target' ⟨op, reply⟩ := by
  obtain ⟨after, acts, rfl⟩ := step
  cases op with
  | write32 addr value =>
      rcases acts with took | ⟨-, rfl⟩
      · obtain rfl := took.calm calm
        exact ⟨latch_memory, latch_erased, by simp⟩
      · exact ⟨rfl, rfl, rfl⟩
  | read32 _ => obtain ⟨rfl, -⟩ := acts; exact ⟨rfl, rfl, rfl⟩
  | clearErrorState => obtain ⟨rfl, -⟩ := acts; exact ⟨rfl, rfl, rfl⟩
  | deadline _ => obtain ⟨rfl, -⟩ := acts; exact ⟨rfl, rfl, rfl⟩
  | writeBlock _ _ => obtain ⟨rfl, -⟩ := acts; exact ⟨rfl, rfl, rfl⟩
  | runLoader _ _ _ _ => obtain ⟨rfl, -⟩ := acts; exact ⟨rfl, rfl, rfl⟩

/-- Reading changes nothing but the log. -/
theorem eq_logged_of_reading
    (step : device op target reply target')
    (reading : Reading op) :
    target' = target.logged ⟨op, reply⟩ ∧ target.Reports op reply := by
  obtain ⟨after, acts, rfl⟩ := step
  cases op with
  | read32 _ => obtain ⟨rfl, reports⟩ := acts; exact ⟨rfl, reports⟩
  | clearErrorState => obtain ⟨rfl, reports⟩ := acts; exact ⟨rfl, reports⟩
  | deadline _ => obtain ⟨rfl, reports⟩ := acts; exact ⟨rfl, reports⟩
  | write32 _ _ => exact absurd reading id
  | writeBlock _ _ => exact absurd reading id
  | runLoader _ _ _ _ => exact absurd reading id

theorem device_log (step : device op target reply target') :
    target'.log = target.log ++ [⟨op, reply⟩] := by
  obtain ⟨after, acts, rfl⟩ := step
  have same : after.log = target.log := by
    cases op with
    | write32 addr value =>
        rcases acts with took | ⟨-, rfl⟩
        · cases took <;> simp
        · rfl
    | _ => obtain ⟨rfl, -⟩ := acts; rfl
  rw [logged_log, same]

/-- An acknowledged cycle that starts no command is latched. -/
theorem eq_latch_of_acked
    (step : device (.write32 addr value) target true target')
    (calm : Calm (.write32 addr value)) :
    target' = (target.latch addr value).logged ⟨.write32 addr value, true⟩ := by
  obtain ⟨after, took | ⟨impossible, -⟩, rfl⟩ := step
  · rw [took.calm calm]
  · exact nomatch impossible

/-- Cycles that are all seen. -/
def latchAll (target : Target) (setup : List (Word × Word)) : Target :=
  setup.foldl (fun target pair =>
    (target.latch pair.1 pair.2).logged ⟨.write32 pair.1 pair.2, true⟩) target

theorem eq_latchAll_of_acked
    (calm : ∀ pair ∈ setup, Calm (.write32 pair.1 pair.2))
    (acked : Acked device setup target target') :
    target' = target.latchAll setup := by
  induction setup generalizing target with
  | nil => exact acked
  | cons pair rest inductionHypothesis =>
      obtain ⟨mid, step, acked⟩ := acked
      rw [inductionHypothesis (fun next member => calm next (List.mem_cons_of_mem _ member))
        acked, eq_latch_of_acked step (calm pair List.mem_cons_self)]
      rfl

/-- The log of acknowledged cycles. -/
theorem acked_logging
    (acked : Acked device setup target target') :
    Acked logging setup target.log target'.log := by
  induction setup generalizing target with
  | nil => exact congrArg Target.log acked
  | cons pair rest inductionHypothesis =>
      obtain ⟨mid, step, acked⟩ := acked
      exact ⟨_, device_log step, inductionHypothesis acked⟩

/-! ## Waiting for a command -/

/-- A property of the contents, of the erase and of the log that operations
which start no command keep. -/
def KeptByCalm (property : Target → Prop) : Prop :=
  ∀ op target reply target', Calm op → property target →
    device op target reply target' → property target'

variable {weak good : Target → Prop}

theorem holds_of_calm
    {program : Run α}
    (kept : KeptByCalm weak)
    (uses : program.Uses Calm)
    (start : weak target) :
    program.Holds device weak (fun _ _ => True) target :=
  Program.holds_of_uses kept uses start

/-- A failure stays latched while it is only read. -/
def Pending (good : Target → Prop) (target : Target) : Prop :=
  target.failed = true ∨ good target

theorem Pending.reading
    (keptGood : KeptByCalm good)
    (reading : Reading op)
    (pending : Pending good target)
    (step : device op target reply target') : Pending good target' := by
  rcases pending with failed | good
  · rw [(eq_logged_of_reading step reading).1]
    exact Or.inl failed
  · exact Or.inr (keptGood _ _ _ _ (calm_of_reading reading) good step)

theorem holds_pollIdle
    (keptWeak : KeptByCalm weak)
    (keptGood : KeptByCalm good)
    (more : Nat)
    (start : weak target)
    (pending : Pending good target) :
    (pollIdle more).Holds device weak (fun _ => Pending good) target := by
  have calm : Calm (.read32 dmuHfStatus) := calm_of_reading trivial
  induction more generalizing target with
  | zero =>
      refine ⟨start, fun reply target' step => ⟨?_, ?_⟩⟩
      · exact keptWeak _ _ _ _ calm start step
      · exact pending.reading keptGood (reading_read32 _) step
  | succ more inductionHypothesis =>
      refine ⟨start, fun reply target' step => ?_⟩
      have start' := keptWeak _ _ _ _ calm start step
      have pending' := pending.reading keptGood (reading_read32 _) step
      show Program.Holds _ _ _ (if statusIdle reply then _ else pollIdle more) _
      split
      · exact ⟨start', pending'⟩
      · exact inductionHypothesis start' pending'

/-- A command that `wait_idle` reports as successful took effect. -/
theorem holds_waitIdle
    (keptWeak : KeptByCalm weak)
    (keptGood : KeptByCalm good)
    (timeoutMs : Nat)
    (start : weak target)
    (pending : Pending good target) :
    (waitIdle timeoutMs).Holds device weak
      (fun result target' => result = .idle → good target') target := by
  refine ⟨start, fun more target₁ step₁ => ?_⟩
  have start₁ := keptWeak _ _ _ _ (calm_of_reading (reading_deadline _)) start step₁
  have pending₁ := pending.reading keptGood (reading_deadline _) step₁
  refine (holds_pollIdle keptWeak keptGood more start₁ pending₁).bind
    fun isIdle target₂ start₂ pending₂ => ?_
  cases isIdle with
  | false => exact ⟨start₂, fun timeout => nomatch timeout⟩
  | true =>
      refine ⟨start₂, fun errsr target₃ step₃ => ?_⟩
      have start₃ := keptWeak _ _ _ _ (calm_of_reading (reading_read32 _)) start₂ step₃
      refine ⟨start₃, fun cleared target₄ step₄ => ?_⟩
      have start₄ := keptWeak _ _ _ _ calm_clearStatus start₃ step₄
      rcases pending₂ with failed | good₂
      · obtain ⟨word, rfl, error⟩ :=
          (eq_logged_of_reading step₃ (reading_read32 _)).2 rfl failed
        refine ⟨start₄, fun idle => ?_⟩
        rw [if_neg error] at idle
        exact nomatch idle
      · have good₃ := keptGood _ _ _ _ (calm_of_reading (reading_read32 _)) good₂ step₃
        have good₄ := keptGood _ _ _ _ calm_clearStatus good₃ step₄
        cases errsr with
        | none => exact ⟨start₄, fun _ => good₄⟩
        | some word => exact ⟨start₄, fun _ => good₄⟩

end Target
end Ucb
end TriCoreDap
