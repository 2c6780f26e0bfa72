import TriCoreDap.Flash.Interpreter

/-!
# The commands in a log

Which erase and program commands a log of bus operations holds, with the values
that were latched for them, and how a condition on all commands is kept while a
log grows.
-/

namespace TriCoreDap
namespace Flash

open Probe

/-- What an event leaves in a latch: a write that is not acknowledged leaves it
unknown. -/
def latchStep (addr : Nat) (latch : Option Word) : Event → Option Word
  | ⟨.write32 addr' value, acknowledged⟩ =>
      if addr' = addr then (if acknowledged = true then some value else none) else latch
  | _ => latch

/-- The value that was last latched at `addr`, where it is known. -/
def latched (addr : Nat) (log : List Event) : Option Word :=
  log.foldl (latchStep addr) none

/-- A command to the interpreter with the values latched for it, or one that the
RAM loader issues. -/
inductive Command
  | erase (addr count : Option Word)
  | program (addr : Option Word)
  | load (addr pages : Nat)
  deriving DecidableEq, Repr

/-- The command an operation starts, whatever its answer is: the last cycle of
an erase or program sequence, or a run of the loader that programs. -/
def commandOf (log : List Event) : Op → Option Command
  | .write32 addr value =>
      if addr = csiBase + cycleAAA8 then
        if value = cmdErase then
          some (.erase (latched (csiBase + cycleAA50) log)
            (latched (csiBase + cycleAA58) log))
        else if value = cmdProgram then
          some (.program (latched (csiBase + cycleAA50) log))
        else none
      else none
  | .runLoader .program addr pages _ => some (.load addr pages)
  | _ => none

@[simp] theorem latched_append (addr : Nat) (log : List Event) (event : Event) :
    latched addr (log ++ [event]) = latchStep addr (latched addr log) event := by
  rw [latched, List.foldl_append]
  rfl

theorem latched_append_write (log : List Event) (addr value : Nat) :
    latched addr (log ++ [⟨.write32 addr value, true⟩]) = some value := by
  rw [latched_append, latchStep, if_pos rfl, if_pos rfl]

theorem latched_append_other
    (log : List Event)
    (different : addr' ≠ addr)
    (value : Nat)
    (reply : Bool) :
    latched addr (log ++ [⟨.write32 addr' value, reply⟩]) = latched addr log := by
  rw [latched_append, latchStep, if_neg different]

theorem commandOf_erase (log : List Event) :
    commandOf log (.write32 (csiBase + cycleAAA8) cmdErase) =
      some (.erase (latched (csiBase + cycleAA50) log)
        (latched (csiBase + cycleAA58) log)) := by
  simp [commandOf]

theorem commandOf_program (log : List Event) :
    commandOf log (.write32 (csiBase + cycleAAA8) cmdProgram) =
      some (.program (latched (csiBase + cycleAA50) log)) := by
  simp [commandOf, show cmdProgram ≠ cmdErase by decide]

/-- An operation that starts no command. -/
def Calm (op : Op) : Prop :=
  ∀ log, commandOf log op = none

theorem calm_of_reading (reading : Reading op) : Calm op := by
  intro log
  cases op with
  | write32 _ _ => exact absurd reading id
  | runLoader _ _ _ _ => exact absurd reading id
  | _ => rfl

theorem calm_checksum (addr count timeoutMs : Nat) :
    Calm (.runLoader .checksum addr count timeoutMs) :=
  fun _ => rfl

theorem calm_cycle
    (addr value : Nat)
    (other : addr ≠ csiBase + cycleAAA8 ∨ value ≠ cmdErase ∧ value ≠ cmdProgram) :
    Calm (.write32 addr value) := by
  intro log
  rcases other with other | ⟨notErase, notProgram⟩
  · simp [commandOf, other]
  · simp [commandOf, notErase, notProgram]

/-- The cycles at other offsets start no command. -/
theorem calm_offset
    (value : Nat)
    (other : offset ≠ cycleAAA8) : Calm (.write32 (csiBase + offset) value) :=
  calm_cycle _ _ (Or.inl fun same => other (Nat.add_left_cancel same))

/-- Every command of a log was permitted by what had happened before it. -/
def Logged (permitted : List Event → Command → Prop) (log : List Event) : Prop :=
  ∀ before event after, log = before ++ event :: after →
    ∀ command, commandOf before event.1 = some command → permitted before command

variable {permitted : List Event → Command → Prop} {log : List Event}

theorem Logged.nil : Logged permitted [] := by
  intro before event after split
  simp at split

theorem Logged.append
    (logged : Logged permitted log)
    (event : Event)
    (allowed : ∀ command, commandOf log event.1 = some command →
      permitted log command) :
    Logged permitted (log ++ [event]) := by
  intro before first after split
  rcases List.eq_nil_or_concat after with rfl | ⟨rest, last, rfl⟩
  · obtain ⟨rfl, same⟩ := List.append_inj' split rfl
    obtain rfl := List.singleton_inj.mp same
    exact allowed
  · rw [List.concat_eq_append, ← List.cons_append, ← List.append_assoc] at split
    exact logged before first rest (List.append_inj' split rfl).1

theorem Logged.append_calm
    (logged : Logged permitted log)
    (event : Event)
    (calm : Calm event.1) :
    Logged permitted (log ++ [event]) :=
  logged.append event fun command some_eq => by
    rw [calm log] at some_eq
    exact nomatch some_eq

/-! ## Programs that start no command -/

theorem calm_clearStatus : Calm (.write32 (csiBase + cycle5554) cmdClearStatus) :=
  calm_offset _ (by decide)

/-- Operations on the status registers and on the cycle that starts no command. -/
def Serving : Op → Prop
  | .read32 addr => addr = dmuHfStatus ∨ addr = dmuHfErrsr ∨ addr = coreBase + offDbgsr
  | .write32 addr _ => addr = csiBase + cycle5554
  | .clearErrorState => True
  | .deadline _ => True
  | _ => False

theorem calm_of_serving (op : Op) (serving : Serving op) : Calm op := by
  cases op with
  | write32 addr value =>
      obtain rfl : addr = csiBase + cycle5554 := serving
      exact calm_offset _ (by decide)
  | writeBlock _ _ => exact absurd serving id
  | runLoader _ _ _ _ => exact absurd serving id
  | _ => exact calm_of_reading trivial

/-- The wait reads the status register and nothing else. -/
theorem uses_pollIdle {may : Op → Prop} (status : may (.read32 dmuHfStatus)) (more : Nat) :
    (pollIdle more).Uses may := by
  induction more with
  | zero => exact ⟨status, fun _ => trivial⟩
  | succ more inductionHypothesis =>
      refine ⟨status, fun reply => ?_⟩
      show (if statusIdle reply then _ else pollIdle more).Uses may
      split
      · trivial
      · exact inductionHypothesis

theorem serving_waitIdle (timeoutMs : Nat) : (waitIdle timeoutMs).Uses Serving := by
  refine ⟨trivial, fun more => ?_⟩
  show (pollIdle more >>= _).Uses Serving
  refine Program.uses_bind (uses_pollIdle (Or.inl rfl) more) fun isIdle => ?_
  cases isIdle with
  | false => trivial
  | true =>
      refine ⟨Or.inr (Or.inl rfl), fun errsr => ⟨rfl, fun _ => ?_⟩⟩
      cases errsr <;> trivial

theorem uses_clearStatus : clearStatus.Uses Calm :=
  ⟨calm_clearStatus, fun _ => trivial⟩

/-! ## Sequences of cycles -/

/-- The device acknowledged the writes one after the other. -/
def Acked (device : Device Op Reply σ) : List (Nat × Nat) → σ → σ → Prop
  | [], state, last => last = state
  | (addr, value) :: rest, state, last =>
      ∃ mid, device (.write32 addr value) state true mid ∧ Acked device rest mid last

/-- A sequence of writes whose last one is the only one that matters. -/
theorem holds_writes
    {device : Device Op Reply σ}
    {inv : σ → Prop}
    {post : Bool → σ → Prop}
    (kept : σ → Prop)
    (setup : List (Nat × Nat))
    (addr value : Nat)
    (keeps : ∀ pair ∈ setup, ∀ state reply state', kept state →
      device (.write32 pair.1 pair.2) state reply state' → kept state')
    (weaken : ∀ state, kept state → inv state)
    (broken : ∀ state', kept state' → post false state')
    (final : ∀ last reply state', Acked device setup state last → kept last →
      device (.write32 addr value) last reply state' →
        inv state' ∧ post reply state')
    (start : kept state) :
    (writes (setup ++ [(addr, value)])).Holds device inv post state := by
  induction setup generalizing state with
  | nil =>
      refine ⟨weaken _ start, fun reply state' step => ?_⟩
      obtain ⟨invAfter, postAfter⟩ := final state reply state' rfl start step
      cases reply
      · exact ⟨invAfter, postAfter⟩
      · exact ⟨invAfter, postAfter⟩
  | cons pair rest inductionHypothesis =>
      refine ⟨weaken _ start, fun reply state' step => ?_⟩
      have after := keeps pair List.mem_cons_self _ _ _ start step
      cases reply with
      | false => exact ⟨weaken _ after, broken _ after⟩
      | true =>
          refine inductionHypothesis
            (fun next member => keeps next (List.mem_cons_of_mem _ member)) ?_ after
          intro last reply state'' acked
          exact final last reply state'' ⟨state', step, acked⟩

end Flash
end TriCoreDap
