import Mathlib.Data.Set.Insert
import TriCoreDap.Debug.Requests
import TriCoreDap.Library.Lists

/-!
# Stepping one instruction

`tricore_step`: the successors of the instruction at the program counter, the
step's own triggers on them, and the trigger at the program counter that is
lifted for the step.
-/

namespace TriCoreDap
namespace Debug

/-! ## Decoding the successors -/

/-- The 32-bit B format. -/
def isBFormat (op : Nat) : Bool :=
  op = 0x1D ∨ op = 0x5D ∨ op = 0x6D ∨ op = 0x61

/-- The 32-bit BRC, BRR and BRN formats. -/
def isDisp15 (op : Nat) : Bool :=
  [0x1F, 0x3F, 0x5F, 0x7F, 0x9F, 0xBF, 0xDF, 0xEF, 0xFF, 0x6F].contains op

/-- The 16-bit SB format. -/
def isSb (op : Nat) : Bool :=
  [0x3C, 0xEE, 0xF6, 0x6E, 0x76, 0x5C].contains op

/-- The 16-bit SBR format. -/
def isSbr (op : Nat) : Bool :=
  [0x3E, 0xBE, 0x7E, 0xFE, 0xF2, 0x7C].contains op

/-- `sign_extend`, in two's complement. -/
def signExtend (value bits : Nat) : Nat :=
  let sign := 1 <<< (bits - 1)
  sub32 (value ^^^ sign) sign

/-- The address a number of halfwords from the program counter. -/
def relative (pc value bits : Nat) : Nat :=
  u32 (pc + signExtend value bits * 2)

/-- `decode_successors`: the fall-through and the branch target where it can be
decoded, `readA` being `tricore_read_a`. -/
def decodeSuccessors (readA : Nat → Option Nat) (pc : Nat) (raw : List Byte) :
    Nat × Option Nat :=
  let op := (raw.getD 0 0).toNat
  let width := if op &&& 1 ≠ 0 then 4 else 2
  let target :=
    if width = 4 then
      let insn := le32 raw 0
      if isBFormat op then
        some (relative pc ((((insn >>> 8) &&& 0xFF) <<< 16) ||| ((insn >>> 16) &&& 0xFFFF)) 24)
      else if isDisp15 op then some (relative pc ((insn >>> 16) &&& 0x7FFF) 15)
      else if op = 0x2D then readA ((insn >>> 8) &&& 0xF)
      else none
    else
      let insn16 := le16 raw 0
      if isSb op then some (relative pc ((insn16 >>> 8) &&& 0xFF) 8)
      else if isSbr op then some (u32 (pc + ((insn16 >>> 12) &&& 0xF) * 2))
      else if op = 0xDC then readA ((insn16 >>> 12) &&& 0xF)
      else if op = 0 ∧ (insn16 >>> 8) &&& 0xFF = 0x90 then readA 11
      else none
  (u32 (pc + width), target)

/-! ## The step -/

/-- What the core and the bus answer during a step. -/
structure StepWorld where
  /-- The core was discovered and there is room for the result. -/
  argsOk : Bool
  /-- `tricore_read_pc` before the step. -/
  pc : Option Nat
  /-- `tricore_read_mem` at the program counter. -/
  raw : Option (List Byte)
  readA : Nat → Option Nat
  clearing : Nat → Nat → WriteOutcome
  lifting : Nat → WriteOutcome
  armingFall : Nat → WriteOutcome
  armingTarget : Nat → WriteOutcome
  /-- `tricore_wait_halted`. -/
  stopped : Bool
  /-- `tricore_halt`. -/
  halts : Bool
  clearingAfter : Nat → Nat → WriteOutcome
  restoring : Nat → WriteOutcome
  /-- `tricore_read_pc` after the step. -/
  landed : Option Nat

/-- What `tricore_step` returns; `running` is what `tricore_read_pc` failed with. -/
inductive StepErr
  | ok
  | invalidArg
  | running
  | invalidState
  | timeout
  deriving DecidableEq, Repr

/-- `tricore_step_t`. -/
structure StepOut where
  pc : Nat
  clean : Bool
  hitUserBp : Bool
  note : String
  deriving DecidableEq, Repr

namespace Debugger

/-- A trigger is cleared and its slot freed if it is of the kind. -/
def clearSlot
    (debugger : Debugger)
    (kind : BpKind)
    (outcomes : Nat → Nat → WriteOutcome)
    (n : Nat) : Debugger :=
  if (debugger.table n).kind = kind then
    { debugger with
      triggers := debugger.triggers.clearTrigger (outcomes n) n
      table := Function.update debugger.table n .free }
  else debugger

/-- `tricore_bp_clear_kind`. -/
@[irreducible] def bpClearKind
    (debugger : Debugger)
    (outcomes : Nat → Nat → WriteOutcome)
    (kind : BpKind) : Debugger :=
  (List.range numTriggers).foldl (fun debugger n => debugger.clearSlot kind outcomes n)
    debugger

/-- `tricore_bp_at`. -/
def bpAt (debugger : Debugger) (addr : Nat) : Option Bp :=
  (debugger.slotOfAddr addr).map debugger.table

/-- The trigger at the program counter is lifted for the step. -/
def liftAt (debugger : Debugger) (outcomes : Nat → WriteOutcome) (pc : Nat) :
    Option Bp × Debugger :=
  match debugger.bpAt pc with
  | none => (none, debugger)
  | some here =>
      if here.kind ≠ .step then (some here, (debugger.bpRemove outcomes pc).2)
      else (none, debugger)

/-- The step's own triggers are set, on the fall-through and on another target. -/
def armStep
    (debugger : Debugger)
    (world : StepWorld)
    (fallThrough : Nat)
    (target : Option Nat) : String × Debugger :=
  let (armedFall, debugger) := debugger.bpAdd world.armingFall fallThrough .step
  let (missed, debugger) :=
    match target with
    | none => (false, debugger)
    | some target =>
        if target ≠ fallThrough then
          let (armedTarget, debugger) := debugger.bpAdd world.armingTarget target .step
          (armedTarget.isNone, debugger)
        else (false, debugger)
  (if armedFall.isNone || missed then "out of triggers; the stop may be imprecise" else "",
    debugger)

/-- The trigger that was lifted is set again. -/
def restore (debugger : Debugger) (outcomes : Nat → WriteOutcome) :
    (evicted : Option Bp) → Debugger
  | none => debugger
  | some evicted => (debugger.bpAdd outcomes evicted.addr evicted.kind).2

/-- `tricore_step` once the instruction is read. -/
def stepFrom (debugger : Debugger) (world : StepWorld) (pc : Nat) (raw : List Byte) :
    StepErr × StepOut × Debugger :=
  let (fallThrough, target) := decodeSuccessors world.readA pc raw
  let debugger := debugger.bpClearKind world.clearing .step
  let (evicted, debugger) := debugger.liftAt world.lifting pc
  let (note, debugger) := debugger.armStep world fallThrough target
  if !world.stopped && !world.halts then
    (.timeout, ⟨0, false, false, "the core could not be stopped"⟩,
      debugger.bpClearKind world.clearingAfter .step)
  else
    let debugger := debugger.bpClearKind world.clearingAfter .step
    let debugger := debugger.restore world.restoring evicted
    let landed := world.landed.getD pc
    (.ok,
      { pc := landed
        clean := world.stopped
        hitUserBp := (debugger.bpAt landed).any (·.kind = .user)
        note := if world.stopped then note else "no successor was reached; forced a halt" },
      debugger)

end Debugger

/-- `tricore_step`. -/
def tricoreStep (debugger : Debugger) (world : StepWorld) : StepErr × StepOut × Debugger :=
  if !world.argsOk then (.invalidArg, ⟨0, false, false, ""⟩, debugger)
  else
    match world.pc with
    | none => (.running, ⟨0, false, false, "the core is running"⟩, debugger)
    | some pc =>
        match world.raw with
        | none =>
            (.invalidState, ⟨pc, false, false, "could not read the instruction"⟩, debugger)
        | some raw => debugger.stepFrom world pc raw

/-! ## The user's triggers -/

/-- The slot is in use, and not for a step. -/
def Bp.IsUser (bp : Bp) : Prop := bp.kind ≠ .free ∧ bp.kind ≠ .step

instance (bp : Bp) : Decidable bp.IsUser := inferInstanceAs (Decidable (_ ∧ _))

namespace Debugger

/-- The triggers that are not a step's own, with all that the table says of them. -/
def users (debugger : Debugger) : Set Bp :=
  {bp | bp.IsUser ∧ ∃ slot < numTriggers, debugger.table slot = bp}

/-- The trigger that a step lifts: the first one at the program counter. -/
def liftedSlot (debugger : Debugger) (pc : Nat) : Option Nat :=
  (List.range numTriggers).find? fun n =>
    (debugger.table n).IsUser ∧ (debugger.table n).addr = pc

/-- The slots that lifting a trigger frees: its own, and the next one for a range. -/
def Taken (debugger : Debugger) (slot other : Nat) : Prop :=
  other = slot ∨
    other = slot + 1 ∧ (debugger.table slot).kind = .watch ∧ (debugger.table slot).size > 1

/-- The lifted trigger has neither a size nor an access type, it is the only one at
the program counter, the core stops, and the registers can be written again. -/
structure Restorable (debugger : Debugger) (world : StepWorld) (pc slot : Nat) : Prop where
  size : (debugger.table slot).size = 0
  onRead : (debugger.table slot).onRead = false
  onWrite : (debugger.table slot).onWrite = false
  stops : world.stopped = true ∨ world.halts = true
  only : ∀ other < numTriggers, (debugger.table other).IsUser →
    (debugger.table other).addr = pc → other = slot
  address : (world.restoring 0).isOk = true
  event : (world.restoring 1).isOk = true

/-- What is lifted stands in other slots as well. -/
def Twinned (debugger : Debugger) (slot : Nat) : Prop :=
  ∀ taken < numTriggers, debugger.Taken slot taken → (debugger.table taken).IsUser →
    ∃ other < numTriggers, ¬debugger.Taken slot other ∧
      debugger.table other = debugger.table taken

/-- Whatever the step lifts can be restored or stands elsewhere. -/
def StepKeeps (debugger : Debugger) (world : StepWorld) : Prop :=
  ∀ pc raw slot, world.argsOk = true → world.pc = some pc → world.raw = some raw →
    debugger.liftedSlot pc = some slot →
      debugger.Restorable world pc slot ∨ debugger.Twinned slot

end Debugger

variable {debugger debugger' : Debugger} {outcomes : Nat → WriteOutcome}
  {clearing : Nat → Nat → WriteOutcome} {kind : BpKind} {addr pc slot : Nat} {world : StepWorld}

/-! ## Clearing a kind -/

theorem Bp.free_not_step : Bp.free.kind ≠ .step := by
  decide

theorem Debugger.table_clearSlot (n : Nat) :
    (debugger.clearSlot kind clearing n).table slot =
      if slot = n ∧ (debugger.table slot).kind = kind then .free else debugger.table slot := by
  unfold clearSlot
  split
  · next same =>
      rcases eq_or_ne slot n with rfl | other
      · rw [if_pos ⟨rfl, same⟩]
        exact Function.update_self ..
      · rw [if_neg fun both => other both.1]
        exact Function.update_of_ne other ..
  · next different =>
      refine (if_neg ?_).symm
      rintro ⟨rfl, same⟩
      exact different same

theorem Debugger.table_clearSlots (count : Nat) :
    ((List.range count).foldl (fun debugger n => debugger.clearSlot kind clearing n)
      debugger).table slot =
      if slot < count ∧ (debugger.table slot).kind = kind then .free
      else debugger.table slot := by
  induction count with
  | zero => simp
  | succ count inductionHypothesis =>
      rw [List.range_succ, List.foldl_append, List.foldl_cons, List.foldl_nil,
        table_clearSlot, inductionHypothesis]
      rcases eq_or_ne slot count with rfl | other
      · simp
      · have below : slot < count + 1 ↔ slot < count := by omega
        simp [below, other]

/-- What `tricore_bp_clear_kind` leaves in a slot. -/
theorem Debugger.table_bpClearKind (inside : slot < numTriggers) :
    (debugger.bpClearKind clearing kind).table slot =
      if (debugger.table slot).kind = kind then .free else debugger.table slot := by
  rw [bpClearKind, table_clearSlots]
  simp [inside]

/-- Clearing the step's triggers leaves a user's slot as it is. -/
theorem Debugger.bpClearKind_user
    (inside : slot < numTriggers)
    (isUser : (debugger.table slot).IsUser) :
    (debugger.bpClearKind clearing .step).table slot = debugger.table slot := by
  rw [table_bpClearKind inside, if_neg isUser.2]

theorem Debugger.isUser_bpClearKind (inside : slot < numTriggers) :
    ((debugger.bpClearKind clearing .step).table slot).IsUser ↔
      (debugger.table slot).IsUser := by
  rw [table_bpClearKind inside]
  split
  · next step =>
      refine iff_of_false (fun isUser => isUser.1 rfl) fun isUser => isUser.2 step
  · exact Iff.rfl

/-- After a clearing there is none of the kind. -/
theorem Debugger.isUser_of_cleared
    (inside : slot < numTriggers)
    (used : ((debugger.bpClearKind clearing .step).table slot).kind ≠ .free) :
    ((debugger.bpClearKind clearing .step).table slot).IsUser := by
  refine ⟨used, ?_⟩
  rw [table_bpClearKind inside] at used ⊢
  split
  · exact Bp.free_not_step
  · assumption

theorem Debugger.mem_users :
    bp ∈ debugger.users ↔ bp.IsUser ∧ ∃ slot < numTriggers, debugger.table slot = bp :=
  Iff.rfl

theorem Debugger.table_mem_users
    (inside : slot < numTriggers)
    (isUser : (debugger.table slot).IsUser) : debugger.table slot ∈ debugger.users :=
  ⟨isUser, slot, inside, rfl⟩

/-- Tables with the same slots in use for the user. -/
theorem Debugger.users_eq_of_slots
    (same : ∀ slot < numTriggers,
      ((debugger.table slot).IsUser ∨ (debugger'.table slot).IsUser) →
        debugger.table slot = debugger'.table slot) : debugger.users = debugger'.users := by
  ext bp
  simp only [mem_users]
  refine and_congr_right fun isUser => ⟨?_, ?_⟩
  · rintro ⟨slot, inside, rfl⟩
    exact ⟨slot, inside, (same slot inside (Or.inl isUser)).symm⟩
  · rintro ⟨slot, inside, rfl⟩
    exact ⟨slot, inside, same slot inside (Or.inr isUser)⟩

theorem Debugger.users_bpClearKind :
    (debugger.bpClearKind clearing .step).users = debugger.users := by
  refine users_eq_of_slots fun slot inside isUser => ?_
  rw [isUser_bpClearKind inside, or_self] at isUser
  exact bpClearKind_user inside isUser

/-! ## The step's own triggers -/

/-- The table differs in slots only that were free and are the step's now. -/
structure Debugger.Lent (debugger debugger' : Debugger) : Prop where
  lent : ∀ slot < numTriggers, debugger'.table slot = debugger.table slot ∨
    (debugger.table slot).kind = .free ∧ (debugger'.table slot).kind = .step

theorem Debugger.Lent.trans
    {last : Debugger}
    (first : debugger.Lent debugger')
    (second : debugger'.Lent last) : debugger.Lent last where
  lent slot inside := by
    rcases first.lent slot inside with same | ⟨free, step⟩
    · rw [← same]
      exact second.lent slot inside
    · rcases second.lent slot inside with same | ⟨free', -⟩
      · exact Or.inr ⟨free, same ▸ step⟩
      · exact nomatch step.symm.trans free'

/-- What `tricore_bp_add` does to the table. -/
theorem Debugger.bpAdd_table (debugger : Debugger) (outcomes : Nat → WriteOutcome)
    (addr : Nat) (kind : BpKind) :
    (debugger.bpAdd outcomes addr kind).2.table = debugger.table ∨
      ∃ slot < numTriggers, (debugger.table slot).kind = .free ∧
        (debugger.bpAdd outcomes addr kind).2.table =
          Function.update debugger.table slot ⟨addr, 0, kind, false, false⟩ := by
  unfold bpAdd
  split
  · exact Or.inl rfl
  · split
    · exact Or.inl rfl
    · next slot found =>
        obtain ⟨inside, free⟩ := freeSlot_some found
        simp only
        split
        · exact Or.inl rfl
        · exact Or.inr ⟨slot, inside, free, rfl⟩

theorem Debugger.lent_bpAdd :
    debugger.Lent (debugger.bpAdd outcomes addr .step).2 where
  lent other inside := by
    rcases debugger.bpAdd_table outcomes addr .step with same | ⟨slot, -, free, changed⟩
    · exact Or.inl (congrFun same other)
    · rw [changed]
      rcases eq_or_ne other slot with rfl | different
      · rw [Function.update_self]
        exact Or.inr ⟨free, rfl⟩
      · rw [Function.update_of_ne different]
        exact Or.inl rfl

theorem Debugger.lent_armStep (fallThrough : Nat) (target : Option Nat) :
    debugger.Lent (debugger.armStep world fallThrough target).2 := by
  have first : debugger.Lent (debugger.bpAdd world.armingFall fallThrough .step).2 :=
    lent_bpAdd
  unfold armStep
  cases target with
  | none => exact first
  | some target =>
      by_cases other : target ≠ fallThrough
      · simp only [if_pos other]
        exact first.trans lent_bpAdd
      · simp only [if_neg other]
        exact first

/-- What is lent is given back when the step's triggers are cleared. -/
theorem Debugger.Lent.bpClearKind
    (lent : debugger.Lent debugger')
    (noStep : ∀ slot < numTriggers, (debugger.table slot).kind ≠ .step)
    (inside : slot < numTriggers) :
    ((debugger'.bpClearKind clearing .step).table slot) = debugger.table slot ∨
      (debugger.table slot).kind = .free ∧
        ((debugger'.bpClearKind clearing .step).table slot).kind = .free := by
  rw [table_bpClearKind inside]
  rcases lent.lent slot inside with same | ⟨free, step⟩
  · rw [same, if_neg (noStep slot inside)]
    exact Or.inl rfl
  · rw [if_pos step]
    exact Or.inr ⟨free, rfl⟩

/-! ## Lifting the trigger at the program counter -/

/-- With the step's triggers cleared, the first trigger at an address is the user's. -/
theorem Debugger.slotOfAddr_bpClearKind :
    (debugger.bpClearKind clearing .step).slotOfAddr pc = debugger.liftedSlot pc := by
  unfold slotOfAddr liftedSlot
  refine find?_congr fun slot member => decide_eq_decide.mpr ?_
  have inside := List.mem_range.mp member
  constructor
  · rintro ⟨used, here⟩
    have isUser := (isUser_bpClearKind inside).mp (isUser_of_cleared inside used)
    exact ⟨isUser, bpClearKind_user inside isUser ▸ here⟩
  · rintro ⟨isUser, here⟩
    rw [bpClearKind_user inside isUser]
    exact ⟨isUser.1, here⟩

theorem Debugger.liftedSlot_some (found : debugger.liftedSlot pc = some slot) :
    slot < numTriggers ∧ (debugger.table slot).IsUser ∧ (debugger.table slot).addr = pc := by
  rw [liftedSlot, List.find?_range_eq_some] at found
  exact ⟨List.mem_range.mp found.2.1, of_decide_eq_true found.1⟩

instance (debugger : Debugger) (slot other : Nat) : Decidable (debugger.Taken slot other) :=
  inferInstanceAs (Decidable (_ ∨ _))

/-- What `tricore_bp_remove` leaves in the table. -/
theorem Debugger.table_bpRemove
    (found : debugger.slotOfAddr addr = some slot)
    (inside : other < numTriggers) :
    (debugger.bpRemove outcomes addr).2.table other =
      if debugger.Taken slot other then .free else debugger.table other := by
  unfold bpRemove
  simp only [found]
  split
  · next both =>
      simp only [Taken, both.1, and_self, and_true]
      rcases eq_or_ne other (slot + 1) with rfl | different
      · simp
      · rw [Function.update_of_ne different]
        rcases eq_or_ne other slot with rfl | elsewhere
        · simp
        · rw [Function.update_of_ne elsewhere, if_neg (by simp [elsewhere, different])]
  · next single =>
      rcases eq_or_ne other slot with rfl | elsewhere
      · simp [Taken]
      · simp only [Function.update_of_ne elsewhere]
        refine (if_neg ?_).symm
        rintro (same | ⟨rfl, pair⟩)
        · exact elsewhere same
        · exact single ⟨pair, inside⟩

/-- Lifting the trigger at the program counter of a cleared table. -/
def Debugger.lifted (debugger : Debugger) (world : StepWorld) (pc : Nat) : Debugger :=
  ((debugger.bpClearKind world.clearing .step).liftAt world.lifting pc).2

theorem Debugger.liftAt_none (missing : debugger.liftedSlot pc = none) :
    (debugger.bpClearKind clearing .step).liftAt outcomes pc =
      (none, debugger.bpClearKind clearing .step) := by
  simp [liftAt, bpAt, slotOfAddr_bpClearKind, missing]

theorem Debugger.liftAt_some (found : debugger.liftedSlot pc = some slot) :
    (debugger.bpClearKind clearing .step).liftAt outcomes pc =
      (some (debugger.table slot),
        ((debugger.bpClearKind clearing .step).bpRemove outcomes pc).2) := by
  obtain ⟨inside, isUser, -⟩ := liftedSlot_some found
  simp [liftAt, bpAt, slotOfAddr_bpClearKind, found, bpClearKind_user inside isUser, isUser.2]

theorem Debugger.taken_bpClearKind
    (found : debugger.liftedSlot pc = some slot)
    (other : Nat) :
    (debugger.bpClearKind clearing .step).Taken slot other ↔ debugger.Taken slot other := by
  obtain ⟨inside, isUser, -⟩ := liftedSlot_some found
  rw [Taken, Taken, bpClearKind_user inside isUser]

/-- The slots of the table once the trigger is lifted. -/
theorem Debugger.table_lifted
    (found : debugger.liftedSlot pc = some slot)
    (inside : other < numTriggers) :
    (debugger.lifted world pc).table other =
      if debugger.Taken slot other ∨ (debugger.table other).kind = .step then .free
      else debugger.table other := by
  rw [lifted, liftAt_some found,
    table_bpRemove (slotOfAddr_bpClearKind.trans found) inside, table_bpClearKind inside]
  simp only [taken_bpClearKind found]
  by_cases taken : debugger.Taken slot other
  · simp [taken]
  · simp [taken]

theorem Debugger.lifted_noStep
    (world : StepWorld)
    (pc : Nat)
    (inside : slot < numTriggers) :
    ((debugger.lifted world pc).table slot).kind ≠ .step := by
  have cleared : ((debugger.bpClearKind world.clearing .step).table slot).kind ≠ .step := by
    rw [table_bpClearKind inside]
    split
    · exact Bp.free_not_step
    · assumption
  cases found : debugger.liftedSlot pc with
  | none =>
      simpa only [lifted, liftAt_none found] using cleared
  | some lifted =>
      rw [table_lifted found inside]
      split
      · exact Bp.free_not_step
      · next kept => exact fun step => kept (Or.inr step)

theorem Debugger.mem_users_lifted (found : debugger.liftedSlot pc = some slot) :
    bp ∈ (debugger.lifted world pc).users ↔
      bp.IsUser ∧ ∃ other < numTriggers, ¬debugger.Taken slot other ∧
        debugger.table other = bp := by
  rw [mem_users]
  refine and_congr_right fun isUser => exists_congr fun other => and_congr_right fun inside => ?_
  rw [table_lifted found inside]
  constructor
  · intro same
    split at same
    · rw [← same] at isUser
      exact absurd rfl isUser.1
    · next kept => exact ⟨fun taken => kept (Or.inl taken), same⟩
  · rintro ⟨kept, rfl⟩
    rw [if_neg (not_or.mpr ⟨kept, isUser.2⟩)]

/-- The table once the step is over, before anything is restored. -/
def Debugger.stepped
    (debugger : Debugger)
    (world : StepWorld)
    (pc : Nat)
    (raw : List Byte) : Debugger :=
  ((debugger.lifted world pc).armStep world (decodeSuccessors world.readA pc raw).1
    (decodeSuccessors world.readA pc raw).2).2.bpClearKind world.clearingAfter .step

theorem Debugger.table_stepped (raw : List Byte) (inside : slot < numTriggers) :
    (debugger.stepped world pc raw).table slot = (debugger.lifted world pc).table slot ∨
      ((debugger.lifted world pc).table slot).kind = .free ∧
        ((debugger.stepped world pc raw).table slot).kind = .free := by
  have lent : (debugger.lifted world pc).Lent ((debugger.lifted world pc).armStep world
      (decodeSuccessors world.readA pc raw).1 (decodeSuccessors world.readA pc raw).2).2 :=
    lent_armStep _ _
  rw [stepped]
  exact lent.bpClearKind (fun _ within => lifted_noStep world pc within) inside

/-- The step's own triggers leave nothing behind. -/
theorem Debugger.users_stepped (raw : List Byte) :
    (debugger.stepped world pc raw).users = (debugger.lifted world pc).users := by
  refine users_eq_of_slots fun slot inside isUser => ?_
  rcases table_stepped raw inside with same | ⟨free, free'⟩
  · exact same
  · rcases isUser with isUser | isUser
    · exact absurd free' isUser.1
    · exact absurd free isUser.1

/-! ## Setting a trigger again -/

theorem Triggers.setCodeTrigger_ok
    (triggers : Triggers)
    (outcomes : Nat → WriteOutcome)
    (inside : slot < numTriggers) :
    (triggers.setCodeTrigger outcomes slot addr).1 =
      ((outcomes 0).isOk && (outcomes 1).isOk) := by
  rw [setCodeTrigger, if_neg (Nat.not_le.mpr inside)]
  cases (outcomes 0).isOk <;> simp

theorem Debugger.users_bpAdd_existing
    (existing : debugger.slotOfAddr addr = some slot) :
    (debugger.bpAdd outcomes addr kind).2.users = debugger.users := by
  simp [bpAdd, existing]

theorem Debugger.users_bpAdd_failed
    (failed : ((outcomes 0).isOk && (outcomes 1).isOk) = false) :
    (debugger.bpAdd outcomes addr kind).2.users = debugger.users := by
  unfold bpAdd
  split
  · rfl
  · split
    · rfl
    · next slot found =>
        simp [Triggers.setCodeTrigger_ok _ _ (freeSlot_some found).1, failed, users]

/-- A trigger that is set in a free slot. -/
theorem Debugger.users_bpAdd_ok
    (missing : debugger.slotOfAddr addr = none)
    (inside : slot < numTriggers)
    (free : (debugger.table slot).kind = .free)
    (succeeds : ((outcomes 0).isOk && (outcomes 1).isOk) = true)
    (isUser : (Bp.mk addr 0 kind false false).IsUser) :
    (debugger.bpAdd outcomes addr kind).2.users =
      insert ⟨addr, 0, kind, false, false⟩ debugger.users := by
  cases found : debugger.freeSlot with
  | none =>
      rw [freeSlot, List.find?_range_eq_none] at found
      exact absurd (decide_eq_true free) (by simpa using found slot inside)
  | some first =>
      obtain ⟨inside, free⟩ := freeSlot_some found
      ext bp
      simp only [bpAdd, missing, found, Triggers.setCodeTrigger_ok _ _ inside, succeeds,
        Set.mem_insert_iff, mem_users]
      constructor
      · rintro ⟨isUser', other, within, same⟩
        rcases eq_or_ne other first with rfl | different
        · left
          simpa using same.symm
        · right
          exact ⟨isUser', other, within, by simpa [different] using same⟩
      · rintro (rfl | ⟨isUser', other, within, same⟩)
        · exact ⟨isUser, first, inside, by simp⟩
        · have different : other ≠ first := by
            rintro rfl
            exact isUser'.1 (same ▸ free)
          exact ⟨isUser', other, within, by simpa [different] using same⟩

/-! ## What a step does to the user's triggers -/

/-- The table at the end of `tricore_step`. -/
theorem Debugger.stepFrom_debugger
    (debugger : Debugger)
    (world : StepWorld)
    (pc : Nat)
    (raw : List Byte) :
    (debugger.stepFrom world pc raw).2.2 =
      if world.stopped = true ∨ world.halts = true then
        (debugger.stepped world pc raw).restore world.restoring
          ((debugger.liftedSlot pc).map debugger.table)
      else debugger.stepped world pc raw := by
  have lifts : (debugger.bpClearKind world.clearing .step).liftAt world.lifting pc =
      ((debugger.liftedSlot pc).map debugger.table, debugger.lifted world pc) := by
    cases found : debugger.liftedSlot pc with
    | none => simp only [lifted, liftAt_none found, Option.map_none]
    | some slot => simp only [lifted, liftAt_some found, Option.map_some]
  simp only [stepFrom, lifts, stepped]
  cases world.stopped <;> cases world.halts <;> simp

/-- With nothing lifted the user's triggers stay. -/
theorem Debugger.users_stepFrom_none
    (missing : debugger.liftedSlot pc = none)
    (raw : List Byte) :
    (debugger.stepFrom world pc raw).2.2.users = debugger.users := by
  have lifted_users : (debugger.lifted world pc).users = debugger.users := by
    simp only [lifted, liftAt_none missing]
    exact users_bpClearKind
  rw [stepFrom_debugger, missing]
  split
  · exact (users_stepped raw).trans lifted_users
  · exact (users_stepped raw).trans lifted_users

/-- Without the lifted trigger the user's triggers are the same exactly if it
stands elsewhere. -/
theorem Debugger.users_lifted_iff (found : debugger.liftedSlot pc = some slot) :
    (debugger.lifted world pc).users = debugger.users ↔ debugger.Twinned slot := by
  constructor
  · intro same taken inside _ isUser
    have member := table_mem_users inside isUser
    rw [← same, mem_users_lifted found] at member
    exact member.2
  · intro twinned
    ext bp
    rw [mem_users_lifted found, mem_users]
    refine and_congr_right fun isUser => ⟨?_, ?_⟩
    · rintro ⟨other, inside, -, same⟩
      exact ⟨other, inside, same⟩
    · rintro ⟨other, inside, rfl⟩
      by_cases taken : debugger.Taken slot other
      · exact twinned other inside taken isUser
      · exact ⟨other, inside, taken, rfl⟩

theorem Debugger.isUser_stepped (raw : List Byte) (inside : slot < numTriggers) :
    ((debugger.stepped world pc raw).table slot).IsUser ↔
      ((debugger.stepped world pc raw).table slot).kind ≠ .free :=
  ⟨fun isUser => isUser.1, fun used => isUser_of_cleared inside used⟩

/-- Another user's trigger at the program counter is left in place of the lifted one. -/
theorem Debugger.slotOfAddr_stepped
    (found : debugger.liftedSlot pc = some slot)
    (raw : List Byte) :
    (debugger.stepped world pc raw).slotOfAddr pc = none ↔
      ∀ other < numTriggers, (debugger.table other).IsUser →
        (debugger.table other).addr = pc → debugger.Taken slot other := by
  constructor
  · intro missing other inside isUser here
    by_contra kept
    have member : debugger.table other ∈ (debugger.stepped world pc raw).users := by
      rw [users_stepped, mem_users_lifted found]
      exact ⟨isUser, other, inside, kept, rfl⟩
    obtain ⟨-, again, within, same⟩ := member
    exact slotOfAddr_none missing again within (same ▸ ⟨isUser.1, here⟩)
  · intro only
    cases again : (debugger.stepped world pc raw).slotOfAddr pc with
    | none => rfl
    | some other =>
        obtain ⟨inside, used, here, -⟩ := slotOfAddr_some again
        have member := table_mem_users inside ((isUser_stepped raw inside).mpr used)
        rw [users_stepped, mem_users_lifted found] at member
        obtain ⟨isUser, kept, within, notTaken, same⟩ := member
        rw [← same] at isUser here
        exact absurd (only kept within isUser here) notTaken

/-- The lifted trigger as `tricore_bp_add` sets it again. -/
def Debugger.setAgain (debugger : Debugger) (slot : Nat) : Bp :=
  ⟨(debugger.table slot).addr, 0, (debugger.table slot).kind, false, false⟩

theorem Debugger.setAgain_eq
    (size : (debugger.table slot).size = 0)
    (onRead : (debugger.table slot).onRead = false)
    (onWrite : (debugger.table slot).onWrite = false) :
    debugger.setAgain slot = debugger.table slot := by
  simp only [setAgain]
  generalize debugger.table slot = bp at *
  cases bp
  simp_all

/-- Where the lifted trigger is set again, it is there as it was only if it has
neither a size nor an access type. -/
theorem Debugger.users_setAgain_iff
    (found : debugger.liftedSlot pc = some slot)
    (only : ∀ other < numTriggers, (debugger.table other).IsUser →
      (debugger.table other).addr = pc → debugger.Taken slot other) :
    insert (debugger.setAgain slot) (debugger.lifted world pc).users = debugger.users ↔
      (debugger.table slot).size = 0 ∧ (debugger.table slot).onRead = false ∧
        (debugger.table slot).onWrite = false := by
  obtain ⟨inside, isUser, here⟩ := liftedSlot_some found
  constructor
  · intro same
    have member := table_mem_users inside isUser
    rw [← same, Set.mem_insert_iff, mem_users_lifted found] at member
    rcases member with again | ⟨-, other, within, notTaken, same⟩
    · rw [again]
      exact ⟨rfl, rfl, rfl⟩
    · exact absurd (only other within (same ▸ isUser) (same ▸ here)) notTaken
  · rintro ⟨size, onRead, onWrite⟩
    rw [setAgain_eq size onRead onWrite]
    have single (other : Nat) : debugger.Taken slot other ↔ other = slot := by
      simp [Taken, size]
    ext bp
    rw [Set.mem_insert_iff, mem_users_lifted found, mem_users]
    constructor
    · rintro (rfl | ⟨isUser', other, within, -, same⟩)
      · exact ⟨isUser, slot, inside, rfl⟩
      · exact ⟨isUser', other, within, same⟩
    · rintro ⟨isUser', other, within, rfl⟩
      rcases eq_or_ne other slot with rfl | different
      · exact Or.inl rfl
      · exact Or.inr ⟨isUser', other, within, mt (single other).mp different, rfl⟩

/-- What the restoring leaves: the lifted trigger, where it can be set again. -/
theorem Debugger.users_restore
    (found : debugger.liftedSlot pc = some slot)
    (raw : List Byte) :
    ((debugger.stepped world pc raw).restore world.restoring
        (some (debugger.table slot))).users =
      if (debugger.stepped world pc raw).slotOfAddr pc = none ∧
        ((world.restoring 0).isOk && (world.restoring 1).isOk) = true then
        insert (debugger.setAgain slot) (debugger.lifted world pc).users
      else (debugger.lifted world pc).users := by
  obtain ⟨inside, isUser, here⟩ := liftedSlot_some found
  rw [← users_stepped raw, restore]
  split
  · next both =>
      have free : ((debugger.stepped world pc raw).table slot).kind = .free := by
        have lifted_free : ((debugger.lifted world pc).table slot).kind = .free := by
          have own : debugger.Taken slot slot := Or.inl rfl
          rw [table_lifted found inside, if_pos (Or.inl own)]
          rfl
        rcases @table_stepped debugger pc slot world raw inside with same | ⟨-, free⟩
        · rw [same, lifted_free]
        · exact free
      have missing : (debugger.stepped world pc raw).slotOfAddr (debugger.table slot).addr =
          none := by rw [here, both.1]
      exact users_bpAdd_ok missing inside free both.2 isUser
  · next notBoth =>
      cases missing : (debugger.stepped world pc raw).slotOfAddr pc with
      | some existing =>
          have existing' : (debugger.stepped world pc raw).slotOfAddr
              (debugger.table slot).addr = some existing := by rw [here, missing]
          exact users_bpAdd_existing existing'
      | none =>
          refine users_bpAdd_failed ?_
          simpa [missing] using notBoth

/-- Whether the lifted trigger is there again after the step. -/
theorem Debugger.users_stepFrom_iff
    (found : debugger.liftedSlot pc = some slot)
    (raw : List Byte) :
    (debugger.stepFrom world pc raw).2.2.users = debugger.users ↔
      debugger.Restorable world pc slot ∨ debugger.Twinned slot := by
  obtain ⟨inside, isUser, here⟩ := liftedSlot_some found
  rw [stepFrom_debugger, found, Option.map_some]
  by_cases stops : world.stopped = true ∨ world.halts = true
  · rw [if_pos stops, users_restore found raw]
    by_cases again : (debugger.stepped world pc raw).slotOfAddr pc = none ∧
        ((world.restoring 0).isOk && (world.restoring 1).isOk) = true
    · obtain ⟨missing, writes⟩ := again
      have only := (slotOfAddr_stepped found raw).mp missing
      rw [if_pos ⟨missing, writes⟩, users_setAgain_iff found only]
      constructor
      · rintro ⟨size, onRead, onWrite⟩
        have single : ∀ other < numTriggers, (debugger.table other).IsUser →
            (debugger.table other).addr = pc → other = slot := by
          intro other within isUser' here'
          rcases only other within isUser' here' with same | ⟨-, -, wide⟩
          · exact same
          · exact absurd (size ▸ wide) (Nat.not_lt_zero 1)
        obtain ⟨address, event⟩ := Bool.and_eq_true_iff.mp writes
        exact Or.inl ⟨size, onRead, onWrite, stops, single, address, event⟩
      · rintro (restorable | twinned)
        · exact ⟨restorable.size, restorable.onRead, restorable.onWrite⟩
        · -- a twin of the lifted trigger is at the program counter too
          obtain ⟨other, within, notTaken, same⟩ :=
            twinned slot inside (Or.inl rfl) isUser
          exact absurd (only other within (same ▸ isUser) (same ▸ here)) notTaken
    · rw [if_neg again, users_lifted_iff found]
      refine ⟨Or.inr, ?_⟩
      rintro (restorable | twinned)
      · refine absurd ⟨?_, ?_⟩ again
        · exact (slotOfAddr_stepped found raw).mpr fun other within isUser' here' =>
            Or.inl (restorable.only other within isUser' here')
        · simp [restorable.address, restorable.event]
      · exact twinned
  · rw [if_neg stops, users_stepped, users_lifted_iff found]
    refine ⟨Or.inr, ?_⟩
    rintro (restorable | twinned)
    · exact absurd restorable.stops stops
    · exact twinned

/-- A step leaves the user's triggers as they were exactly if what it lifts can be
restored or stands elsewhere, whatever the table and the answers. -/
theorem step_keeps_users_iff (debugger : Debugger) (world : StepWorld) :
    (tricoreStep debugger world).2.2.users = debugger.users ↔ debugger.StepKeeps world := by
  have early
      (none : ∀ pc raw slot, world.argsOk = true → world.pc = some pc →
        world.raw = some raw → debugger.liftedSlot pc ≠ some slot) :
      debugger.StepKeeps world := fun pc raw slot ok isPc isRaw found =>
    absurd found (none pc raw slot ok isPc isRaw)
  unfold tricoreStep
  cases ok : world.argsOk with
  | false => exact iff_of_true rfl (early fun _ _ _ isOk => nomatch ok.symm.trans isOk)
  | true =>
      cases isPc : world.pc with
      | none => exact iff_of_true rfl (early fun _ _ _ _ isPc' => nomatch isPc.symm.trans isPc')
      | some pc =>
          cases isRaw : world.raw with
          | none =>
              exact iff_of_true rfl
                (early fun _ _ _ _ _ isRaw' => nomatch isRaw.symm.trans isRaw')
          | some raw =>
              cases found : debugger.liftedSlot pc with
              | none =>
                  refine iff_of_true (Debugger.users_stepFrom_none found raw) (early ?_)
                  intro pc' raw' slot _ isPc' _ found'
                  obtain rfl := Option.some.inj (isPc.symm.trans isPc')
                  exact nomatch found.symm.trans found'
              | some slot =>
                  have keeps : debugger.StepKeeps world ↔
                      debugger.Restorable world pc slot ∨ debugger.Twinned slot := by
                    refine ⟨fun keeps => keeps pc raw slot ok isPc isRaw found, ?_⟩
                    intro either pc' raw' slot' _ isPc' _ found'
                    obtain rfl := Option.some.inj (isPc.symm.trans isPc')
                    obtain rfl := Option.some.inj (found.symm.trans found')
                    exact either
                  rw [keeps]
                  exact Debugger.users_stepFrom_iff found raw

/-- A watchpoint on one byte at `0x80000100`. -/
def byteWatched : Debugger :=
  (nothingSet.bpAddWatch allOk 0x80000100 1 false true).2

/-- A breakpoint at `0x80000100`. -/
def breakSet : Debugger :=
  (nothingSet.bpAdd allOk 0x80000100 .user).2

/-- A step of a `NOP` at `0x80000100` with all writes going through. -/
def stepNop (stops : Bool) : StepWorld where
  argsOk := true
  pc := some 0x80000100
  raw := some [0, 0, 0, 0]
  readA _ := none
  clearing _ := allOk
  lifting := allOk
  armingFall := allOk
  armingTarget := allOk
  stopped := stops
  halts := stops
  clearingAfter _ := allOk
  restoring := allOk
  landed := some 0x80000102

/-- A step from the watched byte loses the watchpoint's size and access, and one from
the breakpoint loses the breakpoint where the core cannot be stopped. -/
theorem step_loses_triggers :
    (tricoreStep byteWatched (stepNop true)).2.2.users ≠ byteWatched.users ∧
      (tricoreStep breakSet (stepNop false)).2.2.users ≠ breakSet.users := by
  constructor
  · intro same
    have watched : ⟨0x80000100, 1, .watch, false, true⟩ ∈ byteWatched.users :=
      ⟨by decide, 0, by decide, by decide +kernel⟩
    have lost : ∀ slot < numTriggers, (tricoreStep byteWatched (stepNop true)).2.2.table slot ≠
        ⟨0x80000100, 1, .watch, false, true⟩ := by decide +kernel
    rw [← same] at watched
    obtain ⟨-, slot, inside, there⟩ := watched
    exact lost slot inside there
  · intro same
    have set : ⟨0x80000100, 0, .user, false, false⟩ ∈ breakSet.users :=
      ⟨by decide, 0, by decide, by decide +kernel⟩
    have lost : ∀ slot < numTriggers, (tricoreStep breakSet (stepNop false)).2.2.table slot ≠
        ⟨0x80000100, 0, .user, false, false⟩ := by decide +kernel
    rw [← same] at set
    obtain ⟨-, slot, inside, there⟩ := set
    exact lost slot inside there

end Debug
end TriCoreDap
