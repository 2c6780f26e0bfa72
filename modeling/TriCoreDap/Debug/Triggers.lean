import Mathlib.Logic.Function.Basic
import TriCoreDap.Library.Word

/-!
# The address triggers of a core

The comparators that breakpoints and watchpoints are served from, how they fire,
and the table of what each is used for: `tricore_regs.c` and the breakpoints of
`tricore_bmp.c`, for one core that answered discovery.
-/

namespace TriCoreDap
namespace Debug

/-- `TRICORE_NUM_TRIGGERS`. -/
def numTriggers : Nat := 8
/-- `TREVT_HALT_ON_ADDR`: the type is the program counter. -/
def trevtHaltOnAddr : Nat := 0x102A
def evtaHalt : Nat := 2
def evtSusp : Nat := 1 <<< 5
def trevtRng : Nat := 1 <<< 13
def trevtAst : Nat := 1 <<< 27
def trevtAld : Nat := 1 <<< 28

/-- The registers of the triggers. -/
structure Triggers where
  evt : Nat → Nat
  adr : Nat → Nat

/-- What comes of a register write; one that fails may have been done. -/
inductive WriteOutcome
  | ok
  | failed (applied : Bool)
  deriving DecidableEq, Repr

def WriteOutcome.isOk : WriteOutcome → Bool
  | ok => true
  | failed _ => false

def WriteOutcome.isApplied : WriteOutcome → Bool
  | ok => true
  | failed applied => applied

/-! ## Firing -/

/-- What the core does at an address. -/
inductive Access
  | fetch
  | read
  | write
  deriving DecidableEq, Repr

/-- The event register asks for a halt on the access. -/
def Armed (evt : Nat) : Access → Prop
  | .fetch => evt % 8 = evtaHalt ∧ evt.testBit 12 = true
  | .read => evt % 8 = evtaHalt ∧ evt.testBit 12 = false ∧ evt.testBit 28 = true
  | .write => evt % 8 = evtaHalt ∧ evt.testBit 12 = false ∧ evt.testBit 27 = true

instance (evt : Nat) (access : Access) : Decidable (Armed evt access) := by
  cases access <;> unfold Armed <;> infer_instance

namespace Triggers

def ranged (triggers : Triggers) (slot : Nat) : Bool := (triggers.evt slot).testBit 13

/-- The odd half of a range; its own configuration is ignored. -/
def Ignored (triggers : Triggers) (slot : Nat) : Prop :=
  slot % 2 = 1 ∧ triggers.ranged (slot - 1) = true

/-- The trigger compares with the address: its own one, or the range from it to the
address of the next trigger. -/
def Covers (triggers : Triggers) (slot address : Nat) : Prop :=
  if triggers.ranged slot then
    triggers.adr slot ≤ address ∧ address < triggers.adr (slot + 1)
  else address = triggers.adr slot

/-- A trigger fires on the access. -/
def Fires (triggers : Triggers) (access : Access) (address : Nat) : Prop :=
  ∃ slot < numTriggers, ¬triggers.Ignored slot ∧ Armed (triggers.evt slot) access ∧
    triggers.Covers slot address

instance (triggers : Triggers) (slot : Nat) : Decidable (triggers.Ignored slot) :=
  inferInstanceAs (Decidable (_ ∧ _))

instance (triggers : Triggers) (slot address : Nat) :
    Decidable (triggers.Covers slot address) := by
  unfold Covers
  infer_instance

instance (triggers : Triggers) (access : Access) (address : Nat) :
    Decidable (triggers.Fires access address) := by
  unfold Fires
  infer_instance

/-! ## Setting and clearing -/

/-- `tricore_wr` of `OFF_TR_EVT(slot)`. -/
def writeEvt (triggers : Triggers) (outcome : WriteOutcome) (slot : Nat) (value : Nat) :
    Triggers :=
  if outcome.isApplied then { triggers with evt := Function.update triggers.evt slot value }
  else triggers

/-- `tricore_wr` of `OFF_TR_ADR(slot)`. -/
def writeAdr (triggers : Triggers) (outcome : WriteOutcome) (slot : Nat) (value : Nat) :
    Triggers :=
  if outcome.isApplied then { triggers with adr := Function.update triggers.adr slot value }
  else triggers

/-- `tricore_set_code_trigger`: the address first, so that the trigger is never live
on a stale address. -/
def setCodeTrigger
    (triggers : Triggers)
    (outcomes : Nat → WriteOutcome)
    (slot : Nat)
    (addr : Nat) : Bool × Triggers :=
  if slot ≥ numTriggers then (false, triggers)
  else
    let triggers := triggers.writeAdr (outcomes 0) slot addr
    if !(outcomes 0).isOk then (false, triggers)
    else ((outcomes 1).isOk, triggers.writeEvt (outcomes 1) slot trevtHaltOnAddr)

/-- `data_trigger_word`. -/
def dataTriggerWord (onRead onWrite isRange : Bool) : Nat :=
  evtaHalt ||| evtSusp ||| (if onRead then trevtAld else 0) |||
    (if onWrite then trevtAst else 0) ||| (if isRange then trevtRng else 0)

/-- `tricore_set_data_trigger`: wider than a byte it is an even/odd pair. -/
def setDataTrigger
    (triggers : Triggers)
    (outcomes : Nat → WriteOutcome)
    (slot : Nat)
    (addr size : Nat)
    (onRead onWrite : Bool) : Bool × Triggers :=
  if slot ≥ numTriggers then (false, triggers)
  else if size < 1 ∨ (!onRead && !onWrite) then (false, triggers)
  else if size = 1 then
    let triggers := triggers.writeAdr (outcomes 0) slot addr
    if !(outcomes 0).isOk then (false, triggers)
    else
      ((outcomes 1).isOk,
        triggers.writeEvt (outcomes 1) slot (dataTriggerWord onRead onWrite false))
  else if slot % 2 ≠ 0 ∨ slot + 1 ≥ numTriggers then (false, triggers)
  else
    let triggers := triggers.writeAdr (outcomes 0) slot addr
    let triggers := triggers.writeAdr (outcomes 1) (slot + 1) (u32 (addr + size))
    let triggers := triggers.writeEvt (outcomes 2) (slot + 1) 0
    ((outcomes 3).isOk, triggers.writeEvt (outcomes 3) slot (dataTriggerWord onRead onWrite true))

/-- `tricore_clear_trigger`; nothing looks at what it returns. -/
def clearTrigger (triggers : Triggers) (outcomes : Nat → WriteOutcome) (slot : Nat) : Triggers :=
  if slot ≥ numTriggers then triggers
  else (triggers.writeEvt (outcomes 0) slot 0).writeAdr (outcomes 1) slot 0

end Triggers

/-! ## The table -/

/-- `tricore_bp_kind_t`. -/
inductive BpKind
  | free
  | user
  | step
  | watch
  | watchHi
  deriving DecidableEq, Repr

/-- `tricore_bp_t`. -/
structure Bp where
  addr : Nat
  size : Nat
  kind : BpKind
  onRead : Bool
  onWrite : Bool
  deriving DecidableEq, Repr

def Bp.free : Bp := ⟨0, 0, .free, false, false⟩

/-- What a request asks for: a code breakpoint or a watchpoint. -/
inductive Wanted
  | code (addr : Nat)
  | data (addr size : Nat) (onRead onWrite : Bool)
  deriving DecidableEq, Repr

/-- The slots of `s_slots` and the registers they stand for. -/
structure Debugger where
  table : Nat → Bp
  triggers : Triggers
  /-- The requests that returned success and were not cleared since. -/
  live : List Wanted

namespace Debugger

/-- `free_slot`. -/
def freeSlot (debugger : Debugger) : Option Nat :=
  (List.range numTriggers).find? fun n => (debugger.table n).kind = .free

/-- `free_pair`. -/
def freePair (debugger : Debugger) : Option Nat :=
  ((List.range (numTriggers / 2)).map (2 * ·)).find? fun n =>
    (debugger.table n).kind = .free ∧ (debugger.table (n + 1)).kind = .free

/-- `slot_of_addr`. -/
def slotOfAddr (debugger : Debugger) (addr : Nat) : Option Nat :=
  (List.range numTriggers).find? fun n =>
    (debugger.table n).kind ≠ .free ∧ (debugger.table n).addr = addr

/-- `tricore_bp_add`. -/
def bpAdd
    (debugger : Debugger)
    (outcomes : Nat → WriteOutcome)
    (addr : Nat)
    (kind : BpKind) : Option Nat × Debugger :=
  match debugger.slotOfAddr addr with
  | some existing => (some existing, debugger)
  | none =>
      match debugger.freeSlot with
      | none => (none, debugger)
      | some slot =>
          let (ok, triggers) := debugger.triggers.setCodeTrigger outcomes slot addr
          if !ok then (none, { debugger with triggers := triggers })
          else
            (some slot,
              { debugger with
                triggers := triggers
                table := Function.update debugger.table slot ⟨addr, 0, kind, false, false⟩ })

/-- `tricore_bp_add_watch`. -/
def bpAddWatch
    (debugger : Debugger)
    (outcomes : Nat → WriteOutcome)
    (addr size : Nat)
    (onRead onWrite : Bool) : Option Nat × Debugger :=
  match debugger.slotOfAddr addr with
  | some existing => (some existing, debugger)
  | none =>
      match if size > 1 then debugger.freePair else debugger.freeSlot with
      | none => (none, debugger)
      | some slot =>
          let (ok, triggers) :=
            debugger.triggers.setDataTrigger outcomes slot addr size onRead onWrite
          if !ok then (none, { debugger with triggers := triggers })
          else
            let table := Function.update debugger.table slot ⟨addr, size, .watch, onRead, onWrite⟩
            -- the odd trigger of a pair is reserved
            let upper : Bp := ⟨u32 (addr + size), 0, .watchHi, false, false⟩
            (some slot,
              { debugger with
                triggers := triggers
                table := if size > 1 then Function.update table (slot + 1) upper else table })

/-- `tricore_bp_remove`. -/
def bpRemove (debugger : Debugger) (outcomes : Nat → WriteOutcome) (addr : Nat) :
    Bool × Debugger :=
  match debugger.slotOfAddr addr with
  | none => (false, debugger)
  | some slot =>
      let hadPair := (debugger.table slot).kind = .watch ∧ (debugger.table slot).size > 1
      let triggers := debugger.triggers.clearTrigger outcomes slot
      let table := Function.update debugger.table slot .free
      if hadPair ∧ slot + 1 < numTriggers then
        (true,
          { debugger with
            triggers := triggers.clearTrigger (fun n => outcomes (n + 2)) (slot + 1)
            table := Function.update table (slot + 1) .free })
      else (true, { debugger with triggers := triggers, table := table })

end Debugger

/-! ## Requests -/

/-- The types of `breakwatch_s`. -/
inductive BreakType
  | breakSoft
  | breakHard
  | watchWrite
  | watchRead
  | watchAccess
  | other
  deriving DecidableEq, Repr

/-- `breakwatch_s`. -/
structure Breakwatch where
  type : BreakType
  addr : Nat
  size : Nat
  deriving DecidableEq, Repr

def Breakwatch.wanted (bw : Breakwatch) : Option Wanted :=
  match bw.type with
  | .breakSoft => some (.code (u32 bw.addr))
  | .breakHard => some (.code (u32 bw.addr))
  | .watchWrite => some (.data (u32 bw.addr) (u32 bw.size) false true)
  | .watchRead => some (.data (u32 bw.addr) (u32 bw.size) true false)
  | .watchAccess => some (.data (u32 bw.addr) (u32 bw.size) true true)
  | .other => none

/-- What `tricore_breakwatch_set` returns: 1, -1 and 0. -/
inductive SetReply
  | unsupported
  | failed
  | done
  deriving DecidableEq, Repr

/-- A request. -/
inductive Request
  | set (bw : Breakwatch)
  | clear (bw : Breakwatch)

namespace Debugger

/-- `tricore_breakwatch_set`. -/
def breakwatchSet
    (debugger : Debugger)
    (outcomes : Nat → WriteOutcome)
    (bw : Breakwatch) : SetReply × Debugger :=
  match bw.wanted with
  | none => (.unsupported, debugger)
  | some wanted =>
      let (slot, debugger) :=
        match wanted with
        | .code addr => debugger.bpAdd outcomes addr .user
        | .data addr size onRead onWrite => debugger.bpAddWatch outcomes addr size onRead onWrite
      match slot with
      | none => (.failed, debugger)
      | some _ => (.done, { debugger with live := wanted :: debugger.live })

/-- `tricore_breakwatch_clear`; it returns 0. -/
def breakwatchClear
    (debugger : Debugger)
    (outcomes : Nat → WriteOutcome)
    (bw : Breakwatch) : Debugger :=
  let (_, debugger) := debugger.bpRemove outcomes (u32 bw.addr)
  { debugger with live := debugger.live.filter fun wanted => some wanted ≠ bw.wanted }

/-- A request, with what comes of its register writes. -/
def step (debugger : Debugger) (request : Request × (Nat → WriteOutcome)) : Debugger :=
  match request.1 with
  | .set bw => (debugger.breakwatchSet request.2 bw).2
  | .clear bw => debugger.breakwatchClear request.2 bw

end Debugger

end Debug
end TriCoreDap
