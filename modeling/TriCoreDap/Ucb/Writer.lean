import TriCoreDap.Ucb.Catalogue

/-!
# Planning and writing the boot mode headers

`plan` decides about every block an image carries, `writeBlock` erases,
programs and verifies one of them, and `tricoreUcbProgram` is the whole run.
Reports are kept as data, not as text.
-/

namespace TriCoreDap
namespace Ucb

open Probe Flash

inductive Action
  | write
  | skip
  | refuse
  deriving DecidableEq, Repr

/-- Why a block is written, skipped or refused. -/
inductive Reason
  | notImageOwned
  | problems (problems : List Problem)
  | wouldConfirm (offsets : List Nat)
  | notWritable (state : TargetState)
  | unreadable
  | differs (bytes : Nat)
  | alreadyHolds
  deriving DecidableEq, Repr

/-- `decision_t`. -/
structure Decision where
  block : UcbBlock
  action : Action
  state : Option TargetState
  reason : Reason
  deriving DecidableEq, Repr

/-- The end of `plan_block`: the block's state allows a write. -/
def planContents
    (block : UcbBlock)
    (blob : List Byte)
    (state : TargetState) : Run Decision := do
  match ← readBlock block with
  | none => return ⟨block, .refuse, some state, .unreadable⟩
  | some onTarget =>
      let differing := (differences blob onTarget).length
      return if differing ≠ 0 then ⟨block, .write, some state, .differs differing⟩
        else ⟨block, .skip, some state, .alreadyHolds⟩

def planBlock (image : UcbImage) (block : UcbBlock) : Run Decision :=
  let blob := image.blobOf block
  if !isOwned block then .done ⟨block, .skip, none, .notImageOwned⟩
  else if check block blob ≠ [] then
    .done ⟨block, .refuse, none, .problems (check block blob)⟩
  else if confirmedAt block blob ≠ [] then
    .done ⟨block, .refuse, none, .wouldConfirm (confirmedAt block blob)⟩
  else do
    let state ← stateOnTarget block
    if state ≠ .unread ∧ state ≠ .unlocked then
      return ⟨block, .refuse, some state, .notWritable state⟩
    else planContents block blob state

/-- The blocks `plan` goes through: the headers the image carries, then the rest
of what it carries. -/
def carried (image : UcbImage) : List UcbBlock :=
  (imageOwned.filterMap byName).filter image.carries ++
    blocks.filter fun block => !isOwned block && image.carries block

def planBlocks (image : UcbImage) : List UcbBlock → Run (List Decision)
  | [] => .done []
  | block :: rest => do
      let decision ← planBlock image block
      let decisions ← planBlocks image rest
      return decision :: decisions

def plan (image : UcbImage) : Run (List Decision) :=
  planBlocks image (carried image)

/-! ## The writer -/

def ucbPageSize : Nat := 8
def eraseTimeoutMs : Nat := 5000
def programTimeoutMs : Nat := 10000
/-- The page that holds the confirmation word. -/
def statePage : Nat := stateOffset - stateOffset % ucbPageSize

/-- Which of the two commands a message is about. -/
inductive What
  | erase (block : BlockName)
  | program (address : Nat)
  deriving DecidableEq, Repr

/-- `s_why`: why a block was not written. -/
inductive Why
  | notHalted (block : BlockName)
  | lostTargetInPageMode (block : BlockName)
  | notInPageMode (block : BlockName) (errsr : Word)
  | lostTarget (what : What)
  | notFinished (what : What) (seconds : Nat)
  | failed (what : What) (errsr : Word)
  | notReadBackAfterErase (block : BlockName)
  | notErased (block : BlockName) (bytes first : Nat)
  | statusNotCleared
  | notReadBack (block : BlockName)
  | readBackDiffers (bytes first : Nat) (wrote read : Byte)
  | formalCheck
  deriving DecidableEq, Repr

abbrev Result := Except Why Unit

/-- `wait_idle`. -/
def waitFor (what : What) (timeoutMs : Nat) : Run Result := do
  match ← waitIdle timeoutMs with
  | .idle => return .ok ()
  | .timeout => return .error (.notFinished what (timeoutMs / 1000))
  | .failed errsr => return .error (.failed what errsr)

/-- `check_page_mode`. -/
def checkPageMode (block : UcbBlock) : Run Result := do
  let _ ← clearStatus
  if ← cycle cycle5554 cmdEnterPageDflash then
    match ← read32 dmuHfStatus with
    | none => return .error (.lostTargetInPageMode block.name)
    | some status =>
        let errsr ← read32 dmuHfErrsr
        let _ ← clearStatus
        return if status &&& statusDfpage = 0 then
            .error (.notInPageMode block.name (errsr.getD 0))
          else .ok ()
  else return .error (.lostTargetInPageMode block.name)

/-- The bytes of a block that are not erased. -/
def unerased (after : List Byte) : List Nat :=
  (List.range ucbSize).filter fun i => after.getD i 0 != erasedByte

/-- The read-back at the end of `erase`. -/
def confirmErased (block : UcbBlock) : Run Result := do
  match ← readBlock block with
  | none => return .error (.notReadBackAfterErase block.name)
  | some after =>
      return if unerased after ≠ [] then
          .error (.notErased block.name (unerased after).length
            ((unerased after).headD 0))
        else .ok ()

def eraseSequence (block : UcbBlock) : List (Nat × Nat) :=
  [ (cycleAA50, block.base), (cycleAA58, 1), (cycleAAA8, cmdEraseSetup),
    (cycleAAA8, cmdErase) ]

/-- Erase one block and confirm it really is erased. -/
def erase (block : UcbBlock) : Run Result := do
  let _ ← clearStatus
  if ← cycles (eraseSequence block) then
    match ← waitFor (.erase block.name) eraseTimeoutMs with
    | .error why => return .error why
    | .ok () =>
        let _ ← clearStatus
        confirmErased block
  else return .error (.lostTarget (.erase block.name))

/-- The cycles of `program_page` for the page of `blob` at `offset`. -/
def programSequence (address : Nat) (blob : List Byte) (offset : Nat) :
    List (Nat × Nat) :=
  [ (cycle5554, cmdClearStatus), (cycle5554, cmdEnterPageDflash),
    (cycle55F0, le32 blob offset), (cycle55F4, le32 blob (offset + 4)),
    (cycleAA50, address), (cycleAA58, 0), (cycleAAA8, cmdWritePage),
    (cycleAAA8, cmdProgram) ]

/-- `program_page` for the page of `blob` at `offset`. -/
def programPage (block : UcbBlock) (blob : List Byte) (offset : Nat) : Run Result := do
  let address := u32 (block.base + offset)
  if ← cycles (programSequence address blob offset) then
    match ← waitFor (.program address) programTimeoutMs with
    | .error why => return .error why
    | .ok () =>
        if ← clearStatus then return .ok () else return .error .statusNotCleared
  else return .error (.lostTarget (.program address))

/-- Program pages in order until one fails. -/
def programPages (block : UcbBlock) (blob : List Byte) : List Nat → Run Result
  | [] => .done (.ok ())
  | offset :: rest => do
      match ← programPage block blob offset with
      | .error why => return .error why
      | .ok () => programPages block blob rest

/-- The offsets of the pages in the order they are programmed: the state page
last. -/
def pageOrder : List Nat :=
  ((List.range (ucbSize / ucbPageSize)).map (ucbPageSize * ·)).filter (· != statePage) ++
    [statePage]

/-- The read-back at the end of `write_block`, with the problems it finds. -/
def verifyBlock (block : UcbBlock) (blob : List Byte) : Run (Result × List Problem) := do
  match ← readBlock block with
  | none => return (.error (.notReadBack block.name), [])
  | some after =>
      let differing := differences blob after
      let problems := check block after
      let first := differing.headD 0
      return if differing ≠ [] then
          (.error (.readBackDiffers differing.length first (blob.getD first 0)
            (after.getD first 0)), problems)
        else if problems ≠ [] then (.error .formalCheck, problems)
        else (.ok (), problems)

/-- Erase and program one block, then read it back and check what is there. -/
def writeBlock
    (present : Bool)
    (block : UcbBlock)
    (blob : List Byte) : Run (Result × List Problem) := do
  if ← tricoreIsHalted present then
    match ← checkPageMode block with
    | .error why => return (.error why, [])
    | .ok () =>
        match ← erase block with
        | .error why => return (.error why, [])
        | .ok () =>
            match ← programPages block blob pageOrder with
            | .error why => return (.error why, [])
            | .ok () => verifyBlock block blob
  else return (.error (.notHalted block.name), [])

/-! ## The whole run -/

/-- What became of a planned write. -/
structure Written where
  block : UcbBlock
  result : Result
  problems : List Problem

/-- What `tricore_ucb_program` returns and reports. -/
structure Outcome where
  err : EspErr
  decisions : List Decision
  written : List Written

/-- Write the blocks decided so; a failure does not abandon the rest. -/
def writePlanned
    (present : Bool)
    (image : UcbImage) : List Decision → Run (List Written)
  | [] => .done []
  | decision :: rest =>
      if decision.action ≠ .write then writePlanned present image rest
      else do
        let (result, problems) ← writeBlock present decision.block
          (image.blobOf decision.block)
        let written ← writePlanned present image rest
        return ⟨decision.block, result, problems⟩ :: written

def Written.failed (written : Written) : Bool :=
  match written.result with
  | .ok () => false
  | .error _ => true

/-- `tricore_ucb_program`, `present` saying whether core 0 was discovered. -/
def tricoreUcbProgram (present : Bool) : Option UcbImage → Run Outcome
  | none => .done ⟨.invalidArg, [], []⟩
  | some image => do
      let decisions ← plan image
      let refused := decisions.any (·.action == .refuse)
      if decisions.all (·.action != .write) then
        return ⟨if refused then .fail else .ok, decisions, []⟩
      else
        let written ← writePlanned present image decisions
        let _ ← clearStatus
        let failed := written.any Written.failed
        return ⟨if failed || refused then .fail else .ok, decisions, written⟩

end Ucb
end TriCoreDap
